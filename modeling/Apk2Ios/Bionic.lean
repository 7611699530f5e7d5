import Apk2Ios.Elf
import Apk2Ios.Lib.Memory
import Apk2Ios.Lib.Placement

/-!
# What relocations mean

The Android dynamic linker's reading of a relocation: either the word becomes a value
relative to the load bias, or it waits for a symbol of another library.  A translator that
places the file in pieces and patches the words in the order of the relocations leaves the
linker's values in them, provided no two words overlap.
-/

namespace Apk2Ios

open Lib

/-- `R_AARCH64_ABS64`. -/
def rAarch64Abs64 : ℕ := 257

/-- `R_AARCH64_GLOB_DAT`. -/
def rAarch64GlobDat : ℕ := 1025

/-- `R_AARCH64_JUMP_SLOT`. -/
def rAarch64JumpSlot : ℕ := 1026

/-- `R_AARCH64_RELATIVE`. -/
def rAarch64Relative : ℕ := 1027

/-- The counters of patched words, one for each kind of relocation. -/
structure Patched where
  relative : ℕ := 0
  internalAbs64 : ℕ := 0
  internalGlobDat : ℕ := 0
  internalJumpSlot : ℕ := 0
deriving DecidableEq, Repr

/-- Count a relocation of the given type. -/
def Patched.count (p : Patched) (type : ℕ) : Patched :=
  if type = rAarch64Relative then { p with relative := p.relative + 1 }
  else if type = rAarch64Abs64 then { p with internalAbs64 := p.internalAbs64 + 1 }
  else if type = rAarch64GlobDat then { p with internalGlobDat := p.internalGlobDat + 1 }
  else { p with internalJumpSlot := p.internalJumpSlot + 1 }

/-- What is to be done with the word of a relocation. -/
inductive Fixup where
  /-- The word becomes the bias plus `target`, plus its old value when `additive`. -/
  | internal (target : ℤ) (additive : Bool)
  /-- The word depends on a symbol that the file does not define. -/
  | external (symbol : DynamicSymbol)
deriving DecidableEq, Repr

/-- The value of a word relative to the bias, modulo `2 ^ 64`. -/
def bionicWord (bias target : ℤ) (additive : Bool) (old : ℕ) : ℕ :=
  ((bias + target + if additive then (old : ℤ) else 0) % 2 ^ 64).toNat

namespace Relocation

/-- The meaning of a relocation of a supported type. -/
def fixup? (symbols : List DynamicSymbol) (rel : Relocation) : Option Fixup :=
  if rel.type = rAarch64Relative then some (.internal rel.addend false)
  else if rel.type ∉ [rAarch64Abs64, rAarch64GlobDat, rAarch64JumpSlot] then none
  else
    symbols[rel.symbolIndex]?.map fun symbol =>
      if symbol.shndx = shnUndef then .external symbol
      else .internal (symbol.value + rel.addend) (rel.type = rAarch64Abs64)

/-- The relocation is resolved inside the file. -/
def Internal (symbols : List DynamicSymbol) (rel : Relocation) : Prop :=
  ∃ target additive, rel.fixup? symbols = some (.internal target additive)

/-- The type of a relocation that is resolved inside the file. -/
def internal? (symbols : List DynamicSymbol) (rel : Relocation) : Option ℕ :=
  match rel.fixup? symbols with
  | some (.internal _ _) => some rel.type
  | _ => none

/-- A relocation against a symbol of another library, with the symbol. -/
def external? (symbols : List DynamicSymbol) (rel : Relocation) :
    Option (Relocation × DynamicSymbol) :=
  match rel.fixup? symbols with
  | some (.external symbol) => some (rel, symbol)
  | _ => none

/-- The update of the word, where the pieces place it. -/
def update? (bias : ℤ) (symbols : List DynamicSymbol) (ps : List Piece) (rel : Relocation) :
    Option WordUpdate :=
  match rel.fixup? symbols, locate ps rel.offset with
  | some (.internal target additive), some pos => some ⟨pos, bionicWord bias target additive⟩
  | _, _ => none

end Relocation

/-- The value for a defined symbol and the counters; `ABS64` adds the existing word.  The loops
of both translators compute it in the same way. -/
def internalValue (slide : ℕ) (image : Bytes) (patched : Patched) (dst : ℕ) (rel : Relocation)
    (symbol : DynamicSymbol) : PyM (ℤ × Patched) :=
  let symAddr := slide + symbol.value
  let value : ℤ := symAddr + rel.addend
  if rel.type = rAarch64Abs64 then do
    let existing ← unpackFrom 8 image dst
    return (value + leNat existing,
      { patched with internalAbs64 := patched.internalAbs64 + 1 })
  else if rel.type = rAarch64GlobDat then
    return (value, { patched with internalGlobDat := patched.internalGlobDat + 1 })
  else return (value, { patched with internalJumpSlot := patched.internalJumpSlot + 1 })

/-- The updates of a list of relocations, in order. -/
def wordUpdates (bias : ℤ) (symbols : List DynamicSymbol) (ps : List Piece)
    (rels : List Relocation) : List WordUpdate :=
  rels.filterMap (Relocation.update? bias symbols ps)

/-- The words of different relocations do not overlap. -/
def WindowsApart (rels : List Relocation) : Prop :=
  rels.Pairwise fun r r' => Apart r.offset r'.offset

instance (rels : List Relocation) : Decidable (WindowsApart rels) :=
  inferInstanceAs (Decidable (List.Pairwise _ _))

/-- The word of every relocation lies in the piece it is found in. -/
def WindowsHeld (ps : List Piece) (rels : List Relocation) : Prop :=
  ∀ r ∈ rels, FoundWhole ps r.offset

lemma bionicWord_lt (bias target : ℤ) (additive : Bool) (old : ℕ) :
    bionicWord bias target additive old < 2 ^ 64 := by
  rw [bionicWord]
  omega

lemma bionicWord_add (bias target : ℤ) (additive : Bool) (old s : ℕ) :
    (bionicWord bias target additive old + s) % 2 ^ 64 =
      bionicWord (bias + s) target additive old := by
  rw [bionicWord, bionicWord]
  omega

lemma apply_bionicWord {slide pos : ℕ} {img : Bytes} {target : ℤ} {additive : Bool} :
    WordUpdate.apply ⟨pos, bionicWord slide target additive⟩ img =
      sliceAssign img pos 8 (leBytes 8
        (wrap64 (slide + target + if additive then (word img pos : ℤ) else 0))) := rfl

/-- In each of its cases the value is the linker's, and the counter of the case goes up. -/
lemma internalValue_eq_ok {slide dst : ℕ} {image : Bytes} {patched : Patched} {rel : Relocation}
    {symbol : DynamicSymbol} (htype : rel.type ≠ rAarch64Relative) {p : ℤ × Patched} :
    internalValue slide image patched dst rel symbol = .ok p ↔
      (rel.type = rAarch64Abs64 → dst + 8 ≤ image.length) ∧
      p = (slide + (symbol.value + rel.addend) +
          if rel.type = rAarch64Abs64 then (word image dst : ℤ) else 0,
        patched.count rel.type) := by
  have hassoc : ((slide + symbol.value : ℕ) : ℤ) + rel.addend =
      slide + (symbol.value + rel.addend) := by
    push_cast
    ring
  simp only [internalValue, Patched.count, if_neg htype, hassoc]
  by_cases habs : rel.type = rAarch64Abs64
  · simp only [if_pos habs, PyM.bind_eq_ok, unpackFrom_eq_ok, PyM.pure_eq_ok]
    constructor
    · rintro ⟨_, ⟨h, rfl⟩, rfl⟩
      exact ⟨fun _ => h, rfl⟩
    · rintro ⟨h, rfl⟩
      exact ⟨_, ⟨h habs, rfl⟩, rfl⟩
  · by_cases hglob : rel.type = rAarch64GlobDat
    · simp only [if_neg habs, if_pos hglob, PyM.pure_eq_ok, add_zero]
      exact eq_comm.trans (and_iff_right fun h => absurd h habs).symm
    · simp only [if_neg habs, if_neg hglob, PyM.pure_eq_ok, add_zero]
      exact eq_comm.trans (and_iff_right fun h => absurd h habs).symm

lemma Relocation.fixup?_relative {symbols : List DynamicSymbol} {rel : Relocation}
    (htype : rel.type = rAarch64Relative) :
    rel.fixup? symbols = some (.internal rel.addend false) := by
  rw [Relocation.fixup?, if_pos htype]

section

variable {bias : ℤ} {symbols : List DynamicSymbol} {ps : List Piece} {rel : Relocation}
  {rels : List Relocation} {u : WordUpdate} {source img : Bytes} {p : Piece}

lemma Relocation.external?_eq_some {q : Relocation × DynamicSymbol} :
    rel.external? symbols = some q ↔ rel.fixup? symbols = some (.external q.2) ∧ rel = q.1 := by
  obtain ⟨r, symbol⟩ := q
  rw [external?]
  split
  · rename_i symbol' hfix
    rw [hfix, Option.some.injEq, Option.some.injEq, Prod.mk.injEq, Fixup.external.injEq]
    exact and_comm
  · rename_i hno
    simp only [reduceCtorEq, false_iff, not_and]
    exact fun hfix => absurd hfix (hno symbol)

lemma Relocation.internal?_eq_some {type : ℕ} :
    rel.internal? symbols = some type ↔ rel.Internal symbols ∧ rel.type = type := by
  rw [internal?]
  split
  · rename_i target additive hfix
    simp [Internal, hfix]
  · rename_i hno
    simp only [reduceCtorEq, false_iff, not_and, Internal]
    exact fun ⟨target, additive, hfix⟩ => absurd hfix (hno target additive)

/-- The symbol of an external relocation is an undefined one of the table. -/
lemma Relocation.getElem?_of_external {symbol : DynamicSymbol}
    (h : rel.fixup? symbols = some (.external symbol)) :
    symbols[rel.symbolIndex]? = some symbol ∧ symbol.shndx = shnUndef := by
  rw [fixup?] at h
  split at h
  · simp at h
  · split at h
    · simp at h
    · obtain ⟨symbol', hsym, hfix⟩ := Option.map_eq_some_iff.mp h
      split at hfix
      · obtain rfl := Fixup.external.inj hfix
        exact ⟨hsym, ‹_›⟩
      · simp at hfix

lemma Relocation.update?_eq_some :
    rel.update? bias symbols ps = some u ↔ ∃ target additive,
      rel.fixup? symbols = some (.internal target additive) ∧
        locate ps rel.offset = some u.pos ∧ u.f = bionicWord bias target additive := by
  obtain ⟨pos, f⟩ := u
  rw [update?]
  split
  · rename_i target additive pos' hfix hloc
    simp only [hfix, hloc, Option.some.injEq, WordUpdate.mk.injEq, Fixup.internal.injEq]
    constructor
    · rintro ⟨rfl, rfl⟩
      exact ⟨target, additive, ⟨rfl, rfl⟩, rfl, rfl⟩
    · rintro ⟨_, _, ⟨rfl, rfl⟩, rfl, rfl⟩
      exact ⟨rfl, rfl⟩
  · rename_i hno
    simp only [reduceCtorEq, false_iff, not_exists, not_and]
    exact fun target additive hfix hloc => absurd hloc (hno _ _ _ hfix)

lemma mem_wordUpdates :
    u ∈ wordUpdates bias symbols ps rels ↔
      ∃ rel ∈ rels, rel.update? bias symbols ps = some u := List.mem_filterMap

/-- An updated word is where its piece puts it. -/
lemma exists_piece_of_update (hheld : FoundWhole ps rel.offset)
    (hu : rel.update? bias symbols ps = some u) :
    ∃ p ∈ ps, p.Holds rel.offset ∧ u.pos = p.position rel.offset := by
  obtain ⟨p, hp, hholds⟩ := hheld
  obtain ⟨-, -, -, hloc, -⟩ := Relocation.update?_eq_some.mp hu
  rw [locate, hp, Option.map_some, Option.some.injEq] at hloc
  exact ⟨p, (findPiece_eq_some hp).1, hholds, hloc.symm⟩

lemma inside_wordUpdates (hheld : WindowsHeld ps rels) (hfit : Fit ps source img.length) :
    Inside (wordUpdates bias symbols ps rels) img := by
  intro u hu
  obtain ⟨rel, hrel, hu⟩ := mem_wordUpdates.mp hu
  obtain ⟨p, hp, hholds, hpos⟩ := exists_piece_of_update (hheld rel hrel) hu
  have hle := (hfit p hp).2
  rw [Piece.Holds] at hholds
  rw [hpos, Piece.position]
  omega

lemma pairwise_wordUpdates (hasc : Ascending ps) (hheld : WindowsHeld ps rels)
    (hapart : WindowsApart rels) :
    (wordUpdates bias symbols ps rels).Pairwise fun u v => Apart u.pos v.pos := by
  rw [wordUpdates, List.pairwise_filterMap]
  refine hapart.imp_of_mem fun {r r'} hr hr' hrr u hu v hv => ?_
  obtain ⟨p, hp, hholds, hpos⟩ := exists_piece_of_update (hheld r hr) hu
  obtain ⟨q, hq, hholds', hpos'⟩ := exists_piece_of_update (hheld r' hr') hv
  rw [hpos, hpos']
  exact apart_position hasc hp hq hholds hholds' hrr

/-- The word of a piece before any relocation is the word of the file. -/
lemma word_copyPieces (hfit : Fit ps source img.length) (hasc : Ascending ps) (hp : p ∈ ps)
    {a : ℕ} (ha : p.Holds a) :
    word (copyPieces source ps img) (p.position a) = word source (p.src + (a - p.addr)) := by
  refine word_congr fun i hi => ?_
  rw [Piece.Holds] at ha
  have hcovers : p.Covers (a + i) := ⟨by omega, by omega⟩
  have hbyte := getElem?_copyPieces hfit hasc hp hcovers
  rw [Piece.position] at hbyte ⊢
  rw [show p.dst + (a - p.addr) + i = p.dst + (a + i - p.addr) by omega, hbyte]
  congr 1
  omega

/-- **After all relocations the word of an internal one has the linker's value.** -/
theorem word_relocated (bias : ℤ) (hfit : Fit ps source img.length) (hasc : Ascending ps)
    (hheld : WindowsHeld ps rels) (hapart : WindowsApart rels) (hrel : rel ∈ rels) {target : ℤ}
    {additive : Bool} (hfix : rel.fixup? symbols = some (.internal target additive))
    (hp : findPiece ps rel.offset = some p) :
    word (applyUpdates (wordUpdates bias symbols ps rels) (copyPieces source ps img))
        (p.position rel.offset) =
      bionicWord bias target additive (word source (p.src + (rel.offset - p.addr))) := by
  have hlen := length_copyPieces hfit
  have hin : Inside (wordUpdates bias symbols ps rels) (copyPieces source ps img) :=
    inside_wordUpdates hheld (by rwa [hlen])
  have hloc : locate ps rel.offset = some (p.position rel.offset) := by rw [locate, hp]; rfl
  have hu : (⟨p.position rel.offset, bionicWord bias target additive⟩ : WordUpdate) ∈
      wordUpdates bias symbols ps rels :=
    mem_wordUpdates.mpr
      ⟨rel, hrel, Relocation.update?_eq_some.mpr ⟨target, additive, hfix, hloc, rfl⟩⟩
  have hword := word_applyUpdates hin (pairwise_wordUpdates hasc hheld hapart) hu
  obtain ⟨q, hq, hholds⟩ := hheld rel hrel
  obtain rfl := Option.some.inj (hp.symm.trans hq)
  rw [hword, word_copyPieces hfit hasc (findPiece_eq_some hp).1 hholds]
  exact Nat.mod_eq_of_lt (bionicWord_lt ..)

/-- **After all relocations every byte outside the internal words is the byte of the file.** -/
theorem getElem?_relocated (hfit : Fit ps source img.length) (hasc : Ascending ps)
    (hheld : WindowsHeld ps rels) (hp : p ∈ ps) {a : ℕ} (ha : p.Covers a)
    (hout : ∀ rel ∈ rels, rel.Internal symbols → a < rel.offset ∨ rel.offset + 8 ≤ a) :
    (applyUpdates (wordUpdates bias symbols ps rels)
        (copyPieces source ps img))[p.position a]? = source[p.src + (a - p.addr)]? := by
  have hlen := length_copyPieces hfit
  have hin : Inside (wordUpdates bias symbols ps rels) (copyPieces source ps img) :=
    inside_wordUpdates hheld (by rwa [hlen])
  rw [getElem?_applyUpdates hin, getElem?_copyPieces hfit hasc hp ha]
  intro u hu
  obtain ⟨rel, hrel, hu⟩ := mem_wordUpdates.mp hu
  obtain ⟨q, hq, hholds, hpos⟩ := exists_piece_of_update (hheld rel hrel) hu
  obtain ⟨target, additive, hfix, -, -⟩ := Relocation.update?_eq_some.mp hu
  rw [hpos]
  exact notMem_window hasc hp hq ha hholds (hout rel hrel ⟨target, additive, hfix⟩)

end

/-! ### The pieces of the `PT_LOAD`s -/

/-- The piece takes the file-backed bytes of the `PT_LOAD`. -/
structure Takes (ph : ProgramHeader) (p : Piece) : Prop where
  addr : p.addr = ph.vaddr
  src : p.src = ph.offset
  size : p.size = ph.filesz

section

variable {elf : Elf64} {ps : List Piece} {ph : ProgramHeader} {p : Piece}

lemma Takes.addresses (h : Takes ph p) : p.addresses = ph.fileBacked := by
  rw [Piece.addresses, ProgramHeader.fileBacked, h.addr, h.size]

lemma Takes.holds (h : Takes ph p) {a : ℕ} : p.Holds a ↔ ph.HoldsWord a := by
  rw [Piece.Holds, ProgramHeader.HoldsWord, h.addr, h.size]

lemma Takes.covers (h : Takes ph p) {a : ℕ} : p.Covers a ↔ a ∈ ph.fileBacked := by
  rw [Piece.Covers, ProgramHeader.fileBacked, h.addr, h.size, Set.mem_Ico]

lemma separate_of_takes (h : List.Forall₂ Takes elf.loads ps) (hdisj : elf.FileBackedDisjoint) :
    Separate ps := by
  rw [Elf64.FileBackedDisjoint] at hdisj
  generalize elf.loads = phs at h hdisj
  induction h with
  | nil => exact .nil
  | cons htakes hrest ih =>
    rw [List.pairwise_cons] at hdisj
    refine .cons (fun q hq => ?_) (ih hdisj.2)
    obtain ⟨ph', hph', htakes'⟩ := exists_of_mem_forall₂ hrest hq
    rw [htakes.addresses, htakes'.addresses]
    exact hdisj.1 ph' hph'

lemma windowsHeld_of_takes (h : List.Forall₂ Takes elf.loads ps) (hsep : Separate ps)
    (hwords : elf.WordsFileBacked) : WindowsHeld ps elf.relocations := by
  intro rel hrel
  obtain ⟨ph, hph, hholds⟩ := hwords rel hrel
  obtain ⟨p, hp, htakes⟩ := exists_of_mem_forall₂ h.flip hph
  exact foundWhole_of_holds hsep hp (htakes.holds.mpr hholds)

end

/-! ### The linked library -/

/-- The memory of a `PT_LOAD`. -/
def ProgramHeader.region (bias : ℕ) (ph : ProgramHeader) : Region :=
  ⟨bias + ph.vaddr, ph.memsz, ph.offset, ph.filesz⟩

/-- The update of a relocation at a load bias.  `resolve` gives the addresses of the symbols that
the file does not define; for `ABS64` the existing word counts. -/
def Relocation.link? (bias : ℕ) (resolve : String → ℕ) (symbols : List DynamicSymbol)
    (rel : Relocation) : Option WordUpdate :=
  (rel.fixup? symbols).map fun
    | .internal target additive => ⟨bias + rel.offset, bionicWord bias target additive⟩
    | .external symbol => ⟨bias + rel.offset,
        bionicWord (resolve symbol.name) rel.addend (rel.type = rAarch64Abs64)⟩

namespace Elf64

/-- The library in memory before it is relocated. -/
def mapped (elf : Elf64) (bias : ℕ) : Memory :=
  Memory.mapped elf.data (elf.loads.map (ProgramHeader.region bias))

/-- The library that the Android linker makes in memory, at a load bias. -/
def linked (elf : Elf64) (bias : ℕ) (resolve : String → ℕ) : Option Memory := do
  let us ← elf.relocations.mapM (Relocation.link? bias resolve elf.dynamicSymbols)
  return (elf.mapped bias).updates us

/-- The addresses of the library in memory. -/
def addresses (elf : Elf64) (bias : ℕ) : Set ℕ :=
  {a | ∃ ph ∈ elf.loads, ∃ v ∈ ph.memory, a = bias + v}

variable {elf : Elf64} {bias : ℕ}

lemma MemoryDisjoint.regions (h : elf.MemoryDisjoint) (bias : ℕ) :
    (elf.loads.map (ProgramHeader.region bias)).Pairwise
      fun r s => Disjoint r.addresses s.addresses := by
  refine List.pairwise_map.mpr (h.imp fun {p q} hpq => ?_)
  rw [ProgramHeader.memory, ProgramHeader.memory, Set.Ico_disjoint_Ico] at hpq
  simp only [Region.addresses, ProgramHeader.region, Set.Ico_disjoint_Ico]
  omega

/-- The `PT_LOAD` of an address gives its byte. -/
lemma mapped_eq (hdisj : elf.MemoryDisjoint) {ph : ProgramHeader} (hph : ph ∈ elf.loads) {v : ℕ}
    (hv : v ∈ ph.memory) :
    elf.mapped bias (bias + v) =
      if v - ph.vaddr < ph.filesz then elf.data.getD (ph.offset + (v - ph.vaddr)) 0 else 0 := by
  have hmem : ph.region bias ∈ elf.loads.map (ProgramHeader.region bias) :=
    List.mem_map_of_mem hph
  have hcovers : (ph.region bias).Covers (bias + v) := by
    simp only [ProgramHeader.memory, Set.mem_Ico] at hv
    simp only [Region.Covers, ProgramHeader.region]
    omega
  have hsub : bias + v - (bias + ph.vaddr) = v - ph.vaddr := by omega
  rw [mapped, Memory.mapped_of_covers (hdisj.regions bias) hmem hcovers]
  simp only [Region.byte, ProgramHeader.region, hsub]

/-- The word of a `PT_LOAD` before relocation is that of the file. -/
lemma word_mapped (hdisj : elf.MemoryDisjoint) (hin : elf.LoadsInFile) (hsize : elf.FileszLeMemsz)
    {ph : ProgramHeader} (hph : ph ∈ elf.loads) {a : ℕ} (ha : ph.HoldsWord a) :
    (elf.mapped bias).word (bias + a) = word elf.data (ph.offset + (a - ph.vaddr)) := by
  have hlen := hin ph hph
  have hmem := hsize ph hph
  rw [ProgramHeader.HoldsWord] at ha
  refine Memory.word_eq_of_bytes fun i hi => ?_
  have hv : a + i ∈ ph.memory := by
    rw [ProgramHeader.memory, Set.mem_Ico]
    omega
  rw [Nat.add_assoc bias, mapped_eq hdisj hph hv, if_pos (by omega), List.getD_eq_getElem?_getD,
    show ph.offset + (a - ph.vaddr) + i = ph.offset + (a + i - ph.vaddr) by omega,
    List.getElem?_eq_getElem (by omega)]
  rfl

lemma linked_eq_some {resolve : String → ℕ} {m : Memory} :
    elf.linked bias resolve = some m ↔ ∃ us,
      List.Forall₂ (fun rel u => rel.link? bias resolve elf.dynamicSymbols = some u)
        elf.relocations us ∧ (elf.mapped bias).updates us = m := by
  simp only [linked, Option.bind_eq_bind, Option.bind_eq_some_iff, mapM_eq_some_iff]
  exact exists_congr fun us => and_congr_right fun _ => Option.some_inj

/-- A relocation is linked when it has a meaning. -/
lemma exists_linked
    (h : ∀ rel ∈ elf.relocations, ∃ fixup, rel.fixup? elf.dynamicSymbols = some fixup)
    (bias : ℕ) (resolve : String → ℕ) : ∃ m, elf.linked bias resolve = some m := by
  obtain ⟨us, hus⟩ := exists_forall₂ (l := elf.relocations)
    (R := fun rel u => rel.link? bias resolve elf.dynamicSymbols = some u) fun rel hrel => by
      obtain ⟨fixup, hfix⟩ := h rel hrel
      exact ⟨_, congrArg (Option.map _) hfix⟩
  exact ⟨_, linked_eq_some.mpr ⟨us, hus, rfl⟩⟩

lemma link?_internal {resolve : String → ℕ} {symbols : List DynamicSymbol} {rel : Relocation}
    {target : ℤ} {additive : Bool} (h : rel.fixup? symbols = some (.internal target additive)) :
    rel.link? bias resolve symbols =
      some ⟨bias + rel.offset, bionicWord bias target additive⟩ := by
  rw [Relocation.link?, h, Option.map_some]

lemma link?_external {resolve : String → ℕ} {symbols : List DynamicSymbol} {rel : Relocation}
    {symbol : DynamicSymbol} (h : rel.fixup? symbols = some (.external symbol)) :
    rel.link? bias resolve symbols = some ⟨bias + rel.offset,
      bionicWord (resolve symbol.name) rel.addend (rel.type = rAarch64Abs64)⟩ := by
  rw [Relocation.link?, h, Option.map_some]

lemma pos_of_link {resolve : String → ℕ} {symbols : List DynamicSymbol} {rel : Relocation}
    {u : WordUpdate} (h : rel.link? bias resolve symbols = some u) : u.pos = bias + rel.offset := by
  obtain ⟨fixup, -, rfl⟩ := Option.map_eq_some_iff.mp h
  cases fixup <;> rfl

/-- Bytes outside the words of the relocations stay. -/
lemma linked_of_notMem {resolve : String → ℕ} {m : Memory} (h : elf.linked bias resolve = some m)
    {b : ℕ} (hb : ∀ rel ∈ elf.relocations, b ∉ window (bias + rel.offset)) :
    m b = elf.mapped bias b := by
  obtain ⟨us, hus, rfl⟩ := linked_eq_some.mp h
  refine Memory.updates_of_notMem fun u hu => ?_
  obtain ⟨rel, hrel, hlink⟩ := exists_of_mem_forall₂ hus hu
  rw [pos_of_link hlink]
  exact hb rel hrel

/-- When the words are apart, each becomes the update of its original value. -/
lemma word_linked {resolve : String → ℕ} {m : Memory} (h : elf.linked bias resolve = some m)
    (hapart : WindowsApart elf.relocations) {rel : Relocation} (hrel : rel ∈ elf.relocations)
    {u : WordUpdate} (hu : rel.link? bias resolve elf.dynamicSymbols = some u) :
    m.word (bias + rel.offset) =
      u.f ((elf.mapped bias).word (bias + rel.offset)) % 2 ^ 64 := by
  obtain ⟨us, hus, rfl⟩ := linked_eq_some.mp h
  have hpos : us.map WordUpdate.pos = elf.relocations.map fun rel => bias + rel.offset :=
    (map_eq_map_of_forall₂ hus fun rel u hlink => (pos_of_link hlink).symm).symm
  have hpair : us.Pairwise fun u v => Apart u.pos v.pos := by
    rw [← List.pairwise_map (f := WordUpdate.pos) (R := Apart), hpos, List.pairwise_map]
    exact hapart.imp fun h => by rw [Apart] at *; omega
  obtain ⟨v, hv, hlink⟩ := exists_of_mem_forall₂ hus.flip hrel
  obtain rfl := Option.some.inj (hu.symm.trans hlink)
  have hword := Memory.word_updates (m := elf.mapped bias) hpair hv
  rwa [pos_of_link hu] at hword

end Elf64

end Apk2Ios
