import Apk2Ios.MachO.Link
import Apk2Ios.Phase3.Fixups
import Apk2Ios.Phase3.Order
import Apk2Ios.Phase4.LoadBias

/-!
# Linking the translated image

The memory that the dynamic linker of the target makes of a written file, slid and bound to the
shim, is the memory that the Android linker makes of the original library with the same symbols.
The bind stream is the weak point: it holds for every library exactly when the addends survive.
-/

namespace Apk2Ios

open Lib MachO

namespace Phase3Translator

variable {T : Phase3Translator} {args : TranslateArgs}

/-! ### The addends of the table -/

/-- The binds of a table are those of the bindings, each with some addend. -/
lemma forall₂_carriedBinds (items : List Binding) (ordinal : ℕ) {addend : ℕ}
    (h : addend < 2 ^ 64) :
    List.Forall₂ (fun b d => ∃ c < 2 ^ 64, d = pointerBind ordinal c b) items
      (carriedBinds ordinal addend items) := by
  induction items generalizing addend with
  | nil => exact .nil
  | cons b items ih =>
    have hcarried : carriedAddend addend b < 2 ^ 64 := by
      rw [carriedAddend, addendWord]
      split <;> omega
    exact .cons ⟨_, hcarried, rfl⟩ (ih hcarried)

/-- The table has the binds that are asked for when each of its addends is the right one. -/
lemma carriedBinds_eq_of_forall {items : List Binding} {ordinal addend : ℕ}
    (haddend : addend < 2 ^ 64)
    (h : ∀ b ∈ items, ∀ c < 2 ^ 64, pointerBind ordinal c b ∈ carriedBinds ordinal addend items →
      c = addendWord b.addend) :
    carriedBinds ordinal addend items = items.map (Binding.bind ordinal) := by
  have hforall := forall₂_carriedBinds items ordinal haddend
  have htable : List.Forall₂ _ items (carriedBinds ordinal addend items) :=
    ((List.forall₂_and_left (p := fun d => d ∈ carriedBinds ordinal addend items) _ _).mpr
      ⟨fun _ hd => hd, hforall.flip⟩).flip
  have hmem := (List.forall₂_and_left (p := fun b => b ∈ items) _ _).mpr
    ⟨fun _ hb => hb, htable⟩
  have heq : List.Forall₂ (fun b d => b.bind ordinal = d) items
      (carriedBinds ordinal addend items) := by
    refine hmem.imp ?_
    rintro b _ ⟨hb, hd, c, hc, rfl⟩
    rw [Binding.bind, h b hb c hc hd]
  rw [← List.forall₂_map_left_iff (f := Binding.bind ordinal), List.forall₂_eq_eq_eq] at heq
  exact heq.symm

/-! ### The file in memory -/

/-- What the dynamic linker needs of a file that carries the image of a translation: the binds,
segments that hold their `PT_LOAD`s, and zeros where the file has more than the `PT_LOAD`. -/
structure Loads (t : T.Translation args) (file : Bytes) (im : Image) : Prop
    extends Carries T t.st file im where
  binds : bindsOf file = some (carriedBinds 1 0 (sortedBy Binding.location t.st.bindings))
  holds : HoldsLoads T.slide T.elf.loads im
  padding : ∀ {i : ℕ} {seg : ImageSegment} {s : Segment64}, T.segments[i]? = some seg →
    im.segments[i]? = some s → ∀ off, seg.filesize ≤ off → off < s.filesize →
      file.getD (seg.fileoff + off) 0 = 0

/-- What the Android linker needs of a library: its `PT_LOAD`s are in the file and apart, and so
are the words of its relocations. -/
structure Linkable (elf : Elf64) : Prop where
  inFile : elf.LoadsInFile
  size : elf.FileszLeMemsz
  disjoint : elf.MemoryDisjoint
  words : elf.WordsFileBacked
  apart : WindowsApart elf.relocations

section

variable {t : T.Translation args} {file : Bytes} {im : Image} {s i a : ℕ} {ph : ProgramHeader}
  {seg : ImageSegment} {rel : Relocation}

lemma Linkable.held (h : Linkable T.elf) : WindowsHeld T.pieces T.elf.relocations :=
  windowsHeld_of_takes forall₂_takes
    (separate_of_takes forall₂_takes (h.disjoint.fileBackedDisjoint h.size)) h.words

/-- The word of a relocation is in a `PT_LOAD`, and found in its segment. -/
lemma exists_held (h : Linkable T.elf) (t : T.Translation args) (hrel : rel ∈ T.elf.relocations) :
    ∃ (i : ℕ) (ph : ProgramHeader) (seg : ImageSegment) (loc : Location),
      T.elf.loads[i]? = some ph ∧ T.segments[i]? = some seg ∧ Maps T.params ph seg ∧
      ph.HoldsWord rel.offset ∧ T.location rel.offset = .ok loc ∧
      findPiece T.pieces rel.offset = some seg.piece ∧
      loc.outputOffset = seg.piece.position rel.offset := by
  obtain ⟨-, loc, hloc, -⟩ := t.relocated.located rel hrel
  obtain ⟨-, ph, seg, hph, hseg, hmaps, hfind, -⟩ := location_place hloc
  obtain ⟨p, hp, hholds⟩ := h.held rel hrel
  obtain rfl := Option.some.inj (hfind.symm.trans hp)
  have hout := locate_of_location hloc
  rw [locate, hfind] at hout
  exact ⟨_, ph, seg, loc, hph, hseg, hmaps, (takes hmaps).holds.mp hholds, hloc, hfind,
    (Option.some.inj hout).symm⟩

/-- The byte of the mapped file at an address of a `PT_LOAD`. -/
lemma Loads.mapped_eq (h : Loads t file im) (hph : T.elf.loads[i]? = some ph)
    (hseg : T.segments[i]? = some seg) (hmaps : Maps T.params ph seg) (ha : a ∈ ph.memory) :
    im.mapped file s (s + (T.slide + a)) =
      if a - ph.vaddr < ph.filesz then file.getD (seg.piece.position a) 0 else 0 := by
  obtain ⟨cmd, hcmd, hsub⟩ := h.holds.holds i ph hph
  obtain ⟨cmd', hcmd', hoff, hvm, hle⟩ := h.segment hseg
  obtain rfl := Option.some.inj (hcmd.symm.trans hcmd')
  rw [ProgramHeader.memory, Set.mem_Ico] at ha
  have hclaims : T.slide + a ∈ cmd.memory := hsub ⟨by omega, by omega⟩
  have hvmaddr := hmaps.vmaddr_le
  have haddr := hmaps.dataAddr
  have hfilesize := hmaps.filesize
  have hdelta : seg.delta = seg.dataAddr - seg.vmaddr := rfl
  have hslide : T.slide = T.params.slide := rfl
  rw [Image.mapped_eq h.holds.disjoint hcmd hclaims, position_eq hmaps ha.1, hoff, hvm]
  by_cases hfile : a - ph.vaddr < ph.filesz
  · rw [if_pos hfile, if_pos (by omega)]
  · rw [if_neg hfile]
    split
    · exact h.padding hseg hcmd _ (by omega) ‹_›
    · rfl

/-- The word of the mapped file in a `PT_LOAD` is that of the relocated image. -/
lemma Loads.word_mapped (h : Loads t file im) (hlink : Linkable T.elf)
    (hph : T.elf.loads[i]? = some ph) (hseg : T.segments[i]? = some seg)
    (hmaps : Maps T.params ph seg) (ha : ph.HoldsWord a) :
    (im.mapped file s).word (s + T.slide + a) = word t.st.image (seg.piece.position a) := by
  have hmem : seg.piece ∈ T.pieces := List.mem_map_of_mem (List.mem_of_getElem? hseg)
  have hlen := t.relocated.length_eq hlink.inFile
  have hfit := (fit_pieces hlink.inFile _ hmem).2
  have hlong := h.length
  have hsize := hlink.size ph (List.mem_of_getElem? hph)
  have hholds := (takes hmaps).holds.mpr ha
  rw [← h.word_position hlink.inFile hlen hmem hholds]
  rw [ProgramHeader.HoldsWord] at ha
  simp only [Piece.Holds] at hholds
  -- byte for byte: the mapping has the file's bytes below `filesize`, and the word is there
  refine Memory.word_eq_of_bytes fun i hi => ?_
  have hv : a + i ∈ ph.memory := by
    rw [ProgramHeader.memory, Set.mem_Ico]
    omega
  have hpos : seg.piece.position (a + i) = seg.piece.position a + i := by
    simp only [Piece.position]
    omega
  have hbound : seg.piece.position a + i < file.length := by
    simp only [Piece.position]
    omega
  rw [show s + T.slide + a + i = s + (T.slide + (a + i)) by omega,
    h.mapped_eq hph hseg hmaps hv, if_pos (by omega), hpos,
    List.getD_eq_getElem?_getD, List.getElem?_eq_getElem hbound]
  rfl

/-- Outside the words of relocations the two mapped files have the same bytes. -/
lemma Loads.mapped_eq_mapped (h : Loads t file im) (hlink : Linkable T.elf)
    (hph : T.elf.loads[i]? = some ph) (ha : a ∈ ph.memory)
    (hout : ∀ rel ∈ T.elf.relocations, a < rel.offset ∨ rel.offset + 8 ≤ a) :
    im.mapped file s (s + T.slide + a) = T.elf.mapped (s + T.slide) (s + T.slide + a) := by
  obtain ⟨seg, hseg, hmaps⟩ := exists_segment hph
  have hmem : seg.piece ∈ T.pieces := List.mem_map_of_mem (List.mem_of_getElem? hseg)
  have hlen := t.relocated.length_eq hlink.inFile
  rw [Elf64.mapped_eq hlink.disjoint (List.mem_of_getElem? hph) ha, Nat.add_assoc,
    h.mapped_eq hph hseg hmaps ha]
  split
  · rename_i hfile
    rw [ProgramHeader.memory, Set.mem_Ico] at ha
    have hcovers : seg.piece.Covers a :=
      (takes hmaps).covers.mpr ⟨ha.1, by omega⟩
    rw [List.getD_eq_getElem?_getD, List.getD_eq_getElem?_getD,
      h.getElem?_position hlink.inFile hlen hmem hcovers, t.relocated.image, copied_eq,
      getElem?_relocated (fit_copied hlink.inFile) T.ascending_pieces hlink.held hmem hcovers
        fun rel hrel _ => hout rel hrel]
    simp only [ImageSegment.piece, hmaps.elfOffset, hmaps.elfVaddr]
  · rfl

end

/-! ### The two lists of updates -/

/-- The update of a location of the rebase table. -/
def slidUpdate (im : Image) (s : ℕ) (r : Rebase) : WordUpdate :=
  slideUpdate s (s + im.address (r.segment, r.offset))

/-- The update of a location of the bind table. -/
def boundUpdate (im : Image) (s : ℕ) (exports : ℤ → Bytes → ℕ) (b : Bind) : WordUpdate :=
  ⟨s + im.address (b.segment, b.offset), fun _ => exports b.ordinal b.symbol + b.addend⟩

/-- The updates of the dynamic linker of the target. -/
def machUpdates (t : T.Translation args) (im : Image) (s : ℕ) (exports : ℤ → Bytes → ℕ) :
    List WordUpdate :=
  ((sortedBy id t.st.rebases).map pointerRebase).map (slidUpdate im s) ++
    (carriedBinds 1 0 (sortedBy Binding.location t.st.bindings)).map (boundUpdate im s exports)

section

variable {t : T.Translation args} {file : Bytes} {im : Image} {s : ℕ} {rel : Relocation}
  {loc : Location} {exports : ℤ → Bytes → ℕ}

lemma Loads.address (h : Loads t file im) (hloc : T.location rel.offset = .ok loc) :
    im.address loc.pair = T.slide + rel.offset := by
  obtain ⟨-, ph, seg, -, hseg, -, -, hvm⟩ := location_place hloc
  obtain ⟨cmd, hcmd, -, hvmaddr, -⟩ := h.segment hseg
  rw [Image.address, Location.pair, hcmd, Option.map_some, Option.getD_some, hvmaddr]
  exact hvm

/-- Every entry of the two tables is that of a relocation, and points to its word. -/
lemma Loads.pointer (h : Loads t file im) (hlink : Linkable T.elf) {pair : ℕ × ℕ}
    (hpair : pair ∈ sortedBy id t.st.rebases ++
      (sortedBy Binding.location t.st.bindings).map Binding.location) :
    im.pointer? s pair.1 pair.2 = some (s + im.address pair) := by
  obtain ⟨rel, hrel, rfl⟩ := List.mem_map.mp ((T.perm_locations (t := t)).mem_iff.mp hpair)
  obtain ⟨-, loc, hloc, -⟩ := t.relocated.located rel hrel
  obtain ⟨-, ph, seg, -, hseg, -, -, -⟩ := location_place hloc
  obtain ⟨cmd, hcmd, -, -, -⟩ := h.segment hseg
  have hoff := h.toCarries.fileOffset? hloc (hlink.held rel hrel)
  rw [tableEntry_eq hloc, Location.pair, Image.pointer?, Image.address, hcmd]
  rw [Image.fileOffset?, hcmd, Option.bind_some] at hoff
  have hroom := h.holds.room cmd (List.mem_of_getElem? hcmd)
  split at hoff
  · rw [Option.bind_some, if_pos (by omega), Option.map_some, Option.getD_some, Nat.add_assoc]
  · cases hoff

/-- Linking a file makes its updates, and nothing else. -/
lemma Loads.linkFile (h : Loads t file im) (hlink : Linkable T.elf) (s : ℕ)
    (exports : ℤ → Bytes → ℕ) :
    linkFile file s exports = some ((im.mapped file s).updates (machUpdates t im s exports)) := by
  refine linkFile_eq h.readImage h.rebases h.binds ?_ ?_
  · intro r hr
    obtain ⟨pair, hpair, rfl⟩ := List.mem_map.mp hr
    exact Image.rebaseUpdate?_eq rfl (h.pointer hlink (List.mem_append_left _ hpair))
  · intro d hd
    obtain ⟨b, hb, c, -, rfl⟩ := exists_of_mem_forall₂
      (forall₂_carriedBinds _ 1 (by norm_num : 0 < 2 ^ 64)) hd
    exact Image.bindUpdate?_eq rfl
      (h.pointer hlink (List.mem_append_right _ (List.mem_map_of_mem hb)))

/-- The updates of the target are at the words of the relocations. -/
lemma Loads.perm_machUpdates (h : Loads t file im) :
    ((machUpdates t im s exports).map WordUpdate.pos).Perm
      (T.elf.relocations.map fun rel => s + T.slide + rel.offset) := by
  have hpos : (machUpdates t im s exports).map WordUpdate.pos =
      (sortedBy id t.st.rebases ++
        (sortedBy Binding.location t.st.bindings).map Binding.location).map
          fun pair => s + im.address pair := by
    have hbinds := map_location_carriedBinds 1 0 (sortedBy Binding.location t.st.bindings)
    rw [← hbinds, machUpdates, List.map_append, List.map_append, List.map_map, List.map_map,
      List.map_map, List.map_map]
    rfl
  have hrels : T.elf.relocations.map (fun rel => s + T.slide + rel.offset) =
      (T.elf.relocations.map T.tableEntry).map fun pair => s + im.address pair := by
    rw [List.map_map]
    refine List.map_congr_left fun rel hrel => ?_
    obtain ⟨-, loc, hloc, -⟩ := t.relocated.located rel hrel
    rw [Function.comp_apply, tableEntry_eq hloc, h.address hloc, Nat.add_assoc]
  rw [hpos, hrels]
  exact T.perm_locations.map _

lemma Loads.pairwise_machUpdates (h : Loads t file im) (hlink : Linkable T.elf) :
    (machUpdates t im s exports).Pairwise fun u v => Apart u.pos v.pos := by
  rw [← List.pairwise_map (f := WordUpdate.pos) (R := Apart),
    h.perm_machUpdates.pairwise_iff Apart.symm, List.pairwise_map]
  exact hlink.apart.imp fun h => by rw [Apart] at *; omega

/-- The word that an update of the target leaves. -/
lemma Loads.word_of_mem (h : Loads t file im) (hlink : Linkable T.elf) {u : WordUpdate}
    (hu : u ∈ machUpdates t im s exports) (hloc : T.location rel.offset = .ok loc)
    (hpos : u.pos = s + im.address loc.pair) :
    ((im.mapped file s).updates (machUpdates t im s exports)).word (s + T.slide + rel.offset) =
      u.f ((im.mapped file s).word (s + T.slide + rel.offset)) % 2 ^ 64 := by
  have hword := Memory.word_updates (m := im.mapped file s) (h.pairwise_machUpdates hlink) hu
  rwa [hpos, h.address hloc, ← Nat.add_assoc] at hword

/-- **An internal word has the value of the Android linker.** -/
lemma Loads.word_internal (h : Loads t file im) (hlink : Linkable T.elf)
    (hrel : rel ∈ T.elf.relocations) {target : ℤ} {additive : Bool}
    (hfix : rel.fixup? T.elf.dynamicSymbols = some (.internal target additive)) :
    ((im.mapped file s).updates (machUpdates t im s exports)).word (s + T.slide + rel.offset) =
      bionicWord (s + T.slide : ℕ) target additive
        ((T.elf.mapped (s + T.slide)).word (s + T.slide + rel.offset)) := by
  obtain ⟨i, ph, seg, loc, hph, hseg, hmaps, hholds, hloc, hfind, -⟩ := exists_held hlink t hrel
  have hmem : loc.pair ∈ sortedBy id t.st.rebases := by
    have hrebases : t.st.rebases = T.elf.relocations.filterMap (T.rebase? T.elf.dynamicSymbols) :=
      t.relocated.rebases
    rw [mem_sortedBy, hrebases]
    exact List.mem_filterMap.mpr ⟨rel, hrel, by simp [rebase?, Relocation.internal?, hfix, hloc]⟩
  have hu : slidUpdate im s (pointerRebase loc.pair) ∈ machUpdates t im s exports :=
    List.mem_append_left _ (List.mem_map_of_mem (List.mem_map_of_mem hmem))
  rw [h.word_of_mem hlink hu hloc rfl, h.word_mapped hlink hph hseg hmaps hholds,
    t.relocated.image, copied_eq,
    word_relocated _ (fit_copied hlink.inFile) T.ascending_pieces hlink.held hlink.apart hrel hfix
      hfind,
    Elf64.word_mapped hlink.disjoint hlink.inFile hlink.size (List.mem_of_getElem? hph) hholds]
  simp only [ImageSegment.piece, hmaps.elfOffset, hmaps.elfVaddr]
  show (_ + s) % 2 ^ 64 = _
  rw [bionicWord_add, Nat.cast_add, add_comm]

/-- The bindings are those of the external relocations, with the words of the library. -/
lemma forall₂_bindings (hlink : Linkable T.elf) (t : T.Translation args) :
    List.Forall₂ (T.BindsWith args.shimPrefix T.copied)
      (T.elf.relocations.filterMap (Relocation.external? T.elf.dynamicSymbols)) t.st.bindings := by
  obtain ⟨new, hnew, hforall⟩ :=
    bindsWith_of_relocateAll (placesApart_of_held hlink.held hlink.apart) t.fixups
  rw [List.nil_append] at hnew
  rwa [hnew]

/-- What the Android linker stores in an external word, in terms of its binding. -/
lemma bionicWord_binding (hlink : Linkable T.elf) (t : T.Translation args)
    (hrel : rel ∈ T.elf.relocations) {symbol : DynamicSymbol} {b : Binding}
    (hb : T.BindsWith args.shimPrefix T.copied (rel, symbol) b) (x bias : ℕ) :
    bionicWord x rel.addend (rel.type = rAarch64Abs64)
        ((T.elf.mapped bias).word (bias + rel.offset)) =
      (x + addendWord b.addend) % 2 ^ 64 := by
  obtain ⟨i, ph, seg, loc, hph, hseg, hmaps, hholds, hloc, hfind, hout⟩ := exists_held hlink t hrel
  have hpiece : seg.piece ∈ T.pieces := (findPiece_eq_some hfind).1
  have hold : word T.copied loc.outputOffset =
      (T.elf.mapped bias).word (bias + rel.offset) := by
    rw [copied_eq, hout, word_copyPieces (fit_copied hlink.inFile) T.ascending_pieces hpiece
      ((takes hmaps).holds.mpr hholds),
      Elf64.word_mapped hlink.disjoint hlink.inFile hlink.size (List.mem_of_getElem? hph) hholds]
    simp only [ImageSegment.piece, hmaps.elfOffset, hmaps.elfVaddr]
  rw [hb.addend loc hloc, hold, bionicWord, addendWord]
  simp only [decide_eq_true_eq]
  omega

/-- The word that a bind leaves. -/
lemma Loads.word_bound (h : Loads t file im) (hlink : Linkable T.elf) {b : Binding} {c : ℕ}
    (hd : pointerBind 1 c b ∈ carriedBinds 1 0 (sortedBy Binding.location t.st.bindings))
    (hloc : T.location rel.offset = .ok loc) (hpair : b.location = loc.pair) :
    ((im.mapped file s).updates (machUpdates t im s exports)).word (s + T.slide + rel.offset) =
      (exports 1 (utf8 b.shimSymbol) + c) % 2 ^ 64 := by
  have hu : boundUpdate im s exports (pointerBind 1 c b) ∈ machUpdates t im s exports :=
    List.mem_append_right _ (List.mem_map_of_mem hd)
  refine h.word_of_mem hlink hu hloc ?_
  show s + im.address b.location = _
  rw [hpair]

/-- The memories are the same when the words of the relocations are. -/
lemma Loads.eqOn_iff (h : Loads t file im) (hlink : Linkable T.elf) {resolve : String → ℕ}
    {m : Memory} (hm : T.elf.linked (s + T.slide) resolve = some m) :
    Set.EqOn ((im.mapped file s).updates (machUpdates t im s exports)) m
        (T.elf.addresses (s + T.slide)) ↔
      ∀ rel ∈ T.elf.relocations,
        ((im.mapped file s).updates (machUpdates t im s exports)).word (s + T.slide + rel.offset) =
          m.word (s + T.slide + rel.offset) := by
  have hsub : ∀ a ∈ {a | ∃ rel ∈ T.elf.relocations, s + T.slide + rel.offset = a},
      window a ⊆ T.elf.addresses (s + T.slide) := by
    rintro _ ⟨rel, hrel, rfl⟩ b hb
    obtain ⟨ph, hph, hholds⟩ := hlink.words rel hrel
    have hsize := hlink.size ph hph
    rw [mem_window] at hb
    rw [ProgramHeader.HoldsWord] at hholds
    refine ⟨ph, hph, b - (s + T.slide), ⟨by omega, by omega⟩, by omega⟩
  rw [Memory.eqOn_iff_words hsub]
  constructor
  · rintro ⟨hwords, -⟩ rel hrel
    exact hwords _ ⟨rel, hrel, rfl⟩
  · refine fun hwords => ⟨?_, ?_⟩
    · rintro _ ⟨rel, hrel, rfl⟩
      exact hwords rel hrel
    · rintro _ ⟨ph, hph, v, hv, rfl⟩ hout
      -- both bytes are those of the file
      have hout' : ∀ rel ∈ T.elf.relocations,
          s + T.slide + v ∉ window (s + T.slide + rel.offset) :=
        fun rel hrel => hout _ ⟨rel, hrel, rfl⟩
      obtain ⟨i, hi⟩ := List.getElem?_of_mem hph
      rw [Elf64.linked_of_notMem hm hout', Memory.updates_of_notMem,
        h.mapped_eq_mapped hlink hi hv]
      · intro rel hrel
        have hno := hout' rel hrel
        rw [mem_window] at hno
        omega
      · intro u hu
        obtain ⟨rel, hrel, hpos⟩ :=
          List.mem_map.mp (h.perm_machUpdates.mem_iff.mp (List.mem_map_of_mem hu))
        rw [← hpos]
        exact hout' rel hrel

end

/-- The dynamic linker of the target makes of the file, at slide `s`, what the Android linker makes
of the library when its symbols are those of the shim. -/
def LinksAlike (T : Phase3Translator) (shimPrefix : String) (file : Bytes) (s : ℕ)
    (exports : ℤ → Bytes → ℕ) : Prop :=
  ∃ m m', linkFile file s exports = some m ∧
    T.elf.linked (s + T.slide) (fun name => exports 1 (utf8 (shimPrefix ++ name))) = some m' ∧
    Set.EqOn m m' (T.elf.addresses (s + T.slide))

section

variable {t : T.Translation args} {file : Bytes} {im : Image}

/-- **Linking a file that carries a translation**: the memory is that of the Android linker if and
only if no binding with addend zero comes right after one whose addend is not. -/
theorem Loads.linksAlike_iff (h : Loads t file im) (hlink : Linkable T.elf) (s : ℕ)
    (exports : ℤ → Bytes → ℕ) :
    T.LinksAlike args.shimPrefix file s exports ↔
      AddendsClear (sortedBy Binding.location t.st.bindings) := by
  have hmeaning : ∀ rel ∈ T.elf.relocations,
      ∃ fixup, rel.fixup? T.elf.dynamicSymbols = some fixup :=
    fun rel hrel => (t.relocated.located rel hrel).1
  obtain ⟨m, hm⟩ := Elf64.exists_linked hmeaning (s + T.slide)
    fun name => exports 1 (utf8 (args.shimPrefix ++ name))
  have halike : T.LinksAlike args.shimPrefix file s exports ↔ ∀ rel ∈ T.elf.relocations,
      ((im.mapped file s).updates (machUpdates t im s exports)).word (s + T.slide + rel.offset) =
        m.word (s + T.slide + rel.offset) := by
    rw [← h.eqOn_iff hlink hm, LinksAlike]
    simp only [h.linkFile hlink, hm, Option.some.injEq, exists_and_left, exists_eq_left']
  -- the word of an external relocation, as the Android linker leaves it
  have hexternal : ∀ p ∈ T.elf.relocations.filterMap (Relocation.external? T.elf.dynamicSymbols),
      ∀ b, T.BindsWith args.shimPrefix T.copied p b →
        p.1 ∈ T.elf.relocations ∧ m.word (s + T.slide + p.1.offset) =
          (exports 1 (utf8 b.shimSymbol) + addendWord b.addend) % 2 ^ 64 := by
    rintro ⟨rel, symbol⟩ hp b hb
    obtain ⟨rel', hrel, hext⟩ := List.mem_filterMap.mp hp
    obtain ⟨hfix, rfl⟩ := Relocation.external?_eq_some.mp hext
    refine ⟨hrel, ?_⟩
    rw [Elf64.word_linked hm hlink.apart hrel (Elf64.link?_external hfix), hb.shimSymbol]
    show bionicWord _ _ _ _ % 2 ^ 64 = _
    rw [bionicWord_binding hlink t hrel hb, Nat.mod_mod]
  have hclear : AddendsClear (sortedBy Binding.location t.st.bindings) ↔
      carriedBinds 1 0 (sortedBy Binding.location t.st.bindings) =
        (sortedBy Binding.location t.st.bindings).map (Binding.bind 1) :=
    ((carriedBinds_eq_iff _ 1 0).trans (and_iff_right fun _ _ _ => rfl)).symm
  have hbindings := forall₂_bindings hlink t
  rw [halike, hclear]
  constructor
  · intro hwords
    -- each bind leaves the word of its relocation, so its addend is the right one
    refine carriedBinds_eq_of_forall (by norm_num) fun b hb c hc hd => ?_
    obtain ⟨p, hp, hwith⟩ := exists_of_mem_forall₂ hbindings (mem_sortedBy.mp hb)
    obtain ⟨hrel, hword⟩ := hexternal p hp b hwith
    obtain ⟨loc, hloc, hpair⟩ := hwith.location
    have hlt : addendWord b.addend < 2 ^ 64 := by
      rw [addendWord]
      omega
    have hsame := hwords p.1 hrel
    rw [h.word_bound hlink hd hloc hpair, hword] at hsame
    omega
  · intro hcarried rel hrel
    obtain ⟨fixup, hfix⟩ := hmeaning rel hrel
    cases fixup with
    | internal target additive =>
      rw [h.word_internal hlink hrel hfix,
        Elf64.word_linked hm hlink.apart hrel (Elf64.link?_internal hfix)]
      exact (Nat.mod_eq_of_lt (bionicWord_lt ..)).symm
    | external symbol =>
      have hp : (rel, symbol) ∈
          T.elf.relocations.filterMap (Relocation.external? T.elf.dynamicSymbols) :=
        List.mem_filterMap.mpr ⟨rel, hrel, Relocation.external?_eq_some.mpr ⟨hfix, rfl⟩⟩
      obtain ⟨b, hb, hwith⟩ := exists_of_mem_forall₂ hbindings.flip hp
      obtain ⟨loc, hloc, hpair⟩ := hwith.location
      have hd : pointerBind 1 (addendWord b.addend) b ∈
          carriedBinds 1 0 (sortedBy Binding.location t.st.bindings) := by
        rw [hcarried]
        exact List.mem_map_of_mem (mem_sortedBy.mpr hb)
      rw [h.word_bound hlink hd hloc hpair, (hexternal _ hp b hwith).2]

end

/-! ### The file of Phase 3 -/

namespace Translation

variable {t : T.Translation args}

lemma holdsLoads (t : T.Translation args) (hbase : T.params.pageSize ∣ T.params.imageBase)
    (hsize : T.elf.FileszLeMemsz) (hpages : T.elf.PagesDisjoint T.params) :
    HoldsLoads T.slide T.elf.loads (dylibImage t.commands dylibFlags) where
  disjoint := by
    rw [Image.MemoryDisjoint, t.segments_file]
    exact (pairwise_below hbase hpages t).imp fun h => h.disjoint
  room := by
    rw [t.segments_file]
    intro s hs
    rcases List.mem_append.mp hs with hs | hs
    · obtain ⟨seg, hseg, rfl⟩ := List.mem_map.mp hs
      obtain ⟨ph, hph, hmaps⟩ := exists_load_of_mem hseg
      have hle := hsize ph hph
      have halign := le_align (v := seg.delta + ph.memsz) T.params.pageSize_pos
      have hfile := hmaps.filesize
      have hvm := hmaps.vmsize
      show seg.filesize ≤ seg.vmsize
      omega
    · rcases List.mem_singleton.mp hs with rfl
      exact le_align T.params.pageSize_pos
  holds := by
    intro i ph hph
    obtain ⟨seg, hseg, hmaps⟩ := exists_segment hph
    have hend := end_eq hbase hseg hmaps
    have halign := le_align (v := T.params.slide + ph.vaddr + ph.memsz) T.params.pageSize_pos
    refine ⟨_, segment_file hseg, Set.Ico_subset_Ico ?_ ?_⟩
    · exact hmaps.dataAddr ▸ hmaps.vmaddr_le
    · show T.params.slide + ph.vaddr + ph.memsz ≤ seg.vmaddr + seg.vmsize
      omega

lemma Fits.loads (h : t.Fits) (hshim : NulFree args.shimPrefix)
    (hbase : T.params.pageSize ∣ T.params.imageBase) (hsize : T.elf.FileszLeMemsz)
    (hpages : T.elf.PagesDisjoint T.params) :
    Loads t t.file (dylibImage t.commands dylibFlags) where
  toCarries := h.carries
  binds := h.bindsOf hshim
  holds := t.holdsLoads hbase hsize hpages
  padding := by
    intro i seg s hseg hs off hlo hhi
    rw [segment_file hseg] at hs
    obtain rfl := Option.some.inj hs
    exact absurd hhi (not_lt.mpr hlo)

end Translation

/-- Behind the `PT_LOAD` of a segment, up to the next segment, the image has zeros. -/
lemma getElem?_padding (hlink : Linkable T.elf) (t : T.Translation args) {i a : ℕ}
    {seg : ImageSegment} (hseg : T.segments[i]? = some seg) (hlo : seg.fileoff + seg.filesize ≤ a)
    (hnext : ∀ next, T.segments[i + 1]? = some next → a < next.fileoff) (hend : a < T.dataEnd) :
    t.st.image[a]? = some 0 := by
  have hout : ∀ p ∈ T.pieces, a < p.dst ∨ p.dst + p.size ≤ a := by
    intro p hp
    obtain ⟨seg', hmem, rfl⟩ := List.mem_map.mp hp
    obtain ⟨ph, -, hmaps⟩ := exists_load_of_mem hmem
    have hdata := hmaps.dataFileoff
    have hsize := hmaps.filesize
    have hfilesz := hmaps.elfFilesz
    obtain ⟨j, hj, rfl⟩ := List.getElem_of_mem hmem
    obtain ⟨hi, rfl⟩ := List.getElem?_eq_some_iff.mp hseg
    have horder := List.pairwise_iff_getElem.mp T.fileOrder
    show a < T.segments[j].dataFileoff ∨
      T.segments[j].dataFileoff + T.segments[j].elfFilesz ≤ a
    rcases Nat.lt_trichotomy j i with hji | rfl | hij
    · have hle := horder j i hj hi hji
      omega
    · omega
    · have hlt := hnext _ (List.getElem?_eq_getElem (by omega))
      rcases Nat.lt_or_ge (i + 1) j with hfar | hnear
      · have hle := horder (i + 1) j (by omega) hj hfar
        omega
      · obtain rfl : j = i + 1 := by omega
        omega
  have hfit := fit_copied hlink.inFile
  have hinside : Inside (wordUpdates T.slide T.elf.dynamicSymbols T.pieces T.elf.relocations)
      T.copied := t.relocated.inside
  rw [t.relocated.image, getElem?_applyUpdates hinside, copied_eq,
    getElem?_copyPieces_of_notMem hfit hout, List.getElem?_replicate, if_pos hend]
  -- every update lies in a piece
  intro u hu
  obtain ⟨rel, hrel, hupdate⟩ := mem_wordUpdates.mp hu
  obtain ⟨p, hp, hholds, hpos⟩ := exists_piece_of_update (hlink.held rel hrel) hupdate
  have hp' := hout p hp
  rw [Piece.Holds] at hholds
  rw [hpos, Piece.position]
  omega

end Phase3Translator

/-! ### The file of Phase 4 -/

namespace Phase4Translator

variable {T : Phase4Translator} {args : TranslateArgs}

namespace Translation

variable {t : T.Translation args}

lemma Fits.bindsOf (h : t.Fits) (hshim : NulFree args.shimPrefix) :
    bindsOf t.file = some (carriedBinds 1 0 (sortedBy Binding.location t.base.st.bindings)) := by
  obtain ⟨hread, -, hsame, -, -⟩ := h.file_spec
  obtain ⟨-, -, -, -, hbinds⟩ := t.fits.file_spec
  obtain ⟨h1, -, h2, h3, -, -, -⟩ := t.bounds
  have hslice : slice t.file t.linkedit.bindOff t.linkedit.bindSize = t.base.binds := by
    rw [← hbinds]
    exact slice_congr fun i hi => hsame _ (by omega) (by omega)
  rw [bindsOf_eq hread t.dyldInfo?_file]
  exact (congrArg bindTable hslice).trans (bindTable_bindStream t.base.bindStream
    fun b hb => t.base.nulFree_of_mem_bindings hshim hb)

lemma Fits.loads (h : t.Fits) (hshim : NulFree args.shimPrefix)
    (hbase : T.params.pageSize ∣ T.params.imageBase)
    (hlink : Phase3Translator.Linkable T.elf) (hpages : T.elf.PagesDisjoint T.params) :
    Phase3Translator.Loads t.base t.file (dylibImage t.commands dylibFlags) where
  toCarries := h.carries hlink.inFile
  binds := h.bindsOf hshim
  holds := holdsLoads h hbase hlink.size hpages
  padding := by
    intro i seg s hseg hs off hlo hhi
    rw [t.getElem?_segments hseg] at hs
    obtain rfl := Option.some.inj hs
    change off < (t.next i).1 - seg.fileoff at hhi
    have hreserve := Phase3Translator.headerReserve_le (List.mem_of_getElem? hseg)
    obtain ⟨ph, -, hmaps⟩ := Phase3Translator.exists_load hseg
    have hdata := hmaps.dataFileoff
    have hsize := hmaps.filesize
    have hnext : ∀ next, T.segments[i + 1]? = some next → seg.fileoff + off < next.fileoff := by
      intro next hsome
      have heq : (t.next i).1 = next.fileoff := by
        rw [next_eq, hsome]
        rfl
      omega
    -- the padding ends where the next segment or the link edit data starts
    have hend : seg.fileoff + off < T.dataEnd := by
      rw [next_eq] at hhi
      cases hsome : T.segments[i + 1]? with
      | none =>
        rw [hsome, Option.map_none, Option.getD_none, t.linkedit_fileoff hlink.inFile] at hhi
        omega
      | some next =>
        have hlt := hnext next hsome
        have hle := Phase3Translator.filesize_le_dataEnd (List.mem_of_getElem? hsome)
        omega
    have hlen := t.base.relocated.length_eq hlink.inFile
    rw [List.getD_eq_getElem?_getD, h.getElem?_file (by omega) (by omega),
      Phase3Translator.getElem?_padding hlink t.base hseg (by omega) hnext hend]
    rfl

end Translation

/-- **Linking the translated files is linking the library.**  For a library whose `PT_LOAD`s take
different pages of the target, the file of Phase 3 and the file of Phase 4, mapped at any slide,
rebased and bound to any shim, are in every byte of every `PT_LOAD` what the Android linker makes
of the library at the load bias `slide + image_base + header_reserve` with the symbols of the shim,
if and only if no binding with addend zero comes right after one whose addend is not. -/
theorem linksAlike_translate_iff {st : RelocState}
    (hst : T.toPhase3Translator.fixups args = .ok st) (hshim : NulFree args.shimPrefix)
    (hbase : T.params.pageSize ∣ T.params.imageBase)
    (hlink : Phase3Translator.Linkable T.elf) (hpages : T.elf.PagesDisjoint T.params) (s : ℕ)
    (exports : ℤ → Bytes → ℕ) :
    (∀ out, T.toPhase3Translator.translate args = .ok out →
      (T.LinksAlike args.shimPrefix out.file s exports ↔
        AddendsClear (sortedBy Binding.location st.bindings))) ∧
    ∀ out, T.translate args = .ok out →
      (T.LinksAlike args.shimPrefix out.file s exports ↔
        AddendsClear (sortedBy Binding.location st.bindings)) := by
  constructor
  · intro out hout
    obtain ⟨t, hfits, rfl⟩ := Phase3Translator.translate_eq_ok.mp hout
    obtain rfl : t.st = st := Except.ok.inj (t.fixups.symm.trans hst)
    exact (hfits.loads hshim hbase hlink.size hpages).linksAlike_iff hlink s exports
  · intro out hout
    obtain ⟨t, hfits, rfl⟩ := translate_eq_ok.mp hout
    obtain rfl : t.base.st = st := Except.ok.inj (t.base.fixups.symm.trans hst)
    exact (hfits.loads hshim hbase hlink hpages).linksAlike_iff hlink s exports

/-- The small library at `0x4000000`, where its pointer is `0x4010010`. -/
theorem linksAlike_translate_small : ∃ out m, small.translate {} = .ok out ∧
    linkFile out.file 0x4000000 (fun _ _ => 0) = some m ∧ m.word 0x40200B8 = 0x4010010 := by
  obtain ⟨t, hfits⟩ := exists_translation_small
  have hout := translate_eq_ok.mpr ⟨t, hfits, rfl⟩
  have hlink : Phase3Translator.Linkable small.elf :=
    ⟨by decide +kernel, by decide +kernel, by decide +kernel, by decide +kernel,
      by decide +kernel⟩
  have hrels : small.elf.relocations = [⟨0x100B8, 1027, 0, 0x10⟩] := Elf64.relocations_smallElf
  have hnone : t.base.st.bindings = [] := by
    obtain ⟨new, hnew, hforall⟩ := t.base.relocated.bindings
    rw [hrels, show [(⟨0x100B8, 1027, 0, 0x10⟩ : Relocation)].filterMap
      (Relocation.external? small.elf.dynamicSymbols) = [] from rfl,
      List.forall₂_nil_left_iff] at hforall
    simpa [hforall] using hnew
  have halike := ((linksAlike_translate_iff t.base.fixups (by decide) (Nat.dvd_zero _) hlink
    (by decide +kernel) 0x4000000 fun _ _ => 0).2 _ hout).mpr (by rw [hnone]; exact .nil)
  obtain ⟨m, m', hm, hm', heq⟩ := halike
  have hrel : (⟨0x100B8, 1027, 0, 0x10⟩ : Relocation) ∈ small.elf.relocations := by
    rw [hrels]
    exact List.mem_singleton_self _
  have hword := Elf64.word_linked hm' hlink.apart hrel (Elf64.link?_internal rfl)
  have hsame : m.word 0x40200B8 = m'.word 0x40200B8 := by
    refine Memory.word_eq_iff.mpr fun i hi => heq ?_
    refine ⟨⟨1, 6, 0xB0, 0x100B0, 0x20, 0x30, 0x10000⟩, by decide +kernel, 0x100B8 + i, ?_, ?_⟩
    · exact ⟨by show 0x100B0 ≤ 0x100B8 + i; omega, by show 0x100B8 + i < 0x100B0 + 0x30; omega⟩
    · show 0x40200B8 + i = 0x4000000 + 0x10000 + (0x100B8 + i)
      omega
  exact ⟨_, m, hout, hm, hsame.trans hword⟩

end Phase4Translator

end Apk2Ios
