import Apk2Ios.Phase3.Load

/-!
# Phase 3: the fixup tables

The locations of the two tables of a written file are those of the relocations.  They are
well formed exactly when no two relocations overlap and none runs over the end of the
`PT_LOAD` it is found in; the translator checks neither.
-/

namespace Apk2Ios

open Lib MachO

namespace Phase3Translator

variable {T : Phase3Translator} {args : TranslateArgs}

/-! ### The locations of the tables -/

lemma map_location_carriedBinds (ordinal addend : ℕ) (items : List Binding) :
    (carriedBinds ordinal addend items).map (fun b => (b.segment, b.offset)) =
      items.map Binding.location := by
  induction items generalizing addend with
  | nil => rfl
  | cons b items ih => rw [carriedBinds, List.map_cons, List.map_cons, ih]; rfl

lemma Translation.Fits.bindsOf {t : T.Translation args} (h : t.Fits)
    (hshim : NulFree args.shimPrefix) :
    bindsOf t.file = some (carriedBinds 1 0 (sortedBy Binding.location t.st.bindings)) := by
  obtain ⟨hread, -, -, -, hbinds⟩ := h.file_spec
  rw [bindsOf_eq hread t.dyldInfo?_file]
  exact (congrArg bindTable hbinds).trans
    (bindTable_bindStream t.bindStream fun b hb => t.nulFree_of_mem_bindings hshim hb)

lemma Translation.Fits.locationsOf {t : T.Translation args} (h : t.Fits)
    (hshim : NulFree args.shimPrefix) :
    locationsOf t.file = some (sortedBy id t.st.rebases ++
      (sortedBy Binding.location t.st.bindings).map Binding.location) := by
  have hrebases : ((sortedBy id t.st.rebases).map pointerRebase).map
      (fun r => (r.segment, r.offset)) = sortedBy id t.st.rebases := by
    rw [List.map_map]
    exact List.map_id _
  simp only [MachO.locationsOf, h.carries.rebases, h.bindsOf hshim, Option.bind_eq_bind,
    Option.bind_some, hrebases, map_location_carriedBinds]
  rfl

/-- The entry of a relocation in the tables. -/
def tableEntry (T : Phase3Translator) (rel : Relocation) : ℕ × ℕ :=
  match T.location rel.offset with
  | .ok loc => loc.pair
  | .error _ => (0, 0)

lemma tableEntry_eq {rel : Relocation} {loc : Location} (h : T.location rel.offset = .ok loc) :
    T.tableEntry rel = loc.pair := by
  rw [tableEntry, h]

/-- Every relocation has one entry, in one of the two tables. -/
lemma perm_tableEntry {symbols : List DynamicSymbol} {rels : List Relocation} {n : ℕ}
    (h : ∀ rel ∈ rels, Located T symbols n rel) :
    (rels.filterMap (T.rebase? symbols) ++
        (rels.filterMap (Relocation.external? symbols)).map fun p => T.tableEntry p.1).Perm
      (rels.map T.tableEntry) := by
  induction rels with
  | nil => exact .nil
  | cons rel rels ih =>
    have hrest := ih fun r hr => h r (List.mem_cons_of_mem rel hr)
    obtain ⟨⟨fixup, hfix⟩, loc, hloc, -⟩ := h rel List.mem_cons_self
    cases fixup with
    | internal target additive =>
      have hrebase : T.rebase? symbols rel = some (T.tableEntry rel) := by
        simp [rebase?, Relocation.internal?, hfix, hloc, tableEntry]
      have hext : rel.external? symbols = none := by simp [Relocation.external?, hfix]
      rw [List.filterMap_cons_some hrebase, List.filterMap_cons_none hext, List.map_cons,
        List.cons_append]
      exact hrest.cons _
    | external symbol =>
      have hrebase : T.rebase? symbols rel = none := by
        simp [rebase?, Relocation.internal?, hfix]
      have hext : rel.external? symbols = some (rel, symbol) := by
        simp [Relocation.external?, hfix]
      rw [List.filterMap_cons_none hrebase, List.filterMap_cons_some hext, List.map_cons,
        List.map_cons]
      exact List.perm_middle.trans (hrest.cons _)

lemma perm_locations {t : T.Translation args} :
    (sortedBy id t.st.rebases ++
        (sortedBy Binding.location t.st.bindings).map Binding.location).Perm
      (T.elf.relocations.map T.tableEntry) := by
  have hrun := t.relocated
  obtain ⟨new, hnew, hforall⟩ := hrun.bindings
  have hrebases : t.st.rebases = _ := hrun.rebases
  rw [List.nil_append] at hnew hrebases
  have hbindings : t.st.bindings.map Binding.location =
      (T.elf.relocations.filterMap (Relocation.external? T.elf.dynamicSymbols)).map
        fun p => T.tableEntry p.1 := by
    rw [hnew]
    refine (map_eq_map_of_forall₂ hforall fun p b hb => ?_).symm
    obtain ⟨loc, hloc, hpair⟩ := hb.location
    rw [hpair, tableEntry_eq hloc]
  have hperm := (sortedBy_perm id t.st.rebases).append
    ((sortedBy_perm Binding.location t.st.bindings).map Binding.location)
  rw [hbindings, hrebases] at hperm
  rw [hrebases]
  exact hperm.trans (perm_tableEntry hrun.located)

/-! ### Addresses and ends -/

lemma loadOf_eq {a : ℕ} {loc : Location} (h : T.location a = .ok loc) :
    T.elf.loadOf a = T.elf.loads[loc.segmentIndex]? := by
  obtain ⟨i, seg, hseg, hcovers, hfirst, rfl⟩ := location_eq_ok.mp h
  obtain ⟨ph, hph, hmaps⟩ := exists_load hseg
  rw [hph, Elf64.loadOf, List.find?_eq_some_iff_getElem]
  obtain ⟨hi, rfl⟩ := List.getElem?_eq_some_iff.mp hph
  rw [Piece.Covers, ImageSegment.piece, hmaps.elfVaddr, hmaps.elfFilesz] at hcovers
  refine ⟨by simpa using hcovers, i, hi, rfl, fun j hj => ?_⟩
  obtain ⟨s, hs, hmaps'⟩ := exists_segment (T := T) (i := j)
    (List.getElem?_eq_getElem (by omega : j < T.elf.loads.length))
  have hno := hfirst j hj s hs
  rw [Piece.Covers, ImageSegment.piece, hmaps'.elfVaddr, hmaps'.elfFilesz] at hno
  simpa only [Bool.not_eq_true', decide_eq_false_iff_not] using hno

lemma segment_file {t : T.Translation args} {i : ℕ} {seg : ImageSegment}
    (h : T.segments[i]? = some seg) :
    (dylibImage t.commands dylibFlags).segments[i]? = some seg.command := by
  have hi := (List.getElem?_eq_some_iff.mp h).1
  rw [t.segments_file, List.getElem?_append_left (by simpa using hi), List.getElem?_map, h]
  rfl

lemma address_tableEntry {t : T.Translation args} {rel : Relocation} {loc : Location}
    (h : T.location rel.offset = .ok loc) :
    (dylibImage t.commands dylibFlags).address (T.tableEntry rel) = T.slide + rel.offset := by
  obtain ⟨-, ph, seg, -, hseg, -, -, hvm⟩ := location_place h
  rw [tableEntry_eq h, Image.address, Location.pair, segment_file hseg]
  exact hvm

/-- A pointer is in its segment exactly when it ends before the `PT_LOAD` does. -/
lemma holdsPointer_iff {t : T.Translation args} {rel : Relocation} {loc : Location}
    (h : T.location rel.offset = .ok loc) :
    (∃ seg, (dylibImage t.commands dylibFlags).segments[(T.tableEntry rel).1]? = some seg ∧
        seg.HoldsPointer (T.tableEntry rel).2) ↔
      ∀ ph ∈ T.elf.loadOf rel.offset, rel.offset + 8 ≤ ph.vaddr + ph.filesz := by
  obtain ⟨-, ph, seg, hph, hseg, hmaps, hfind, hvm⟩ := location_place h
  have hcovers := (findPiece_eq_some hfind).2
  have haddr := hmaps.dataAddr
  have hle := hmaps.vmaddr_le
  have hsize := hmaps.filesize
  have hdata := hmaps.dataSize
  have hdelta : seg.delta = seg.dataAddr - seg.vmaddr := rfl
  have hslide : T.slide = T.params.slide := rfl
  simp only [Piece.Covers, ImageSegment.piece, hmaps.elfVaddr, hmaps.elfFilesz] at hcovers
  rw [tableEntry_eq h, loadOf_eq h, hph]
  simp only [Location.pair, segment_file hseg, Option.some.injEq, exists_eq_left',
    Option.mem_def, forall_eq']
  constructor
  · rintro ⟨hin, -⟩
    simp only [pointerSize, ImageSegment.command] at hin
    omega
  · intro hend
    refine ⟨?_, seg.dataSection, List.mem_cons_of_mem _ List.mem_cons_self, ?_, ?_⟩ <;>
      simp only [pointerSize, ImageSegment.command, ImageSegment.dataSection] <;> omega

/-! ### When the tables are well formed -/

lemma Translation.Fits.fixupsWellFormed {t : T.Translation args} (hfits : t.Fits)
    (hshim : NulFree args.shimPrefix) :
    FixupsWellFormed t.file ↔ WindowsApart T.elf.relocations ∧
      ∀ rel ∈ T.elf.relocations, ∀ ph ∈ T.elf.loadOf rel.offset,
        rel.offset + 8 ≤ ph.vaddr + ph.filesz := by
  have hread := hfits.carries.readImage
  have hlocs := hfits.locationsOf hshim
  have hlocated : ∀ rel ∈ T.elf.relocations, ∃ loc, T.location rel.offset = .ok loc := by
    intro rel hrel
    obtain ⟨-, loc, hloc, -⟩ := t.relocated.located rel hrel
    exact ⟨loc, hloc⟩
  have hperm := T.perm_locations (t := t)
  -- the addresses of the tables are those of the relocations, in another order
  have hapart : (((sortedBy id t.st.rebases ++
      (sortedBy Binding.location t.st.bindings).map Binding.location)).map
        (dylibImage t.commands dylibFlags).address).Pairwise Apart ↔
      WindowsApart T.elf.relocations := by
    rw [(hperm.map _).pairwise_iff Apart.symm, List.map_map, List.pairwise_map, WindowsApart]
    refine List.Pairwise.iff_of_mem fun {r r'} hr hr' => ?_
    obtain ⟨loc, hloc⟩ := hlocated r hr
    obtain ⟨loc', hloc'⟩ := hlocated r' hr'
    simp only [Function.comp_apply, address_tableEntry hloc, address_tableEntry hloc', Apart]
    omega
  have hholds : (∀ loc ∈ sortedBy id t.st.rebases ++
      (sortedBy Binding.location t.st.bindings).map Binding.location,
        ∃ seg, (dylibImage t.commands dylibFlags).segments[loc.1]? = some seg ∧
          seg.HoldsPointer loc.2) ↔
      ∀ rel ∈ T.elf.relocations, ∀ ph ∈ T.elf.loadOf rel.offset,
        rel.offset + 8 ≤ ph.vaddr + ph.filesz := by
    simp only [hperm.mem_iff, List.mem_map, forall_exists_index, and_imp,
      forall_apply_eq_imp_iff₂]
    refine forall₂_congr fun rel hrel => ?_
    obtain ⟨loc, hloc⟩ := hlocated rel hrel
    exact holdsPointer_iff hloc
  rw [← hapart, ← hholds]
  constructor
  · rintro ⟨im, locs, him, hl, hpair, hin⟩
    obtain rfl := Option.some.inj (hread.symm.trans him)
    obtain rfl := Option.some.inj (hlocs.symm.trans hl)
    exact ⟨hpair, hin⟩
  · rintro ⟨hpair, hin⟩
    exact ⟨_, _, hread, hlocs, hpair, hin⟩

/-- **The fixup tables of a Phase 3 file are well formed if and only if** the words of the
relocations do not overlap and each ends inside the `PT_LOAD` it is found in. -/
theorem fixupsWellFormed_iff {out : Phase3Output} (h : T.translate args = .ok out)
    (hshim : NulFree args.shimPrefix) :
    FixupsWellFormed out.file ↔ WindowsApart T.elf.relocations ∧
      ∀ rel ∈ T.elf.relocations, ∀ ph ∈ T.elf.loadOf rel.offset,
        rel.offset + 8 ≤ ph.vaddr + ph.filesz := by
  obtain ⟨t, hfits, rfl⟩ := translate_eq_ok.mp h
  exact hfits.fixupsWellFormed hshim

theorem fixupsWellFormed_small :
    ∃ out, small.translate {} = .ok out ∧ FixupsWellFormed out.file := by
  obtain ⟨out, hout⟩ := exists_output_small
  exact ⟨out, hout, (fixupsWellFormed_iff hout (by decide)).mpr (by decide +kernel)⟩

/-- The small library with a shorter data segment, which ends in the middle of the relocated
word. -/
def cut : Phase3Translator where
  elf := { Elf64.smallElf with
    programHeaders := [⟨1, 5, 0, 0, 0xB0, 0xB0, 0x10000⟩,
      ⟨1, 6, 0xB0, 0x100B0, 0xC, 0x30, 0x10000⟩] }
  params := .default
  segments := [firstSegment .default ⟨1, 5, 0, 0, 0xB0, 0xB0, 0x10000⟩,
    nextSegment .default 1 0x14000 ⟨1, 6, 0xB0, 0x100B0, 0xC, 0x30, 0x10000⟩]
  machine := rfl
  type := rfl
  layout := rfl

/-- The translator accepts the file and writes the word over the end of its segment. -/
theorem fixups_cut : ∃ out, cut.translate {} = .ok out ∧ ¬ FixupsWellFormed out.file := by
  have hrels : cut.elf.relocations = [⟨0x100B8, 1027, 0, 0x10⟩] := by decide +kernel
  obtain ⟨t, ht⟩ : ∃ t : cut.Translation {}, t.linkedit = cut.linkedit cut.dataEnd 6 3 := by
    refine exists_translation (T := cut) [0x11, 0x21, 0xB8, 0x01, 0x51, 0x00]
      (by decide +kernel) ?_ (by decide +kernel) (by decide +kernel)
    intro rel hrel
    rw [hrels, List.mem_singleton] at hrel
    subst hrel
    exact ⟨⟨_, rfl⟩, ⟨1, 0x140B8, 0xB8⟩, rfl, by decide⟩
  have hfits := t.fits_of_linkedit ht (by decide +kernel) (by decide +kernel) (by decide +kernel)
    (by decide +kernel) (by decide +kernel)
  refine ⟨_, translate_eq_ok.mpr ⟨t, hfits, rfl⟩, ?_⟩
  rw [hfits.fixupsWellFormed (by decide)]
  decide +kernel

end Phase3Translator

end Apk2Ios
