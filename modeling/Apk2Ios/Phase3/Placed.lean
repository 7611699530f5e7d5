import Apk2Ios.Phase2.Translate
import Apk2Ios.Phase3.Load

/-!
# The bytes of the segments in the written file

Phase 2 and Phase 3 copy the `PT_LOAD`s one after another into an image of a planned length.
Each copy assigns a slice of the ELF file to a slice of the image.  When the file ends before
the `PT_LOAD` does, the first slice is shorter than the second: the image shrinks, and later
segments no longer start where they were planned.  Nothing in the translators notices this.
-/

namespace Apk2Ios

open Lib MachO

/-- Every `PT_LOAD` that has bytes in the file ends inside the file. -/
def Elf64.BytesInFile (elf : Elf64) : Prop :=
  ∀ ph ∈ elf.loads, ph.filesz = 0 ∨ ph.offset + ph.filesz ≤ elf.data.length

instance (elf : Elf64) : Decidable elf.BytesInFile := inferInstanceAs (Decidable (∀ _ ∈ _, _))

/-- The positions of the relocated words in the output. -/
def relocationWindows (ps : List Piece) (rels : List Relocation) : Set ℕ :=
  {i | ∃ rel ∈ rels, ∃ dst, locate ps rel.offset = some dst ∧ i ∈ Set.Ico dst (dst + 8)}

/-- The part of a written file that is planned for the `PT_LOAD`s has its length and holds
their bytes, and there is no byte that the ELF file does not have. -/
structure PlacedIntact (elf : Elf64) (ps : List Piece) (planned : ℕ) (area : Bytes) : Prop where
  length : area.length = planned
  byte : ∀ (k : ℕ) (ph : ProgramHeader) (p : Piece), elf.loads[k]? = some ph → ps[k]? = some p →
    ∀ i < ph.filesz, p.dst + i ∉ relocationWindows ps elf.relocations →
      area[p.dst + i]? = elf.data[ph.offset + i]?
  exists_byte : ∀ ph ∈ elf.loads, ∀ i < ph.filesz, ph.offset + i < elf.data.length

/-- A plan for the `PT_LOAD`s: their pieces ascend, behind the header and up to the planned
end. -/
structure Plan (elf : Elf64) (ps : List Piece) (limit planned : ℕ) : Prop where
  takes : List.Forall₂ Takes elf.loads ps
  ascending : Ascending ps
  le_dst : ∀ p ∈ ps, limit ≤ p.dst
  le_planned : ∀ p ∈ ps, p.dst + p.size ≤ planned

/-! ### Copies from a file that is long enough -/

section

variable {elf : Elf64} {ps : List Piece} {limit planned : ℕ} {area : Bytes}

lemma PlacedIntact.bytesInFile (h : PlacedIntact elf ps planned area) : elf.BytesInFile := by
  intro ph hph
  rcases Nat.eq_zero_or_pos ph.filesz with hzero | hpos
  · exact .inl hzero
  · -- the last byte is the one that a truncated file lacks
    have hlast := h.exists_byte ph hph (ph.filesz - 1) (by omega)
    exact .inr (by omega)

namespace Plan

/-- Only the pieces with bytes have to fit: the others copy nothing, from wherever. -/
lemma fit_filter (h : Plan elf ps limit planned) (hin : elf.BytesInFile) :
    Fit (ps.filter fun p => p.size ≠ 0) elf.data
      (List.replicate planned (0 : UInt8)).length := by
  intro p hp
  rw [List.mem_filter, decide_eq_true_eq] at hp
  obtain ⟨hmem, hsize⟩ := hp
  obtain ⟨ph, hph, htakes⟩ := exists_of_mem_forall₂ h.takes hmem
  rw [List.length_replicate]
  refine ⟨?_, h.le_planned p hmem⟩
  rcases hin ph hph with hzero | hle
  · exact absurd (htakes.size.trans hzero) hsize
  · rwa [htakes.src, htakes.size]

lemma length_copied (h : Plan elf ps limit planned) (hin : elf.BytesInFile) :
    (copyPieces elf.data ps (List.replicate planned 0)).length = planned := by
  rw [← copyPieces_filter, length_copyPieces (h.fit_filter hin), List.length_replicate]

/-- The bytes of a piece are those of the file. -/
lemma getElem?_copied (h : Plan elf ps limit planned) (hin : elf.BytesInFile) {p : Piece}
    (hp : p ∈ ps) {i : ℕ} (hi : i < p.size) :
    (copyPieces elf.data ps (List.replicate planned 0))[p.dst + i]? = elf.data[p.src + i]? := by
  have hfilter : p ∈ ps.filter fun p => p.size ≠ 0 := by
    rw [List.mem_filter, decide_eq_true_eq]
    exact ⟨hp, by omega⟩
  have hasc : Ascending (ps.filter fun p => p.size ≠ 0) := h.ascending.filter _
  have hcovers : p.Covers (p.addr + i) := ⟨by omega, by omega⟩
  have hbyte := getElem?_copyPieces (h.fit_filter hin) hasc hfilter hcovers
  rwa [copyPieces_filter, Piece.position, Nat.add_sub_cancel_left] at hbyte

/-- **The segments are intact exactly when the ELF file has all their bytes**, in an area that is
the relocated image behind its header. -/
theorem placedIntact_iff (h : Plan elf ps limit planned) {bias : ℤ} {image : Bytes}
    (hinside : Inside (wordUpdates bias elf.dynamicSymbols ps elf.relocations)
      (copyPieces elf.data ps (List.replicate planned 0)))
    (himage : image = applyUpdates (wordUpdates bias elf.dynamicSymbols ps elf.relocations)
      (copyPieces elf.data ps (List.replicate planned 0)))
    (harea : image.length = planned →
      area.length = planned ∧ ∀ i, limit ≤ i → i < planned → area[i]? = image[i]?) :
    PlacedIntact elf ps planned area ↔ elf.BytesInFile := by
  refine ⟨PlacedIntact.bytesInFile, fun hin => ?_⟩
  have hlen : image.length = planned := by
    rw [himage, length_applyUpdates hinside, h.length_copied hin]
  obtain ⟨harea, hsame⟩ := harea hlen
  refine ⟨harea, ?_, ?_⟩
  · intro k ph p hph hp i hi hout
    have hmem := List.mem_of_getElem? hp
    have htakes : Takes ph p := by
      obtain ⟨hk, rfl⟩ := List.getElem?_eq_some_iff.mp hph
      obtain ⟨hk', rfl⟩ := List.getElem?_eq_some_iff.mp hp
      exact h.takes.get hk hk'
    have hsize := htakes.size
    have hle := h.le_planned p hmem
    have hlimit := h.le_dst p hmem
    rw [hsame _ (by omega) (by omega), himage, getElem?_applyUpdates hinside,
      h.getElem?_copied hin hmem (by omega), htakes.src]
    -- every update is the word of a relocation, and the byte is in none of them
    intro u hu
    obtain ⟨rel, hrel, hu⟩ := mem_wordUpdates.mp hu
    obtain ⟨-, -, -, hloc, -⟩ := Relocation.update?_eq_some.mp hu
    by_contra hno
    exact hout ⟨rel, hrel, u.pos, hloc, by omega, by omega⟩
  · intro ph hph i hi
    rcases hin ph hph with hzero | hle
    · omega
    · omega

end Plan

end

/-! ### The area of Phase 2 -/

namespace Phase2Translator

variable {T : Phase2Translator} {args : Phase2.TranslateArgs} {out : Phase2Output}

lemma filesize_le_dataEnd {seg : MappedLoad} (h : seg ∈ T.loads) :
    seg.fileoff + seg.filesize ≤ T.dataEnd := by
  have hle := le_align (v := seg.fileoff + seg.filesize) T.params.pageSize_pos
  exact hle.trans (le_foldl_max.2 _ (List.mem_map_of_mem h))

lemma plan (T : Phase2Translator) : Plan T.elf T.pieces T.params.pageSize T.dataEnd where
  takes := T.forall₂_takes
  ascending := T.ascending_pieces
  le_dst := by
    intro p hp
    obtain ⟨seg, hseg, rfl⟩ := List.mem_map.mp hp
    have hle := pageSize_le_fileoff hseg
    show T.params.pageSize ≤ seg.fileoff + seg.delta
    omega
  le_planned := by
    intro p hp
    obtain ⟨seg, hseg, rfl⟩ := List.mem_map.mp hp
    obtain ⟨ph, -, hmaps⟩ := exists_load_of_mem hseg
    have hend := filesize_le_dataEnd hseg
    have hsize := hmaps.filesize
    have htakes : seg.elfFilesz = ph.filesz := hmaps.takes.size
    show seg.fileoff + seg.delta + seg.elfFilesz ≤ T.dataEnd
    omega

lemma pageSize_le_dataEnd : T.params.pageSize ≤ T.dataEnd := by
  have hne : T.loads ≠ [] := by
    obtain ⟨_, hraise, h⟩ := PyM.bind_eq_ok.mp T.layout
    rw [PyM.raiseIf_eq_ok] at hraise
    rwa [← PyM.pure_eq_ok.mp h]
  obtain ⟨seg, hseg⟩ := List.exists_mem_of_ne_nil _ hne
  have hpage := pageSize_le_fileoff hseg
  have hend := filesize_le_dataEnd hseg
  omega

/-- A step of the loop patches a word inside the image. -/
lemma inside_of_relocate {symbols : List DynamicSymbol} {st st' : Phase2State} {rel : Relocation}
    (h : T.relocate symbols st rel = .ok st') :
    Inside (wordUpdates T.params.slide symbols T.pieces [rel]) st.image := by
  intro u hu
  obtain ⟨rel', hrel', hupdate⟩ := mem_wordUpdates.mp hu
  obtain rfl := List.mem_singleton.mp hrel'
  obtain ⟨target, additive, hfix, hpos, -⟩ := Relocation.update?_eq_some.mp hupdate
  obtain ⟨dst, hloc, hcase⟩ := relocate_eq_ok.mp h
  obtain rfl := Option.some.inj (hpos.symm.trans hloc)
  rcases hcase with ⟨-, -, -, hle, -⟩ | ⟨symbol, hext, -⟩
  · exact hle
  · simp [hfix] at hext

lemma inside_of_foldlM {symbols : List DynamicSymbol} {st st' : Phase2State}
    {rels : List Relocation} (h : rels.foldlM (T.relocate symbols) st = .ok st') :
    Inside (wordUpdates T.params.slide symbols T.pieces rels) st.image := by
  induction rels generalizing st with
  | nil => simp [wordUpdates, Inside]
  | cons rel rels ih =>
    rw [List.foldlM_cons, PyM.bind_eq_ok] at h
    obtain ⟨st₁, hstep, hrest⟩ := h
    have hsplit : wordUpdates T.params.slide symbols T.pieces (rel :: rels) =
        wordUpdates T.params.slide symbols T.pieces [rel] ++
          wordUpdates T.params.slide symbols T.pieces rels := by
      rw [wordUpdates, wordUpdates, wordUpdates, ← List.filterMap_append, List.singleton_append]
    have hlen := (resolved_single hstep).length_image
    rw [hsplit, inside_append]
    refine ⟨inside_of_relocate hstep, fun u hu => ?_⟩
    rw [← hlen]
    exact ih hrest u hu

/-- The written file is as long as the image, which is behind its header page. -/
lemma length_file (h : T.translate args = .ok out) : ∃ st, T.fixups = .ok st ∧
    (T.params.pageSize ≤ st.image.length → out.file.length = st.image.length) ∧
      ∀ i, T.params.pageSize ≤ i → out.file[i]? = st.image[i]? := by
  simp only [translate, PyM.bind_eq_ok, commands_eq_ok, PyM.pure_eq_ok] at h
  obtain ⟨-, -, st, hst, _, ⟨hfit, rfl⟩, file, hfile, rfl⟩ := h
  obtain ⟨-, hhead, hlen, hsame⟩ := emitCommands_spec hfit.valid (by decide) hfile
  exact ⟨st, hst, fun hpage => hlen (hhead.trans hpage), hsame⟩

lemma placedIntact_iff (h : T.translate args = .ok out) :
    PlacedIntact T.elf T.pieces T.dataEnd out.file ↔ T.elf.BytesInFile := by
  obtain ⟨st, hst, hlen, hsame⟩ := length_file h
  have hrun := resolved_of_foldlM hst
  have hinside := inside_of_foldlM hst
  have himage := hrun.image
  simp only [copied_eq] at hinside himage
  refine T.plan.placedIntact_iff hinside himage fun hplanned => ?_
  have hpage := T.pageSize_le_dataEnd
  exact ⟨(hlen (by omega)).trans hplanned, fun i hi _ => hsame i hi⟩

end Phase2Translator

/-! ### The area of Phase 3 -/

namespace Phase3Translator

variable {T : Phase3Translator} {args : TranslateArgs} {out : Phase3Output}

lemma plan (T : Phase3Translator) : Plan T.elf T.pieces T.params.headerReserve T.dataEnd where
  takes := T.forall₂_takes
  ascending := T.ascending_pieces
  le_dst := by
    intro p hp
    obtain ⟨seg, hseg, rfl⟩ := List.mem_map.mp hp
    exact headerReserve_le hseg
  le_planned := fun p hp => piece_le_dataEnd hp

/-- The area of the `PT_LOAD`s ends where the last segment command, that of `__LINKEDIT`,
starts. -/
lemma placedIntact_iff (h : T.translate args = .ok out) :
    ∃ im linkedit, readImage out.file = some im ∧ im.segments.getLast? = some linkedit ∧
      linkedit.segname = name16 "__LINKEDIT" ∧
      (PlacedIntact T.elf T.pieces T.dataEnd (out.file.take linkedit.fileoff) ↔
        T.elf.BytesInFile) := by
  obtain ⟨t, hfits, rfl⟩ := translate_eq_ok.mp h
  obtain ⟨hread, hlen, hsame, -, -⟩ := hfits.file_spec
  have hinside := t.relocated.inside
  have himage := t.relocated.image
  simp only [copied_eq] at hinside himage
  refine ⟨_, t.linkedit.command, hread, ?_, rfl,
    T.plan.placedIntact_iff hinside himage fun hplanned => ?_⟩
  · rw [Translation.segments_file, List.getLast?_concat]
  · have hoff : t.linkedit.command.fileoff = T.dataEnd := by
      show align t.st.image.length T.params.pageSize = T.dataEnd
      rw [hplanned, align_of_dvd T.params.isPage dvd_dataEnd]
    have hend := le_align (v := t.linkedit.fileoff + t.linkedit.filesize) T.params.pageSize_pos
    have hfile : T.dataEnd ≤ t.file.length := by
      rw [hlen, ← hoff]
      exact le_trans (Nat.le_add_right _ _) hend
    constructor
    · rw [hoff, List.length_take, Nat.min_eq_left hfile]
    · intro i hi hlt
      rw [hoff, List.getElem?_take_of_lt hlt]
      exact hsame i (by omega) hi

end Phase3Translator

/-- **The bytes of all segments are placed intact exactly when the ELF file has them.**  In both
phases a file is written whether or not it has them. -/
theorem placedIntact_translate_iff (T₂ : Phase2Translator) (args₂ : Phase2.TranslateArgs)
    (T₃ : Phase3Translator) (args₃ : TranslateArgs) :
    (∀ out, T₂.translate args₂ = .ok out →
      (PlacedIntact T₂.elf T₂.pieces T₂.dataEnd out.file ↔ T₂.elf.BytesInFile)) ∧
    ∀ out, T₃.translate args₃ = .ok out →
      ∃ im linkedit, readImage out.file = some im ∧ im.segments.getLast? = some linkedit ∧
        linkedit.segname = name16 "__LINKEDIT" ∧
        (PlacedIntact T₃.elf T₃.pieces T₃.dataEnd (out.file.take linkedit.fileoff) ↔
          T₃.elf.BytesInFile) :=
  ⟨fun _ h => Phase2Translator.placedIntact_iff h, fun _ h => Phase3Translator.placedIntact_iff h⟩

/-- The segments of the small library are intact. -/
theorem placedIntact_translate_small :
    (∃ out, Phase2Translator.small.translate {} = .ok out ∧
      PlacedIntact Elf64.smallElf Phase2Translator.small.pieces 0xC000 out.file) ∧
    ∃ out, Phase3Translator.small.translate {} = .ok out ∧
      ∃ area, PlacedIntact Elf64.smallElf Phase3Translator.small.pieces 0x18000 area ∧
        area <+: out.file := by
  have hin : Elf64.smallElf.BytesInFile := by decide +kernel
  obtain ⟨out, hout⟩ := Phase2Translator.exists_output_small
  obtain ⟨out', hout'⟩ := Phase3Translator.exists_output_small
  obtain ⟨hphase2, hphase3⟩ :=
    placedIntact_translate_iff Phase2Translator.small {} Phase3Translator.small {}
  obtain ⟨im, linkedit, -, -, -, hiff⟩ := hphase3 out' hout'
  exact ⟨⟨out, hout, (hphase2 out hout).mpr hin⟩, out', hout', _, hiff.mpr hin,
    List.take_prefix _ _⟩

/-! ### A truncated library -/

/-- A library that ends behind its program headers: the first `PT_LOAD` says that it has 32 KiB
in the file, the second one is whole. -/
def Elf64.truncatedFile : Bytes :=
  [0x7F, 0x45, 0x4C, 0x46, 2, 1, 1] ++ List.replicate 9 0 ++
  -- type, machine, version, entry, tables
  leBytes 2 3 ++ leBytes 2 183 ++ leBytes 4 1 ++ leBytes 8 0 ++ leBytes 8 0x40 ++
  leBytes 8 0 ++ leBytes 4 0 ++ leBytes 2 64 ++ leBytes 2 56 ++ leBytes 2 2 ++
  leBytes 2 64 ++ leBytes 2 0 ++ leBytes 2 0 ++
  -- program headers
  leBytes 4 1 ++ leBytes 4 5 ++ leBytes 8 0 ++ leBytes 8 0 ++ leBytes 8 0 ++ leBytes 8 0x8000 ++
  leBytes 8 0x8000 ++ leBytes 8 0x4000 ++
  leBytes 4 1 ++ leBytes 4 6 ++ leBytes 8 0x40 ++ leBytes 8 0x10000 ++ leBytes 8 0x10000 ++
  leBytes 8 0x20 ++ leBytes 8 0x20 ++ leBytes 8 0x4000

/-- What the parser makes of it. -/
def Elf64.truncatedElf : Elf64 where
  data := truncatedFile
  eType := etDyn
  eMachine := emAarch64
  programHeaders := [⟨1, 5, 0, 0, 0x8000, 0x8000, 0x4000⟩,
    ⟨1, 6, 0x40, 0x10000, 0x20, 0x20, 0x4000⟩]
  sections := []

lemma Elf64.parse_truncatedFile : parse truncatedFile = .ok truncatedElf := by decide +kernel

namespace Phase2Translator

/-- The translator of the truncated library. -/
def truncated : Phase2Translator where
  elf := Elf64.truncatedElf
  params := .default
  loads := [mapLoad .default 0 0x4000 ⟨1, 5, 0, 0, 0x8000, 0x8000, 0x4000⟩,
    mapLoad .default 1 0xC000 ⟨1, 6, 0x40, 0x10000, 0x20, 0x20, 0x4000⟩]
  machine := rfl
  type := rfl
  layout := rfl

/-- The first copy takes `0x7F50` bytes out of the image, and the second one, behind its end, only
appends. -/
lemma length_copied_truncated : truncated.copied.length = 0x80D0 := by
  have hdata : truncated.elf.data.length = 0xB0 := by decide +kernel
  have hend : truncated.dataEnd = 0x10000 := by decide +kernel
  have hpieces : truncated.pieces = [⟨0, 0, 0x8000, 0x4000⟩, ⟨0x10000, 0x40, 0x20, 0xC000⟩] := rfl
  have hcopy : ∀ image : Bytes, image.length = 0x10000 →
      (copyPieces truncated.elf.data truncated.pieces image).length = 0x80D0 := by
    intro image himage
    rw [hpieces, copyPieces_cons, copyPieces_cons]
    show (Piece.copy _ _ _).length = _
    rw [Piece.length_copy_eq, Piece.length_copy_eq, himage, hdata]
    rfl
  rw [copied_eq, hend]
  exact hcopy _ List.length_replicate

lemma exists_output_truncated : ∃ out, truncated.translate {} = .ok out := by
  have hfixups : truncated.fixups = .ok { image := truncated.copied } := by
    have hnone : truncated.elf.relocations = [] := rfl
    rw [fixups, hnone]
    rfl
  exact exists_output (by decide +kernel) hfixups (by decide +kernel) (by decide +kernel)
    (by decide +kernel)

/-- The translator writes a file for the truncated library.  It is too short, and it ends before
the planned place of the second segment, all of whose bytes the library has. -/
theorem truncated_not_intact : ∃ out, Elf64.parse Elf64.truncatedFile = .ok Elf64.truncatedElf ∧
    init Elf64.truncatedElf .default = .ok truncated ∧ truncated.translate {} = .ok out ∧
    truncated.dataEnd = 0x10000 ∧ out.file.length = 0x80D0 ∧ out.file[0xC000]? = none ∧
    ¬ PlacedIntact truncated.elf truncated.pieces truncated.dataEnd out.file := by
  obtain ⟨out, hout⟩ := exists_output_truncated
  have hend : truncated.dataEnd = 0x10000 := by decide +kernel
  have hlen : out.file.length = 0x80D0 := by
    obtain ⟨st, hst, hfile, -⟩ := length_file hout
    have himage := (resolved_of_foldlM hst).length_image
    rw [length_copied_truncated] at himage
    rw [hfile ?_, himage]
    rw [himage]
    decide
  refine ⟨out, Elf64.parse_truncatedFile, init_eq_ok.mpr ⟨rfl, rfl⟩, hout, hend, hlen, ?_, ?_⟩
  · exact List.getElem?_eq_none (by omega)
  · intro hintact
    have hplanned := hintact.length
    omega

end Phase2Translator

end Apk2Ios
