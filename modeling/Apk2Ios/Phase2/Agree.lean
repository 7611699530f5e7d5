import Mathlib.Data.Int.ModEq
import Apk2Ios.Phase2.Translate
import Apk2Ios.Phase3.Load

/-!
# Phase 2 and Phase 3 agree

Both translators place the same bytes of a `PT_LOAD` and make the same word updates, each with
its own bias.  What the two files hold is compared address by address, through the segment
commands of each file.
-/

namespace Apk2Ios

open Lib MachO

/-! ### Relocated bytes behind a segment command -/

/-- The segment holds the file-backed bytes of the `PT_LOAD` at the addresses `bias + a`,
relocated with that bias. -/
structure HoldsRelocated (elf : Elf64) (bias : ℕ) (file : Bytes) (seg : Segment64)
    (ph : ProgramHeader) : Prop where
  start : seg.vmaddr ≤ bias + ph.vaddr
  inside : ∀ a ∈ ph.fileBacked, seg.fileoff + (bias + a - seg.vmaddr) < file.length
  byte : ∀ a ∈ ph.fileBacked,
    (∀ rel ∈ elf.relocations, rel.Internal elf.dynamicSymbols →
      a ∉ Set.Ico rel.offset (rel.offset + 8)) →
    file[seg.fileoff + (bias + a - seg.vmaddr)]? = elf.data[ph.offset + (a - ph.vaddr)]?
  word : ∀ rel ∈ elf.relocations, ph.HoldsWord rel.offset → ∀ target additive,
    rel.fixup? elf.dynamicSymbols = some (.internal target additive) →
    word file (seg.fileoff + (bias + rel.offset - seg.vmaddr)) =
      bionicWord bias target additive (Lib.word elf.data (ph.offset + (rel.offset - ph.vaddr)))

section

variable {elf : Elf64} {bias : ℕ} {ps : List Piece} {p : Piece} {img file : Bytes}
  {seg : Segment64} {ph : ProgramHeader}

/-- A file that has the bytes of the relocated image at the place of a piece. -/
lemma holdsRelocated (htakes : List.Forall₂ Takes elf.loads ps)
    (hfit : Fit ps elf.data img.length) (hasc : Ascending ps) (hdisj : elf.FileBackedDisjoint)
    (hwords : elf.WordsFileBacked) (hapart : WindowsApart elf.relocations) (hp : p ∈ ps)
    (hph : Takes ph p) (hstart : seg.vmaddr ≤ bias + ph.vaddr)
    (hplace : p.dst + seg.vmaddr = seg.fileoff + (bias + ph.vaddr))
    (hfile : ∀ a, p.Covers a → file[p.position a]? =
      (applyUpdates (wordUpdates bias elf.dynamicSymbols ps elf.relocations)
        (copyPieces elf.data ps img))[p.position a]?) :
    HoldsRelocated elf bias file seg ph := by
  have hsep := separate_of_takes htakes hdisj
  have hheld := windowsHeld_of_takes htakes hsep hwords
  have hposition : ∀ {a}, ph.vaddr ≤ a →
      p.position a = seg.fileoff + (bias + a - seg.vmaddr) := by
    intro a ha
    rw [Piece.position, hph.addr]
    omega
  have hlen : (applyUpdates (wordUpdates bias elf.dynamicSymbols ps elf.relocations)
      (copyPieces elf.data ps img)).length = img.length := by
    rw [length_applyUpdates, length_copyPieces hfit]
    exact inside_wordUpdates hheld (by rwa [length_copyPieces hfit])
  refine ⟨hstart, fun a ha => ?_, fun a ha hout => ?_,
    fun rel hrel hholds target additive hfix => ?_⟩
  · have hcovers := hph.covers.mpr ha
    have hle := (hfit p hp).2
    have hlt : p.position a < img.length := by
      rw [Piece.Covers] at hcovers
      rw [Piece.position]
      omega
    rw [ProgramHeader.fileBacked, Set.mem_Ico] at ha
    rw [← hposition ha.1]
    -- a byte behind the end of the file would be one behind the end of the image
    by_contra hge
    have hnone := (hfile a hcovers).symm.trans (List.getElem?_eq_none (not_lt.mp hge))
    rw [List.getElem?_eq_none_iff, hlen] at hnone
    omega
  · have hcovers := hph.covers.mpr ha
    rw [ProgramHeader.fileBacked, Set.mem_Ico] at ha
    rw [← hposition ha.1, hfile a hcovers, getElem?_relocated hfit hasc hheld hp hcovers, hph.src,
      hph.addr]
    intro rel hrel hi
    have hno := hout rel hrel hi
    rw [Set.mem_Ico] at hno
    omega
  · have hpiece := hph.holds.mpr hholds
    have hword := word_relocated bias hfit hasc hheld hapart hrel hfix
      (findPiece_of_covers hsep hp hpiece.covers)
    rw [hph.src, hph.addr] at hword
    rw [← hposition hholds.1, ← hword]
    -- the eight bytes of the word lie in one piece, so they are next to each other in the file
    refine word_congr fun i hi => ?_
    have hcovers : p.Covers (rel.offset + i) := by
      rw [Piece.Holds] at hpiece
      exact ⟨by omega, by omega⟩
    have hbyte := hfile _ hcovers
    have hpos : p.position (rel.offset + i) = p.position rel.offset + i := by
      have := hpiece.1
      simp only [Piece.position]
      omega
    rwa [hpos] at hbyte

end

/-- **A written Phase 2 file holds the relocated `PT_LOAD`s** behind its header segment. -/
theorem Phase2Translator.holdsRelocated_translate {T : Phase2Translator}
    {args : Phase2.TranslateArgs} {out : Phase2Output} (h : T.translate args = .ok out)
    (hin : T.elf.LoadsInFile) (hdisj : T.elf.FileBackedDisjoint) (hwords : T.elf.WordsFileBacked)
    (hapart : WindowsApart T.elf.relocations) :
    ∃ im, readImage out.file = some im ∧ ∀ (i : ℕ) (ph : ProgramHeader),
      T.elf.loads[i]? = some ph → ∃ seg : Segment64, im.segments[i + 1]? = some seg ∧
        HoldsRelocated T.elf T.params.slide out.file seg ph := by
  obtain ⟨st, hst, -, hread, hsame⟩ := translate_spec h
  have hrun := resolved_of_foldlM hst
  refine ⟨_, hread, fun i ph hph => ?_⟩
  obtain ⟨seg, hseg, hmaps⟩ := exists_segment hph
  have hmem := List.mem_of_getElem? hseg
  have hvm := hmaps.vmaddr
  refine ⟨seg.command, ?_, holdsRelocated T.forall₂_takes (fit_pieces hin) T.ascending_pieces
    hdisj hwords hapart (List.mem_map_of_mem hmem) hmaps.takes ?_ ?_ fun a _ => ?_⟩
  · rw [segments_file, List.getElem?_cons_succ, List.getElem?_map, hseg]
    rfl
  · change seg.vmaddr ≤ _
    omega
  · change seg.fileoff + seg.delta + seg.vmaddr = seg.fileoff + _
    omega
  · rw [hsame, hrun.image, copied_eq]
    have hle := T.pageSize_le_fileoff hmem
    rw [Piece.position]
    change _ ≤ seg.fileoff + seg.delta + _
    omega

/-- **A written Phase 3 file holds the relocated `PT_LOAD`s.** -/
theorem Phase3Translator.holdsRelocated_translate {T : Phase3Translator} {args : TranslateArgs}
    {out : Phase3Output} (h : T.translate args = .ok out) (hin : T.elf.LoadsInFile)
    (hdisj : T.elf.FileBackedDisjoint) (hwords : T.elf.WordsFileBacked)
    (hapart : WindowsApart T.elf.relocations) :
    ∃ im, readImage out.file = some im ∧ ∀ (i : ℕ) (ph : ProgramHeader),
      T.elf.loads[i]? = some ph → ∃ seg : Segment64, im.segments[i]? = some seg ∧
        HoldsRelocated T.elf T.slide out.file seg ph := by
  obtain ⟨t, hfits, rfl⟩ := translate_eq_ok.mp h
  have hcarries := hfits.carries
  refine ⟨_, hcarries.readImage, fun i ph hph => ?_⟩
  obtain ⟨seg, hseg, hmaps⟩ := exists_segment hph
  obtain ⟨cmd, hcmd, hoff, hvm, -⟩ := hcarries.segment hseg
  have hmem : seg.piece ∈ T.pieces := List.mem_map_of_mem (List.mem_of_getElem? hseg)
  have haddr := hmaps.dataAddr
  have hle := hmaps.vmaddr_le
  have hslide : T.slide = T.params.slide := rfl
  have hplace := position_eq hmaps le_rfl
  rw [Piece.position] at hplace
  refine ⟨cmd, hcmd, holdsRelocated forall₂_takes (fit_copied hin) T.ascending_pieces hdisj hwords
    hapart hmem (takes hmaps) (by omega) ?_ fun a ha => ?_⟩
  · have := (takes hmaps).addr
    omega
  · rw [hcarries.getElem?_position hin (t.relocated.length_eq hin) hmem ha, t.relocated.image,
      copied_eq]

/-! ### Two files side by side -/

lemma bionicWord_sub_modEq (bias target : ℤ) (additive : Bool) (old : ℕ) :
    (bionicWord bias target additive old : ℤ) - bias ≡
      target + (if additive then (old : ℤ) else 0) [ZMOD 2 ^ 64] := by
  rw [bionicWord, Int.ModEq]
  omega

/-- Two segments hold the same `PT_LOAD`, each at its bias: outside the internal words the
bytes are the same, and internal words have the same distance from the bias. -/
structure SameLoad (elf : Elf64) (ph : ProgramHeader) (bias₂ bias₃ : ℕ) (file₂ file₃ : Bytes)
    (seg₂ seg₃ : Segment64) : Prop where
  start₂ : seg₂.vmaddr ≤ bias₂ + ph.vaddr
  start₃ : seg₃.vmaddr ≤ bias₃ + ph.vaddr
  byte : ∀ a ∈ ph.fileBacked,
    (∀ rel ∈ elf.relocations, rel.Internal elf.dynamicSymbols →
      a ∉ Set.Ico rel.offset (rel.offset + 8)) →
    ∃ b, file₂[seg₂.fileoff + (bias₂ + a - seg₂.vmaddr)]? = some b ∧
      file₃[seg₃.fileoff + (bias₃ + a - seg₃.vmaddr)]? = some b
  word : ∀ rel ∈ elf.relocations, rel.Internal elf.dynamicSymbols → ph.HoldsWord rel.offset →
    seg₂.fileoff + (bias₂ + rel.offset - seg₂.vmaddr) + 8 ≤ file₂.length ∧
    seg₃.fileoff + (bias₃ + rel.offset - seg₃.vmaddr) + 8 ≤ file₃.length ∧
    (word file₂ (seg₂.fileoff + (bias₂ + rel.offset - seg₂.vmaddr)) : ℤ) - bias₂ ≡
      (word file₃ (seg₃.fileoff + (bias₃ + rel.offset - seg₃.vmaddr)) : ℤ) - bias₃ [ZMOD 2 ^ 64]

section

variable {elf : Elf64} {bias bias₂ bias₃ : ℕ} {file file₂ file₃ : Bytes}
  {seg seg₂ seg₃ : Segment64} {ph : ProgramHeader}

/-- The word of a relocation lies in the file. -/
lemma HoldsRelocated.word_inside (h : HoldsRelocated elf bias file seg ph) {rel : Relocation}
    (hholds : ph.HoldsWord rel.offset) :
    seg.fileoff + (bias + rel.offset - seg.vmaddr) + 8 ≤ file.length := by
  obtain ⟨hle, hend⟩ := hholds
  have hstart := h.start
  have hlast := h.inside (rel.offset + 7) ⟨by omega, by omega⟩
  omega

lemma HoldsRelocated.sameLoad (h₂ : HoldsRelocated elf bias₂ file₂ seg₂ ph)
    (h₃ : HoldsRelocated elf bias₃ file₃ seg₃ ph) :
    SameLoad elf ph bias₂ bias₃ file₂ file₃ seg₂ seg₃ where
  start₂ := h₂.start
  start₃ := h₃.start
  byte a ha hout := by
    have hsome := List.getElem?_eq_getElem (h₂.inside a ha)
    have hdata := (h₂.byte a ha hout).symm.trans hsome
    exact ⟨_, hsome, (h₃.byte a ha hout).trans hdata⟩
  word rel hrel hi hholds := by
    obtain ⟨target, additive, hfix⟩ := hi
    refine ⟨h₂.word_inside hholds, h₃.word_inside hholds, ?_⟩
    rw [h₂.word rel hrel hholds target additive hfix, h₃.word rel hrel hholds target additive hfix]
    exact (bionicWord_sub_modEq ..).trans (bionicWord_sub_modEq ..).symm

end

/-- The entries of both lists are made of the same external relocations. -/
lemma map_unresolved_eq_map_bindings {T₂ : Phase2Translator} {T₃ : Phase3Translator}
    {shimPrefix : String} {symbols : List DynamicSymbol} {rels : List Relocation}
    {img₂ img₃ : Bytes} {st₂ : Phase2State} {st₃ : RelocState}
    (h₂ : T₂.Resolved symbols rels { image := img₂ } st₂)
    (h₃ : T₃.Relocated symbols shimPrefix rels { image := img₃ } st₃) :
    st₂.unresolved.map (fun u => (u.offset, u.type, u.symbol)) =
      st₃.bindings.map fun b => (b.offset, b.type, b.symbol) := by
  obtain ⟨new, hnew, hforall⟩ := h₃.bindings
  rw [h₂.unresolved, hnew, List.nil_append, List.nil_append, List.map_map]
  refine map_eq_map_of_forall₂ hforall fun p b hb => ?_
  rw [hb.offset, hb.type, hb.symbol]
  rfl

/-- **Phase 2 and Phase 3 agree.**  The counters are the same, what Phase 2 leaves unresolved is
what Phase 3 binds, and the files hold the same `PT_LOAD`s at their biases; the segments of
Phase 2 come after the one of the header page. -/
theorem phase2_agrees_phase3 {elf : Elf64} {T₂ : Phase2Translator} {T₃ : Phase3Translator}
    {args₂ : Phase2.TranslateArgs} {args₃ : TranslateArgs} {out₂ : Phase2Output}
    {out₃ : Phase3Output} (hinit₂ : Phase2Translator.init elf .default = .ok T₂)
    (hinit₃ : Phase3Translator.init elf .default = .ok T₃)
    (h₂ : T₂.translate args₂ = .ok out₂) (h₃ : T₃.translate args₃ = .ok out₃)
    (hin : elf.LoadsInFile) (hdisj : elf.FileBackedDisjoint) (hwords : elf.WordsFileBacked)
    (hapart : WindowsApart elf.relocations) :
    out₂.report.patched = out₃.report.patched ∧
    (∃ st₂ st₃, T₂.fixups = .ok st₂ ∧ T₃.fixups args₃ = .ok st₃ ∧
      st₂.unresolved.map (fun u => (u.offset, u.type, u.symbol)) =
        st₃.bindings.map fun b => (b.offset, b.type, b.symbol)) ∧
    ∃ im₂ im₃, readImage out₂.file = some im₂ ∧ readImage out₃.file = some im₃ ∧
      ∀ (i : ℕ) (ph : ProgramHeader), elf.loads[i]? = some ph →
        ∃ seg₂ seg₃ : Segment64, im₂.segments[i + 1]? = some seg₂ ∧ im₃.segments[i]? = some seg₃ ∧
          SameLoad elf ph 0x100010000 0x10000 out₂.file out₃.file seg₂ seg₃ := by
  obtain ⟨rfl, hparams₂⟩ := Phase2Translator.init_eq_ok.mp hinit₂
  obtain ⟨helf, hparams₃⟩ := Phase3Translator.init_eq_ok.mp hinit₃
  obtain ⟨st₂, hst₂, hreport, -⟩ := Phase2Translator.translate_spec h₂
  obtain ⟨t, -, ht⟩ := Phase3Translator.translate_eq_ok.mp h₃
  have hrun₂ := Phase2Translator.resolved_of_foldlM hst₂
  have hrun₃ := t.relocated
  rw [helf] at hrun₃
  refine ⟨?_, ⟨st₂, t.st, hst₂, t.fixups, map_unresolved_eq_map_bindings hrun₂ hrun₃⟩, ?_⟩
  · rw [hreport, ht]
    exact hrun₂.patched.trans hrun₃.patched.symm
  -- each file has the relocated bytes of its phase, so the two differ by the bias alone
  · obtain ⟨im₂, him₂, hloads₂⟩ := T₂.holdsRelocated_translate h₂ hin hdisj hwords hapart
    rw [← helf] at hin hdisj hwords hapart
    obtain ⟨im₃, him₃, hloads₃⟩ := T₃.holdsRelocated_translate h₃ hin hdisj hwords hapart
    rw [helf] at hloads₃
    refine ⟨im₂, im₃, him₂, him₃, fun i ph hph => ?_⟩
    obtain ⟨seg₂, hseg₂, hholds₂⟩ := hloads₂ i ph hph
    obtain ⟨seg₃, hseg₃, hholds₃⟩ := hloads₃ i ph hph
    rw [hparams₂] at hholds₂
    rw [Phase3Translator.slide, hparams₃] at hholds₃
    exact ⟨seg₂, seg₃, hseg₂, hseg₃, hholds₂.sameLoad hholds₃⟩

/-- The small library in both translations. -/
theorem phase2_agrees_phase3_small :
    ∃ out₂ out₃ im₂ im₃, Phase2Translator.small.translate {} = .ok out₂ ∧
      Phase3Translator.small.translate {} = .ok out₃ ∧ readImage out₂.file = some im₂ ∧
      readImage out₃.file = some im₃ ∧ out₂.report.patched = out₃.report.patched ∧
      ∃ seg₂ seg₃, im₂.segments[2]? = some seg₂ ∧ im₃.segments[1]? = some seg₃ ∧
        SameLoad Elf64.smallElf ⟨1, 6, 0xB0, 0x100B0, 0x20, 0x30, 0x10000⟩ 0x100010000 0x10000
          out₂.file out₃.file seg₂ seg₃ := by
  obtain ⟨out₂, h₂⟩ := Phase2Translator.exists_output_small
  obtain ⟨out₃, h₃⟩ := Phase3Translator.exists_output_small
  obtain ⟨hpatched, -, im₂, im₃, him₂, him₃, hloads⟩ := phase2_agrees_phase3
    (Phase2Translator.init_eq_ok.mpr ⟨(rfl : _ = Elf64.smallElf), rfl⟩)
    (Phase3Translator.init_eq_ok.mpr ⟨rfl, rfl⟩) h₂ h₃ (by decide +kernel) (by decide +kernel)
    (by decide +kernel) (by decide +kernel)
  exact ⟨out₂, out₃, im₂, im₃, h₂, h₃, him₂, him₃, hpatched, hloads 1 _ (by decide +kernel)⟩

end Apk2Ios
