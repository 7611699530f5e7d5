import Apk2Ios.Phase4.Memory

/-!
# Phase 4: the structure of the file

The segments cover the file and the memory without gaps, their sections lie inside them, and
the tables of `__LINKEDIT` follow each other up to the end of the file.
-/

namespace Apk2Ios

open Lib MachO

namespace Phase4Translator

variable {T : Phase4Translator} {args : TranslateArgs}

namespace Translation

variable {t : T.Translation args} {i : ℕ} {seg : ImageSegment}

/-- The bytes of a segment end before the place up to which it is extended. -/
lemma le_next_fileoff (hin : T.elf.LoadsInFile) (h : T.segments[i]? = some seg) :
    seg.fileoff + seg.filesize ≤ (t.next i).1 := by
  have halign := le_align (v := seg.fileoff + seg.filesize) T.params.pageSize_pos
  rw [next_eq]
  cases hnext : T.segments[i + 1]? with
  | none =>
    have hend := Phase3Translator.filesize_le_dataEnd (List.mem_of_getElem? h)
    rw [← Phase3Translator.length_copied hin, ← t.base.length_image] at hend
    exact hend.trans t.bounds.2.1
  | some next => exact halign.trans (Phase3Translator.fileoff_next h hnext).ge

lemma nextStart_segments (linkedit : ℕ × ℕ) :
    nextStart linkedit T.segments = (0, T.params.imageBase) := by
  obtain ⟨first, rest, -, -, -, hsegs⟩ := layoutSegments_eq_ok T.layout
  rw [hsegs]
  rfl

/-- The segments cover the file up to its end. -/
lemma Fits.tiles_file (h : t.Fits) :
    Tiles 0 ((dylibImage t.commands dylibFlags).segments.map Segment64.fileRange)
      (t.strOff + 1) := by
  obtain ⟨hfile, -⟩ := tiles_stretched h.ascends
  rw [nextStart_segments] at hfile
  rw [t.segments_file, List.map_append, List.map_map, tiles_append]
  exact ⟨t.linkedit.fileoff, hfile, rfl, t.bounds.2.2.2.2.2.2⟩

/-- The segments cover the memory from the image base up to `__LINKEDIT`. -/
lemma Fits.tiles_memory (h : t.Fits) :
    Tiles T.params.imageBase
      ((t.segments.map ImageSegment.command).map Segment64.vmRange) t.linkedit.vmaddr := by
  obtain ⟨-, hvm⟩ := tiles_stretched h.ascends
  rw [nextStart_segments] at hvm
  rw [List.map_map]
  exact hvm

/-- Both sections of a segment lie inside it. -/
lemma inside_of_mem_sections (hin : T.elf.LoadsInFile) (hsize : T.elf.FileszLeMemsz)
    (hbase : T.params.pageSize ∣ T.params.imageBase) (hpages : T.elf.PagesDisjoint T.params)
    (h : T.segments[i]? = some seg) {sec : Section64}
    (hsec : sec ∈ (seg.upTo (t.next i)).command.sections) :
    sec.Inside (seg.upTo (t.next i)).command := by
  obtain ⟨ph, hph, hmaps⟩ := Phase3Translator.exists_load h
  have hle := hsize ph (List.mem_of_getElem? hph)
  have hfile := t.le_next_fileoff hin h
  have hvm := t.le_next_vmaddr hbase hpages h
  have hend := Phase3Translator.end_eq hbase h hmaps
  have halign := le_align (v := T.params.slide + ph.vaddr + ph.memsz) T.params.pageSize_pos
  have h1 := hmaps.vmaddr_le
  have h2 := hmaps.dataAddr
  have h3 := hmaps.dataFileoff
  have h4 := hmaps.filesize
  have h5 := hmaps.dataSize
  have hdelta : seg.delta = seg.dataAddr - seg.vmaddr := rfl
  rcases List.mem_cons.mp hsec with rfl | hsec
  · constructor <;>
      simp only [ImageSegment.command, ImageSegment.sentinel, ImageSegment.upTo] <;> omega
  · rcases List.mem_singleton.mp hsec with rfl
    constructor <;>
      simp only [ImageSegment.command, ImageSegment.dataSection, ImageSegment.upTo] <;> omega

end Translation

/-- **The structure of a Phase 4 file.**  For `PT_LOAD`s in the file, on different pages and
with room in memory for their bytes: the segments tile the file, `__LINKEDIT` last and up to
its end; those in front of it tile the memory, each with room for its bytes; every section lies
inside its segment, at the same distance from its start in the file and in memory; the tables
follow each other in `__LINKEDIT`; and between the header reserve and the end of the bind
stream the file is that of Phase 3. -/
theorem fileStructure (T : Phase4Translator) (args : TranslateArgs)
    (hbase : T.params.pageSize ∣ T.params.imageBase) (hin : T.elf.LoadsInFile)
    (hsize : T.elf.FileszLeMemsz) (hpages : T.elf.PagesDisjoint T.params) {out : Phase4Output}
    (h : T.translate args = .ok out) :
    ∃ im segs linkedit info strings, readImage out.file = some im ∧
      im.segments = segs ++ [linkedit] ∧ linkedit.segname = name16 "__LINKEDIT" ∧
      im.dyldInfo? = some info ∧ im.symtab? = some strings ∧
      Tiles 0 (im.segments.map Segment64.fileRange) out.file.length ∧
      Tiles T.params.imageBase (segs.map Segment64.vmRange) linkedit.vmaddr ∧
      (∀ seg ∈ im.segments, seg.filesize ≤ seg.vmsize) ∧
      (∀ seg ∈ im.segments, ∀ sec ∈ seg.sections, sec.Inside seg) ∧
      LinkeditOrder linkedit info strings out.file.length ∧
      ∃ base, T.toPhase3Translator.translate args = .ok base ∧
        info.bindOff + info.bindSize ≤ base.file.length ∧
        ∀ i, T.params.headerReserve ≤ i → i < info.bindOff + info.bindSize →
          out.file[i]? = base.file[i]? := by
  obtain ⟨t, hfits, rfl⟩ := translate_eq_ok.mp h
  obtain ⟨hread, hlen, hsame, -, -⟩ := hfits.file_spec
  obtain ⟨-, -, hrebase, hbind, hexport, hstr, hend⟩ := t.bounds
  refine ⟨_, _, _, _, t.symtab, hread, t.segments_file, rfl, t.dyldInfo?_file,
    symtab?_dylibImage _, ?_, hfits.tiles_memory,
    (Translation.holdsLoads hfits hbase hsize hpages).room, ?_, ?_, _,
    Phase3Translator.translate_eq_ok.mpr ⟨t.base, t.fits, rfl⟩, t.bindEnd_le_length, hsame⟩
  · rw [hlen]
    exact hfits.tiles_file
  · rw [t.segments_file]
    intro s hs sec hsec
    rcases List.mem_append.mp hs with hs | hs
    · obtain ⟨j, hj⟩ := List.getElem?_of_mem hs
      rw [List.getElem?_map, Translation.segments, getElem?_stretched, Option.map_map] at hj
      obtain ⟨seg, hseg, rfl⟩ := Option.map_eq_some_iff.mp hj
      exact Translation.inside_of_mem_sections hin hsize hbase hpages hseg hsec
    · rcases List.mem_singleton.mp hs with rfl
      exact absurd hsec List.not_mem_nil
  · exact ⟨le_rfl, hrebase, dvd_align isPage_eight _, hbind.le.trans hexport,
      dvd_align isPage_eight _, hstr.le, hlen.symm, hend.trans hlen.symm⟩

theorem fileStructure_small : ∃ out im, small.translate {} = .ok out ∧
    readImage out.file = some im ∧
    Tiles 0 (im.segments.map Segment64.fileRange) out.file.length := by
  obtain ⟨t, hfits⟩ := exists_translation_small
  have hout := translate_eq_ok.mpr ⟨t, hfits, rfl⟩
  obtain ⟨im, -, -, -, -, him, -, -, -, -, htiles, -⟩ := fileStructure small {}
    (by decide +kernel) (by decide +kernel) (by decide +kernel) (by decide +kernel) hout
  exact ⟨_, im, hout, him, htiles⟩

end Phase4Translator

end Apk2Ios
