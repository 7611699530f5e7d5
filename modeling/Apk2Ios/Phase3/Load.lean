import Apk2Ios.MachO.Loader
import Apk2Ios.Phase3.Translate

/-!
# Phase 3: loading the image

The dynamic linker of the target, given a slide, leaves in every internal word what the
Android linker would have put there for the same load bias.
-/

namespace Apk2Ios

open Lib MachO

namespace Phase3Translator

variable {T : Phase3Translator} {args : TranslateArgs}

/-! ### The pieces of the file -/

lemma takes {ph : ProgramHeader} {seg : ImageSegment} (h : Maps T.params ph seg) :
    Takes ph seg.piece := ⟨h.elfVaddr, h.elfOffset, h.elfFilesz⟩

lemma forall₂_takes : List.Forall₂ Takes T.elf.loads T.pieces := by
  rw [pieces, List.forall₂_map_right_iff]
  exact T.maps.imp fun _ _ h => takes h

/-- The position of an address in the file, through its segment command. -/
lemma position_eq {ph : ProgramHeader} {seg : ImageSegment} (h : Maps T.params ph seg) {a : ℕ}
    (ha : ph.vaddr ≤ a) :
    seg.piece.position a = seg.fileoff + (T.slide + a - seg.vmaddr) := by
  have h1 := h.dataFileoff
  have h2 := h.dataAddr
  have h3 := h.vmaddr_le
  have h4 : T.slide = T.params.slide := rfl
  rw [ImageSegment.delta] at h1
  simp only [Piece.position, ImageSegment.piece, h.elfVaddr]
  omega

/-! ### The rebase table -/

/-- The place in the file of a location of the table. -/
def tablePlace (T : Phase3Translator) (loc : ℕ × ℕ) : ℕ :=
  ((T.segments[loc.1]?).map ImageSegment.fileoff).getD 0 + loc.2

/-- A location in the table is where the segment and the file have the word. -/
lemma location_place {a : ℕ} {loc : Location} (h : T.location a = .ok loc) :
    T.tablePlace loc.pair = loc.outputOffset ∧ ∃ ph seg,
      T.elf.loads[loc.segmentIndex]? = some ph ∧ T.segments[loc.segmentIndex]? = some seg ∧
      Maps T.params ph seg ∧ findPiece T.pieces a = some seg.piece ∧
      seg.vmaddr + loc.segmentOffset = T.slide + a := by
  obtain ⟨seg, hseg, hfind, hout, hoff⟩ := exists_segment_of_location h
  obtain ⟨ph, hph, hmaps⟩ := exists_load hseg
  have hcovers := (findPiece_eq_some hfind).2
  have hle : ph.vaddr ≤ a := by
    rw [← hmaps.elfVaddr]
    exact hcovers.1
  have hvm := hmaps.vmaddr_le
  have haddr := hmaps.dataAddr
  have hslide : T.slide = T.params.slide := rfl
  refine ⟨?_, ph, seg, hph, hseg, hmaps, hfind, by omega⟩
  simp only [tablePlace, Location.pair, hseg, Option.map_some, Option.getD_some]
  rw [hout, hoff, position_eq hmaps hle]

/-- A file that carries the image of a translation: the segments of the layout, perhaps
longer, the rebase table and the bytes behind the header reserve. -/
structure Carries (T : Phase3Translator) (st : RelocState) (file : Bytes) (im : Image) :
    Prop where
  readImage : readImage file = some im
  segment : ∀ {i : ℕ} {seg : ImageSegment}, T.segments[i]? = some seg →
    ∃ s : Segment64, im.segments[i]? = some s ∧ s.fileoff = seg.fileoff ∧ s.vmaddr = seg.vmaddr ∧
      seg.filesize ≤ s.filesize
  rebases : rebasesOf file = some ((sortedBy id st.rebases).map pointerRebase)
  length : st.image.length ≤ file.length
  image : ∀ i < st.image.length, T.params.headerReserve ≤ i → file[i]? = st.image[i]?

section

variable {shimPrefix : String} {st : RelocState} {file : Bytes} {im : Image}

/-- The location of a word that lies in its piece is inside its segment. -/
lemma Carries.fileOffset? (hfile : Carries T st file im) {a : ℕ} {loc : Location}
    (h : T.location a = .ok loc) (hwhole : FoundWhole T.pieces a) :
    im.fileOffset? loc.segmentIndex loc.segmentOffset = some loc.outputOffset := by
  obtain ⟨hplace, ph, seg, -, hseg, hmaps, hfind, hvm⟩ := location_place h
  obtain ⟨s, hs, hoff, -, hle⟩ := hfile.segment hseg
  obtain ⟨p, hp, hholds⟩ := hwhole
  obtain rfl := Option.some.inj (hfind.symm.trans hp)
  have hend := hholds.2
  have hsize := hmaps.filesize
  have hdelta : seg.delta = seg.dataAddr - seg.vmaddr := rfl
  have haddr := hmaps.dataAddr
  have hslide : T.slide = T.params.slide := rfl
  simp only [ImageSegment.piece, hmaps.elfVaddr, hmaps.elfFilesz] at hend
  rw [Image.fileOffset?, hs, Option.bind_some, if_pos (by rw [pointerSize]; omega), hoff,
    ← hplace, tablePlace, Location.pair, hseg]
  rfl

/-- The rebases and the word updates of a run are at the same places. -/
lemma map_tablePlace_rebases (rels : List Relocation) (symbols : List DynamicSymbol) :
    (rels.filterMap (T.rebase? symbols)).map T.tablePlace =
      (wordUpdates T.slide symbols T.pieces rels).map WordUpdate.pos := by
  rw [wordUpdates, List.map_filterMap, List.map_filterMap]
  refine List.filterMap_congr fun rel _ => ?_
  rw [rebase?, Relocation.internal?, Relocation.update?]
  cases hfix : rel.fixup? symbols with
  | none => simp
  | some fixup =>
    cases fixup with
    | external symbol => simp
    | internal target additive =>
      cases hloc : T.location rel.offset with
      | ok loc => simp [locate_of_location hloc, (location_place hloc).1]
      | error e =>
        have hnone : locate T.pieces rel.offset = none := by
          cases hfind : findPiece T.pieces rel.offset with
          | none => rw [locate, hfind]; rfl
          | some p =>
            obtain ⟨loc, hok⟩ := exists_location hfind
            simp [hok] at hloc
        simp [hnone]

lemma fit_copied (hin : T.elf.LoadsInFile) :
    Fit T.pieces T.elf.data (List.replicate T.dataEnd (0 : UInt8)).length := by
  rw [List.length_replicate]
  exact fit_pieces hin

/-- The places of the sorted rebases are the places of the word updates. -/
lemma Relocated.perm_places {symbols : List DynamicSymbol} {rels : List Relocation}
    {img : Bytes} (h : Relocated T symbols shimPrefix rels { image := img } st) :
    ((sortedBy id st.rebases).map T.tablePlace).Perm
      ((wordUpdates T.slide symbols T.pieces rels).map WordUpdate.pos) := by
  rw [← map_tablePlace_rebases]
  have hrebases : st.rebases = rels.filterMap (T.rebase? symbols) := h.rebases
  rw [← hrebases]
  exact (sortedBy_perm id st.rebases).map _

/-- Every rebase is found at its place. -/
lemma Carries.place_rebase (hfile : Carries T st file im) {symbols : List DynamicSymbol}
    {rels : List Relocation} {img : Bytes}
    (hrun : Relocated T symbols shimPrefix rels { image := img } st)
    (hheld : WindowsHeld T.pieces rels) {r : Rebase}
    (hr : r ∈ (sortedBy id st.rebases).map pointerRebase) :
    im.fileOffset? r.segment r.offset = some (T.tablePlace (r.segment, r.offset)) := by
  obtain ⟨pair, hmem, rfl⟩ := List.mem_map.mp hr
  have hrebases : st.rebases = rels.filterMap (T.rebase? symbols) := hrun.rebases
  rw [mem_sortedBy, hrebases] at hmem
  obtain ⟨rel, hrel, hpair⟩ := List.mem_filterMap.mp hmem
  rw [rebase?] at hpair
  split at hpair
  · rename_i loc _ hloc
    obtain rfl := Option.some.inj hpair
    have hoff := hfile.fileOffset? hloc (hheld rel hrel)
    rw [← (location_place hloc).1] at hoff
    exact hoff
  · simp at hpair

/-- The file has the bytes of the relocated image in every piece. -/
lemma Carries.getElem?_position (hfile : Carries T st file im) (hin : T.elf.LoadsInFile)
    (hlen : st.image.length = T.dataEnd) {p : Piece} (hp : p ∈ T.pieces) {a : ℕ}
    (ha : p.Covers a) : file[p.position a]? = st.image[p.position a]? := by
  have hle := (fit_pieces hin p hp).2
  obtain ⟨seg, hseg, rfl⟩ := List.mem_map.mp hp
  have hreserve := headerReserve_le hseg
  simp only [Piece.Covers, ImageSegment.piece, Piece.position] at *
  exact hfile.image _ (by omega) (by omega)

lemma Carries.word_position (hfile : Carries T st file im) (hin : T.elf.LoadsInFile)
    (hlen : st.image.length = T.dataEnd) {p : Piece} (hp : p ∈ T.pieces) {a : ℕ}
    (ha : p.Holds a) : word file (p.position a) = word st.image (p.position a) := by
  refine word_congr fun i hi => ?_
  rw [Piece.Holds] at ha
  have hcovers : p.Covers (a + i) := ⟨by omega, by omega⟩
  have hbyte := hfile.getElem?_position hin hlen hp hcovers
  have hpos : p.position (a + i) = p.position a + i := by
    simp only [Piece.position]
    omega
  rwa [hpos] at hbyte

lemma Relocated.length_eq {symbols : List DynamicSymbol} {rels : List Relocation}
    (h : Relocated T symbols shimPrefix rels { image := T.copied } st)
    (hin : T.elf.LoadsInFile) : st.image.length = T.dataEnd :=
  h.length_image.trans (length_copied hin)

/-- **Sliding the file is relocating the original with a larger bias**: internal words have
the linker's values, all other bytes are those of the original file. -/
theorem Carries.slideFile (hfile : Carries T st file im)
    (hrun : Relocated T T.elf.dynamicSymbols shimPrefix T.elf.relocations { image := T.copied } st)
    (hin : T.elf.LoadsInFile) (hheld : WindowsHeld T.pieces T.elf.relocations)
    (hapart : WindowsApart T.elf.relocations) (s : ℕ) :
    ∃ loaded, slideFile file s = some loaded ∧
      (∀ rel ∈ T.elf.relocations, ∀ p, findPiece T.pieces rel.offset = some p →
        ∀ target additive,
          rel.fixup? T.elf.dynamicSymbols = some (.internal target additive) →
          word loaded (p.position rel.offset) = bionicWord (T.slide + s) target additive
            (word T.elf.data (p.src + (rel.offset - p.addr)))) ∧
      ∀ p ∈ T.pieces, ∀ a, p.Covers a →
        (∀ rel ∈ T.elf.relocations, rel.Internal T.elf.dynamicSymbols →
          a < rel.offset ∨ rel.offset + 8 ≤ a) →
        loaded[p.position a]? = T.elf.data[p.src + (a - p.addr)]? := by
  have hfit := fit_copied hin
  have hlen := hrun.length_eq hin
  have hperm := hrun.perm_places
  -- the rebases are sorted, the relocations are not: places apart make the order irrelevant
  have hpair : ((sortedBy id st.rebases).map T.tablePlace).Pairwise Apart := by
    rw [hperm.pairwise_iff Apart.symm, List.pairwise_map]
    exact pairwise_wordUpdates T.ascending_pieces hheld hapart
  have hinside : ∀ off ∈ (sortedBy id st.rebases).map T.tablePlace, off + 8 ≤ file.length := by
    intro off hoff
    obtain ⟨u, hu, rfl⟩ := List.mem_map.mp (hperm.mem_iff.mp hoff)
    have hle := inside_wordUpdates hheld hfit u hu
    rw [List.length_replicate, ← hlen] at hle
    exact hle.trans hfile.length
  obtain ⟨hwords, hbytes⟩ := applyUpdates_slide (s := s) hinside hpair
  have hslide := slideFile_eq hfile.readImage hfile.rebases
    (fun r hr => hfile.place_rebase hrun hheld hr) s
  have hmap : ((sortedBy id st.rebases).map pointerRebase).map
      (fun r => slideUpdate s (T.tablePlace (r.segment, r.offset))) =
      ((sortedBy id st.rebases).map T.tablePlace).map (slideUpdate s) := by
    rw [List.map_map, List.map_map]
    rfl
  rw [hmap] at hslide
  refine ⟨_, hslide, ?_, ?_⟩
  · intro rel hrel p hp target additive hfix
    obtain ⟨q, hq, hholds⟩ := hheld rel hrel
    obtain rfl := Option.some.inj (hp.symm.trans hq)
    have hloc : locate T.pieces rel.offset = some (p.position rel.offset) := by
      rw [locate, hp]
      rfl
    have hu : p.position rel.offset ∈ (sortedBy id st.rebases).map T.tablePlace := by
      rw [hperm.mem_iff]
      exact List.mem_map.mpr ⟨⟨_, bionicWord T.slide target additive⟩, mem_wordUpdates.mpr
        ⟨rel, hrel, Relocation.update?_eq_some.mpr ⟨target, additive, hfix, hloc, rfl⟩⟩, rfl⟩
    -- the slide is added to the word that the relocation loop has written
    rw [hwords _ hu, hfile.word_position hin hlen (findPiece_eq_some hp).1 hholds, hrun.image,
      copied_eq, word_relocated _ hfit T.ascending_pieces hheld hapart hrel hfix hp,
      bionicWord_add]
  · intro p hp a ha hout
    have houtside : ∀ off ∈ (sortedBy id st.rebases).map T.tablePlace,
        p.position a < off ∨ off + 8 ≤ p.position a := by
      intro off hoff
      obtain ⟨u, hu, rfl⟩ := List.mem_map.mp (hperm.mem_iff.mp hoff)
      obtain ⟨rel, hrel, hu⟩ := mem_wordUpdates.mp hu
      obtain ⟨q, hq, hholds, hpos⟩ := exists_piece_of_update (hheld rel hrel) hu
      obtain ⟨target, additive, hfix, -, -⟩ := Relocation.update?_eq_some.mp hu
      rw [hpos]
      exact notMem_window T.ascending_pieces hp hq ha hholds
        (hout rel hrel ⟨target, additive, hfix⟩)
    rw [hbytes _ houtside, hfile.getElem?_position hin hlen hp ha, hrun.image, copied_eq,
      getElem?_relocated hfit T.ascending_pieces hheld hp ha hout]

end

/-! ### The file of Phase 3 -/

lemma Translation.Fits.carries {t : T.Translation args} (h : t.Fits) :
    Carries T t.st t.file (dylibImage t.commands dylibFlags) := by
  obtain ⟨hread, hlen, himage, hrebases, -⟩ := h.file_spec
  refine ⟨hread, fun {i seg} hseg => ⟨seg.command, ?_, rfl, rfl, le_rfl⟩, ?_, ?_, himage⟩
  · have hi := (List.getElem?_eq_some_iff.mp hseg).1
    rw [t.segments_file, List.getElem?_append_left (by simpa using hi), List.getElem?_map, hseg]
    rfl
  · rw [rebasesOf_eq hread t.dyldInfo?_file]
    exact (congrArg rebaseTable hrebases).trans (rebaseTable_rebaseStream t.rebaseStream)
  · have hbound := (T.linkedit_bounds t.st.image.length t.rebases.length t.binds.length).1
    have halign := le_align (v := t.linkedit.fileoff + t.linkedit.filesize) T.params.pageSize_pos
    change t.st.image.length ≤ t.linkedit.fileoff at hbound
    omega

/-- **Loading a Phase 3 image with any slide equals relocation by the Android linker.**  Every
internal word holds the linker's value for the load bias `image_base + header_reserve + s`, and
every other file-backed byte of a `PT_LOAD` is the byte of the original file; both are found
through the segment commands of the written file. -/
theorem slideFile_translate {out : Phase3Output} (h : T.translate args = .ok out)
    (hin : T.elf.LoadsInFile) (hsize : T.elf.FileszLeMemsz) (hdisj : T.elf.MemoryDisjoint)
    (hwords : T.elf.WordsFileBacked) (hapart : WindowsApart T.elf.relocations) (s : ℕ) :
    ∃ im loaded, readImage out.file = some im ∧ MachO.slideFile out.file s = some loaded ∧
      ∀ (i : ℕ) (ph : ProgramHeader), T.elf.loads[i]? = some ph →
        ∃ seg : Segment64, im.segments[i]? = some seg ∧
        seg.vmaddr ≤ T.slide + ph.vaddr ∧
        T.slide + ph.vaddr + ph.filesz ≤ seg.vmaddr + seg.filesize ∧
        (∀ rel ∈ T.elf.relocations, ph.HoldsWord rel.offset → ∀ target additive,
          rel.fixup? T.elf.dynamicSymbols = some (.internal target additive) →
          word loaded (seg.fileoff + (T.slide + rel.offset - seg.vmaddr)) =
            bionicWord (T.params.imageBase + T.params.headerReserve + s) target additive
              (word T.elf.data (ph.offset + (rel.offset - ph.vaddr)))) ∧
        ∀ a ∈ ph.fileBacked,
          (∀ rel ∈ T.elf.relocations, rel.Internal T.elf.dynamicSymbols →
            a ∉ Set.Ico rel.offset (rel.offset + 8)) →
          loaded[seg.fileoff + (T.slide + a - seg.vmaddr)]? =
            T.elf.data[ph.offset + (a - ph.vaddr)]? := by
  obtain ⟨t, hfits, rfl⟩ := translate_eq_ok.mp h
  have hsep := separate_of_takes forall₂_takes (hdisj.fileBackedDisjoint hsize)
  have hcarries := hfits.carries
  have hheld := windowsHeld_of_takes forall₂_takes hsep hwords
  obtain ⟨loaded, hslide, hinternal, hbytes⟩ :=
    hcarries.slideFile t.relocated hin hheld hapart s
  refine ⟨_, loaded, hcarries.readImage, hslide, fun i ph hph => ?_⟩
  -- from the pieces of the translator to the segment command that the file has
  obtain ⟨seg, hseg, hmaps⟩ := exists_segment hph
  obtain ⟨cmd, hcmd, hoff, hvm, hsz⟩ := hcarries.segment hseg
  have hmem : seg.piece ∈ T.pieces := List.mem_map_of_mem (List.mem_of_getElem? hseg)
  have haddr := hmaps.dataAddr
  have hle := hmaps.vmaddr_le
  have hfilesize := hmaps.filesize
  have hdelta : seg.delta = seg.dataAddr - seg.vmaddr := rfl
  have hbase : T.slide = T.params.slide := rfl
  have hbias : (T.slide : ℤ) = T.params.imageBase + T.params.headerReserve := Nat.cast_add _ _
  refine ⟨cmd, hcmd, by omega, by omega, fun rel hrel hholds target additive hfix => ?_,
    fun a ha hout => ?_⟩
  · have hpiece := (takes hmaps).holds.mpr hholds
    have hfind := findPiece_of_covers hsep hmem hpiece.covers
    have hword := hinternal rel hrel _ hfind target additive hfix
    rw [position_eq hmaps hholds.1, hbias] at hword
    rw [hoff, hvm, hword]
    simp only [ImageSegment.piece, hmaps.elfOffset, hmaps.elfVaddr]
  · have hcovers := (takes hmaps).covers.mpr ha
    rw [ProgramHeader.fileBacked, Set.mem_Ico] at ha
    have hbyte := hbytes _ hmem a hcovers fun rel hrel hi => by
      have hno := hout rel hrel hi
      rw [Set.mem_Ico] at hno
      omega
    rw [position_eq hmaps ha.1] at hbyte
    rw [hoff, hvm, hbyte]
    simp only [ImageSegment.piece, hmaps.elfOffset, hmaps.elfVaddr]

/-- The small library loaded at `0x4000000`. -/
theorem slideFile_translate_small :
    ∃ out im loaded, small.translate {} = .ok out ∧ readImage out.file = some im ∧
      MachO.slideFile out.file 0x4000000 = some loaded ∧
      ∃ seg, im.segments[1]? = some seg ∧
        word loaded (seg.fileoff + (small.slide + 0x100B8 - seg.vmaddr)) = 0x4010010 := by
  obtain ⟨out, hout⟩ := exists_output_small
  obtain ⟨im, loaded, him, hloaded, hloads⟩ := slideFile_translate hout (by decide +kernel)
    (by decide +kernel) (by decide +kernel) (by decide +kernel) (by decide +kernel) 0x4000000
  obtain ⟨seg, hseg, -, -, hword, -⟩ :=
    hloads 1 ⟨1, 6, 0xB0, 0x100B0, 0x20, 0x30, 0x10000⟩ (by decide +kernel)
  refine ⟨out, im, loaded, hout, him, hloaded, seg, hseg, ?_⟩
  exact hword ⟨0x100B8, 1027, 0, 0x10⟩ (by decide +kernel) (by decide) 0x10 false
    (by decide +kernel)

end Phase3Translator

end Apk2Ios
