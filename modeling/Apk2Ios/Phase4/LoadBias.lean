import Apk2Ios.Phase3.Placed
import Apk2Ios.Phase4.Memory
import Apk2Ios.Shim.Phdr

/-!
# Phase 4: one load bias

Four parts of a loaded image know where an address of the original file has gone: the segment
commands, the export trie, the pointers that were rebased, and the program headers that the
shim shows to an unwinder.  Each of them is computed on its own.  All of them say: to the
address of the Mach-O header, plus `0x10000`, plus the address.
-/

namespace Apk2Ios

open Lib MachO

/-! ### Pointers that are rebased -/

namespace Phase3Translator

/-- The relocation number `k` makes the word at `pos` a pointer to `v`: that is its value relative
to the bias, and no other relocation patches a byte of the word. -/
structure PointerTo (T : Phase3Translator) (k pos v : ℕ) : Prop where
  value : ∃ rel loc target additive, T.elf.relocations[k]? = some rel ∧
    T.location rel.offset = .ok loc ∧ loc.outputOffset = pos ∧
    rel.fixup? T.elf.dynamicSymbols = some (.internal target additive) ∧
    bionicWord 0 target additive (word T.copied pos) = v
  alone : ∀ j rel loc, j ≠ k → T.elf.relocations[j]? = some rel →
    rel.Internal T.elf.dynamicSymbols → T.location rel.offset = .ok loc →
    Apart loc.outputOffset pos

variable {T : Phase3Translator} {k pos v : ℕ}

/-- The update of an internal relocation is where its location is. -/
lemma exists_location_of_update {rel : Relocation} {u : WordUpdate}
    (h : rel.update? T.slide T.elf.dynamicSymbols T.pieces = some u) :
    rel.Internal T.elf.dynamicSymbols ∧
      ∃ loc, T.location rel.offset = .ok loc ∧ loc.outputOffset = u.pos := by
  obtain ⟨target, additive, hfix, hpos, -⟩ := Relocation.update?_eq_some.mp h
  refine ⟨⟨target, additive, hfix⟩, ?_⟩
  obtain ⟨p, hp, -⟩ := Option.map_eq_some_iff.mp hpos
  obtain ⟨loc, hloc⟩ := exists_location hp
  exact ⟨loc, hloc, Option.some.inj ((locate_of_location hloc).symm.trans hpos)⟩

lemma PointerTo.apart (h : T.PointerTo k pos v) {j : ℕ} (hj : j ≠ k) {rel : Relocation}
    (hrel : T.elf.relocations[j]? = some rel) {u : WordUpdate}
    (hu : rel.update? T.slide T.elf.dynamicSymbols T.pieces = some u) : Apart u.pos pos := by
  obtain ⟨hint, loc, hloc, hpos⟩ := exists_location_of_update hu
  rw [← hpos]
  exact h.alone j rel loc hj hrel hint hloc

/-- The pointer is one of the updates, and the others do not touch it. -/
lemma PointerTo.split (h : T.PointerTo k pos v) : ∃ us u vs,
    wordUpdates T.slide T.elf.dynamicSymbols T.pieces T.elf.relocations = us ++ u :: vs ∧
      u.pos = pos ∧ u.f (word T.copied pos) = (T.slide + v) % 2 ^ 64 ∧
      (∀ w ∈ us, Apart w.pos pos) ∧ ∀ w ∈ vs, Apart w.pos pos := by
  obtain ⟨rel, loc, target, additive, hrel, hloc, hpos, hfix, hvalue⟩ := h.value
  obtain ⟨hk, rfl⟩ := List.getElem?_eq_some_iff.mp hrel
  have hupdate : (T.elf.relocations[k]).update? T.slide T.elf.dynamicSymbols T.pieces =
      some ⟨pos, bionicWord T.slide target additive⟩ :=
    Relocation.update?_eq_some.mpr
      ⟨target, additive, hfix, hpos ▸ locate_of_location hloc, rfl⟩
  refine ⟨wordUpdates T.slide T.elf.dynamicSymbols T.pieces (T.elf.relocations.take k),
    ⟨pos, bionicWord T.slide target additive⟩,
    wordUpdates T.slide T.elf.dynamicSymbols T.pieces (T.elf.relocations.drop (k + 1)),
    ?_, rfl, ?_, ?_, ?_⟩
  -- the updates of the relocations before and behind number `k`
  · conv_lhs => rw [← List.take_append_drop k T.elf.relocations, List.drop_eq_getElem_cons hk]
    rw [wordUpdates, List.filterMap_append, List.filterMap_cons_some hupdate]
    rfl
  · have hadd := bionicWord_add 0 target additive (word T.copied pos) T.slide
    rw [Int.zero_add, hvalue, Nat.add_comm] at hadd
    exact hadd.symm
  · intro w hw
    obtain ⟨rel', hrel', hw⟩ := mem_wordUpdates.mp hw
    obtain ⟨j, hj, rfl⟩ := List.mem_take_iff_getElem.mp hrel'
    exact h.apart (by omega) (List.getElem?_eq_getElem (by omega)) hw
  · intro w hw
    obtain ⟨rel', hrel', hw⟩ := mem_wordUpdates.mp hw
    obtain ⟨j, hj, rfl⟩ := List.mem_drop_iff_getElem.mp hrel'
    exact h.apart (by omega) (List.getElem?_eq_getElem (by omega)) hw

/-- **A pointer in the image of a run**, before the image is slid: it lies behind the header and
points to its address, moved by the slide of the translation. -/
lemma PointerTo.word_image (h : T.PointerTo k pos v) {shimPrefix : String} {st : RelocState}
    (hrun : Relocated T T.elf.dynamicSymbols shimPrefix T.elf.relocations
      { image := T.copied } st) :
    T.params.headerReserve ≤ pos ∧ pos + 8 ≤ st.image.length ∧
      word st.image pos = (T.slide + v) % 2 ^ 64 := by
  obtain ⟨us, u, vs, hsplit, rfl, hvalue, hus, hvs⟩ := h.split
  have hinside := hrun.inside
  have himage := hrun.image
  rw [hsplit] at hinside himage
  have hle : u.pos + 8 ≤ T.copied.length :=
    hinside u (List.mem_append_right _ List.mem_cons_self)
  refine ⟨?_, ?_, ?_⟩
  · obtain ⟨rel, loc, -, -, -, hloc, hpos, -⟩ := h.value
    obtain ⟨seg, hseg, -, hout, -⟩ := exists_segment_of_location hloc
    have hreserve := headerReserve_le (List.mem_of_getElem? hseg)
    rw [← hpos, hout]
    show T.params.headerReserve ≤ seg.dataFileoff + _
    omega
  · rwa [hrun.length_image]
  · rw [himage, word_applyUpdates_split hinside hus hvs, hvalue, Nat.mod_mod]

/-- The image is intact when the ELF file has the bytes. -/
lemma Translation.intact_image {args : TranslateArgs} (t : T.Translation args)
    (hin : T.elf.BytesInFile) : PlacedIntact T.elf T.pieces T.dataEnd t.st.image := by
  have hinside := t.relocated.inside
  have himage := t.relocated.image
  simp only [copied_eq] at hinside himage
  exact (T.plan.placedIntact_iff hinside himage fun hlen => ⟨hlen, fun _ _ _ => rfl⟩).mpr hin

end Phase3Translator

/-! ### What the parts of the image say -/

/-- What the export trie of a file has for a name. -/
def exportedAs (file : Bytes) (im : Image) (name : String) : Option ExportInfo := do
  let info ← im.dyldInfo?
  (findExport (slice file info.exportOff info.exportSize) (utf8 name)).join

/-- The segment places the address `v` of the `PT_LOAD` at `m`: it claims `m`, its section for the
`PT_LOAD` puts `v` there, in the file and in memory, and there is the byte that the ELF file has
for `v`, when it has one and no relocation patches it. -/
structure PlacesAt (T : Phase3Translator) (file : Bytes) (seg : Segment64) (ph : ProgramHeader)
    (v m : ℕ) : Prop where
  claims : m ∈ seg.memory
  sec : ∃ sec ∈ seg.sections, sec.size = ph.filesz ∧ sec.addr + (v - ph.vaddr) = m ∧
    seg.vmaddr ≤ sec.addr ∧ sec.offset = seg.fileoff + (sec.addr - seg.vmaddr)
  byte : T.elf.BytesInFile → v ∈ ph.fileBacked →
    seg.fileoff + (m - seg.vmaddr) ∉ relocationWindows T.pieces T.elf.relocations →
      file[seg.fileoff + (m - seg.vmaddr)]? = T.elf.data[ph.offset + (v - ph.vaddr)]?

/-- Everything that knows where the address `v` of the `PT_LOAD` number `i` is when the image is
loaded at `base` says `base + 0x10000 + v`. -/
structure OneBias (T : Phase4Translator) (file : Bytes) (im : Image) (base i : ℕ)
    (ph : ProgramHeader) (v : ℕ) : Prop where
  segment : ∃ seg m, im.segments[i]? = some seg ∧
    PlacesAt T.toPhase3Translator file seg ph v m ∧ base + m = base + 0x10000 + v
  symbol : ∀ pre sym post, T.elf.dynamicSymbols = pre ++ sym :: post → sym.Exported →
    (∀ s ∈ post, s.Exported → s.name ≠ sym.name) → sym.value = v →
      ∃ info, exportedAs file im ("_" ++ sym.name) = some info ∧
        base + info.address = base + 0x10000 + v
  pointer : ∀ k pos loaded, T.PointerTo k pos v → slideFile file base = some loaded →
    word loaded pos = (base + 0x10000 + v) % 2 ^ 64
  headers : ∀ fname callback, base ≠ 0 → ∃ info : A2iDlPhdrInfo,
    a2iDlIteratePhdr T.elf (some ⟨fname, base⟩) (some callback) = callback info ∧
      (info.dlpiAddr + v) % 2 ^ 64 = (base + 0x10000 + v) % 2 ^ 64 ∧
      info.findLoads ((base + 0x10000 + v) % 2 ^ 64) = [phdrEntry ph]

/-- `PT_LOAD`s on different pages take different memory. -/
lemma Elf64.PagesDisjoint.memoryDisjoint {elf : Elf64} {P : Params} (h : elf.PagesDisjoint P) :
    elf.MemoryDisjoint := by
  refine h.imp ?_
  intro p q hpq
  have hend := le_align (v := P.slide + p.vaddr + p.memsz) P.pageSize_pos
  have hstart := floor_le (P.slide + q.vaddr) P.pageSize
  rw [Params.PagesApart] at hpq
  rw [ProgramHeader.memory, ProgramHeader.memory, Set.Ico_disjoint_Ico]
  omega

namespace Phase4Translator

variable {T : Phase4Translator} {args : TranslateArgs}

/-! ### The exports -/

/-- The symbols of other names do not change the export of a name. -/
lemma get?_foldl_exports {name : String} {symbols : List DynamicSymbol} {reserve : ℕ}
    (h : ∀ s ∈ symbols, s.Exported → s.name ≠ name) (d : Dict String ℕ) :
    (symbols.foldl (fun exports symbol =>
      if symbol.Exported then exports.set ("_" ++ symbol.name) (reserve + symbol.value)
      else exports) d).get? ("_" ++ name) = d.get? ("_" ++ name) := by
  induction symbols generalizing d with
  | nil => rfl
  | cons s symbols ih =>
    obtain ⟨hs, hsymbols⟩ := List.forall_mem_cons.mp h
    rw [List.foldl_cons, ih hsymbols]
    split
    · rename_i hexported
      have hne : "_" ++ name ≠ "_" ++ s.name := by
        intro heq
        exact hs hexported ((String.append_right_inj "_").mp heq).symm
      rw [Dict.get?_set, if_neg hne]
    · rfl

/-- The last symbol of a name is the one that is exported. -/
lemma get?_exports {pre post : List DynamicSymbol} {sym : DynamicSymbol}
    (hsyms : T.elf.dynamicSymbols = pre ++ sym :: post) (hexported : sym.Exported)
    (hlast : ∀ s ∈ post, s.Exported → s.name ≠ sym.name) :
    T.exports.get? ("_" ++ sym.name) = some (T.params.headerReserve + sym.value) := by
  rw [exports, hsyms, List.foldl_append, List.foldl_cons, if_pos hexported,
    get?_foldl_exports hlast, Dict.get?_set, if_pos rfl]

/-- The names of the exports have no NUL. -/
lemma nulFree_exports : ∀ p ∈ T.exports.items, NulFree p.1 := by
  have hfold : ∀ (symbols : List DynamicSymbol) (d : Dict String ℕ),
      (∀ s ∈ symbols, NulFree s.name) → (∀ name ∈ d.items.map Prod.fst, NulFree name) →
      ∀ name ∈ (symbols.foldl (fun exports symbol =>
        if symbol.Exported then
          exports.set ("_" ++ symbol.name) (T.params.headerReserve + symbol.value)
        else exports) d).items.map Prod.fst, NulFree name := by
    intro symbols
    induction symbols with
    | nil => exact fun d _ hd => hd
    | cons s symbols ih =>
      intro d hsymbols hd
      obtain ⟨hs, hsymbols⟩ := List.forall_mem_cons.mp hsymbols
      refine ih _ hsymbols ?_
      dsimp only
      split
      · intro name hname
        rcases Dict.fst_mem_setItems.mp hname with rfl | hname
        · exact NulFree.append (by decide) hs
        · exact hd name hname
      · exact hd
  intro p hp
  exact hfold T.elf.dynamicSymbols .empty (fun s hs => Elf64.nulFree_of_mem_dynamicSymbols hs)
    (fun name hname => absurd hname List.not_mem_nil) p.1 (List.mem_map_of_mem hp)

namespace Translation

variable {t : T.Translation args} {i k pos v base : ℕ} {seg : ImageSegment} {ph : ProgramHeader}

/-- The export trie of the written file has the exports. -/
lemma Fits.exportedAs (h : t.Fits) {name : String} {address : ℕ}
    (haddress : T.exports.get? name = some address) :
    exportedAs t.file (dylibImage t.commands dylibFlags) name = some ⟨0, address⟩ := by
  obtain ⟨-, -, -, htrie, -⟩ := h.file_spec
  obtain ⟨root, -, -, hlaid⟩ := laidTrie_of_buildExportTrie nulFree_exports t.buildExportTrie
  obtain ⟨r, hr, hiff⟩ := hlaid.findExport (utf8 name)
  have hsome : r = some ⟨0, address⟩ := (hiff ⟨0, address⟩).mpr ⟨name, rfl, haddress, rfl⟩
  have hslice : slice t.file t.linkedit.tables.exportOff t.linkedit.tables.exportSize = t.trie :=
    htrie
  rw [Apk2Ios.exportedAs, t.dyldInfo?_file, Option.bind_eq_bind, Option.bind_some, hslice, hr,
    hsome]
  rfl

/-! ### The bytes of the image -/

/-- The written file has the bytes of the relocated image. -/
lemma Fits.getElem?_file (h : t.Fits) {i : ℕ} (hlo : T.params.headerReserve ≤ i)
    (hi : i < t.base.st.image.length) : t.file[i]? = t.base.st.image[i]? := by
  obtain ⟨-, -, hsame, -, -⟩ := h.file_spec
  obtain ⟨-, -, himage, -, -⟩ := t.fits.file_spec
  obtain ⟨-, h1, h2, h3, -, -, -⟩ := t.bounds
  rw [hsame i hlo (by omega), himage i hi hlo]

/-- A segment command places the addresses of its `PT_LOAD`. -/
lemma Fits.placesAt (h : t.Fits) (hbase : T.params.pageSize ∣ T.params.imageBase)
    (hpages : T.elf.PagesDisjoint T.params) (hph : T.elf.loads[i]? = some ph)
    (hseg : T.segments[i]? = some seg) (hmaps : Maps T.params ph seg) (hv : v ∈ ph.memory) :
    PlacesAt T.toPhase3Translator t.file (seg.upTo (t.next i)).command ph v
      (T.params.slide + v) := by
  have hvm := hmaps.vmaddr_le
  have haddr := hmaps.dataAddr
  have hoff := hmaps.dataFileoff
  have hdelta : seg.delta = seg.dataAddr - seg.vmaddr := rfl
  rw [ProgramHeader.memory, Set.mem_Ico] at hv
  refine ⟨?_, ⟨(seg.upTo (t.next i)).dataSection, ?_, hmaps.dataSize, ?_, hvm, ?_⟩,
    fun hin hfile hout => ?_⟩
  · have hnext := t.le_next_vmaddr hbase hpages hseg
    have hend := Phase3Translator.end_eq hbase hseg hmaps
    have halign := le_align (v := T.params.slide + ph.vaddr + ph.memsz) T.params.pageSize_pos
    show seg.vmaddr ≤ T.params.slide + v ∧
      T.params.slide + v < seg.vmaddr + ((t.next i).2 - seg.vmaddr)
    omega
  · exact List.mem_cons_of_mem _ List.mem_cons_self
  · show seg.dataAddr + (v - ph.vaddr) = T.params.slide + v
    omega
  · show seg.dataFileoff = seg.fileoff + (seg.dataAddr - seg.vmaddr)
    omega
  · -- the place of the byte is that of the copied piece
    have hmem : seg.piece ∈ T.pieces := List.mem_map_of_mem (List.mem_of_getElem? hseg)
    have hpiece : T.pieces[i]? = some seg.piece := by
      rw [Phase3Translator.pieces, List.getElem?_map, hseg]
      rfl
    have hintact := t.base.intact_image hin
    rw [ProgramHeader.fileBacked, Set.mem_Ico] at hfile
    have hplace : (seg.upTo (t.next i)).command.fileoff +
        (T.params.slide + v - (seg.upTo (t.next i)).command.vmaddr) =
          seg.piece.dst + (v - ph.vaddr) := by
      show seg.fileoff + (T.params.slide + v - seg.vmaddr) = seg.dataFileoff + (v - ph.vaddr)
      omega
    have hlo := T.plan.le_dst _ hmem
    have hhi := T.plan.le_planned _ hmem
    have hsize : seg.piece.size = ph.filesz := hmaps.elfFilesz
    have hlen := hintact.length
    rw [hplace] at hout ⊢
    rw [h.getElem?_file (by omega) (by omega)]
    exact hintact.byte i ph seg.piece hph hpiece (v - ph.vaddr) (by omega) hout

/-! ### Sliding -/

lemma Fits.rebasesOf (h : t.Fits) :
    rebasesOf t.file = some ((sortedBy id t.base.st.rebases).map pointerRebase) := by
  obtain ⟨hread, -, hsame, -, -⟩ := h.file_spec
  obtain ⟨-, -, -, hrebases, -⟩ := t.fits.file_spec
  obtain ⟨h1, -, h2, h3, -, -, -⟩ := t.bounds
  have hslice : slice t.file t.linkedit.fileoff t.linkedit.rebaseSize = t.base.rebases := by
    rw [← hrebases]
    refine slice_congr fun i hi => hsame _ (by omega) ?_
    have hsize : t.linkedit.rebaseSize = t.base.linkedit.rebaseSize := rfl
    omega
  rw [rebasesOf_eq hread t.dyldInfo?_file]
  exact (congrArg rebaseTable hslice).trans (rebaseTable_rebaseStream t.base.rebaseStream)

/-- With the whole library in the file, `__LINKEDIT` starts where the data ends. -/
lemma linkedit_fileoff (t : T.Translation args) (hin : T.elf.LoadsInFile) :
    t.linkedit.fileoff = T.dataEnd := by
  show align t.base.st.image.length T.params.pageSize = T.dataEnd
  rw [t.base.relocated.length_eq hin, align_of_dvd T.params.isPage Phase3Translator.dvd_dataEnd]

lemma Fits.carries (h : t.Fits) (hin : T.elf.LoadsInFile) :
    Phase3Translator.Carries T.toPhase3Translator t.base.st t.file
      (dylibImage t.commands dylibFlags) := by
  obtain ⟨hread, hlen, -⟩ := h.file_spec
  obtain ⟨-, h1, h2, h3, h4, h5, h6⟩ := t.bounds
  refine ⟨hread, fun {i seg} hseg => ⟨_, t.getElem?_segments hseg, rfl, rfl, ?_⟩, h.rebasesOf,
    by omega, fun i hi hlo => h.getElem?_file hlo hi⟩
  show seg.filesize ≤ (t.next i).1 - seg.fileoff
  have hnext : seg.fileoff + seg.filesize ≤ (t.next i).1 := by
    rw [next_eq]
    cases hnext : T.segments[i + 1]? with
    | none =>
      have hend := Phase3Translator.filesize_le_dataEnd (List.mem_of_getElem? hseg)
      rwa [← t.linkedit_fileoff hin] at hend
    | some next =>
      rw [Option.map_some, Option.getD_some, Phase3Translator.fileoff_next hseg hnext]
      exact le_align T.params.pageSize_pos
  omega

/-- A rebase that dyld finds is at the place where the translator has patched the word. -/
lemma place_of_fileOffset? {r : Rebase}
    (hr : r ∈ (sortedBy id t.base.st.rebases).map pointerRebase) {off : ℕ}
    (hoff : (dylibImage t.commands dylibFlags).fileOffset? r.segment r.offset = some off) :
    off = T.tablePlace (r.segment, r.offset) := by
  obtain ⟨pair, hmem, rfl⟩ := List.mem_map.mp hr
  have hrebases : t.base.st.rebases =
      T.elf.relocations.filterMap (T.rebase? T.elf.dynamicSymbols) := t.base.relocated.rebases
  rw [mem_sortedBy, hrebases] at hmem
  obtain ⟨rel, -, hpair⟩ := List.mem_filterMap.mp hmem
  rw [Phase3Translator.rebase?] at hpair
  split at hpair
  · rename_i loc _ hloc
    obtain rfl := Option.some.inj hpair
    obtain ⟨-, ph, seg, -, hseg, -⟩ := Phase3Translator.location_place hloc
    have hcommand := t.getElem?_segments hseg
    change (dylibImage t.commands dylibFlags).fileOffset? loc.segmentIndex loc.segmentOffset =
      some off at hoff
    rw [Image.fileOffset?, hcommand, Option.bind_some] at hoff
    split at hoff
    · rw [← Option.some.inj hoff]
      simp only [Phase3Translator.tablePlace, pointerRebase, Location.pair, hseg,
        Option.map_some, Option.getD_some]
      rfl
    · cases hoff
  · simp at hpair

/-- **A pointer after sliding**: dyld adds the load address to it, once. -/
lemma Fits.word_loaded (h : t.Fits) (hptr : T.PointerTo k pos v) {loaded : Bytes}
    (hslide : slideFile t.file base = some loaded) :
    word loaded pos = (T.slide + v + base) % 2 ^ 64 := by
  obtain ⟨hread, hlen, -, -, -⟩ := h.file_spec
  obtain ⟨us, u, vs, hsplit, rfl, -, hus, hvs⟩ := hptr.split
  obtain ⟨hlo, hhi, hword⟩ := hptr.word_image t.base.relocated
  have hperm := t.base.relocated.perm_places
  have hloaded := eq_of_slideFile hread h.rebasesOf (fun r hr off => place_of_fileOffset? hr)
    hslide
  have hmap : ((sortedBy id t.base.st.rebases).map pointerRebase).map
      (fun r => slideUpdate base (T.tablePlace (r.segment, r.offset))) =
      ((sortedBy id t.base.st.rebases).map T.tablePlace).map (slideUpdate base) := by
    rw [List.map_map, List.map_map]
    rfl
  have hin : ∀ o ∈ (sortedBy id t.base.st.rebases).map T.tablePlace, o + 8 ≤ t.file.length := by
    intro o ho
    obtain ⟨w, hw, rfl⟩ := List.mem_map.mp (hperm.mem_iff.mp ho)
    have hle := t.base.relocated.inside w hw
    obtain ⟨-, h1, h2, h3, h4, h5, h6⟩ := t.bounds
    have himage := t.base.length_image
    show w.pos + 8 ≤ _
    change w.pos + 8 ≤ T.copied.length at hle
    omega
  rw [hsplit, List.map_append, List.map_cons] at hperm
  have hothers : ∀ o ∈ us.map WordUpdate.pos ++ vs.map WordUpdate.pos, Apart o u.pos := by
    intro o ho
    rcases List.mem_append.mp ho with ho | ho
    · obtain ⟨w, hw, rfl⟩ := List.mem_map.mp ho
      exact hus w hw
    · obtain ⟨w, hw, rfl⟩ := List.mem_map.mp ho
      exact hvs w hw
  have hfile : word t.file u.pos = word t.base.st.image u.pos :=
    word_congr fun i hi => h.getElem?_file (by omega) (by omega)
  rw [hloaded, hmap, word_slide hin (hperm.trans List.perm_middle) hothers, hfile, hword]
  exact Nat.mod_add_mod _ _ _

/-! ### All parts together -/

/-- The addresses of the `PT_LOAD`s do not wrap around when the commands can be written. -/
lemma Fits.load_end_lt (h : t.Fits) (hbase : T.params.pageSize ∣ T.params.imageBase)
    (hph : ph ∈ T.elf.loads) : T.params.slide + ph.vaddr + ph.memsz < 2 ^ 64 := by
  obtain ⟨i, hi⟩ := List.getElem?_of_mem hph
  obtain ⟨seg, hseg, hmaps⟩ := Phase3Translator.exists_segment hi
  have hend := Phase3Translator.end_eq hbase hseg hmaps
  have hle := Phase3Translator.le_linkedit_vmaddr (List.mem_of_getElem? hseg) t.base
  have halign := le_align (v := T.params.slide + ph.vaddr + ph.memsz) T.params.pageSize_pos
  have hlt : t.base.linkedit.vmaddr < 2 ^ 64 := h.commands.vmaddr
  omega

lemma Fits.oneBias (h : t.Fits) (hparams : T.params = .default)
    (hcount : T.elf.programHeaders.length < 2 ^ 16) (hpages : T.elf.PagesDisjoint .default)
    (hph : T.elf.loads[i]? = some ph) (hv : v ∈ ph.memory) :
    OneBias T t.file (dylibImage t.commands dylibFlags) base i ph v := by
  have hbase : T.params.pageSize ∣ T.params.imageBase := by
    rw [hparams]
    exact Nat.dvd_zero _
  have hslide : T.params.slide = 0x10000 := by
    rw [hparams]
    rfl
  have hreserve : T.params.headerReserve = 0x10000 := by
    rw [hparams]
    rfl
  constructor
  case segment =>
    obtain ⟨seg, hseg, hmaps⟩ := Phase3Translator.exists_segment hph
    have hplaces := h.placesAt hbase (hparams ▸ hpages) hph hseg hmaps hv
    exact ⟨_, _, t.getElem?_segments hseg, hplaces, by omega⟩
  case symbol =>
    rintro pre sym post hsyms hexported hlast rfl
    have haddress := get?_exports hsyms hexported hlast
    refine ⟨_, h.exportedAs haddress, ?_⟩
    show base + (T.params.headerReserve + sym.value) = base + 0x10000 + sym.value
    omega
  case pointer =>
    intro k pos loaded hptr hloaded
    have hword := h.word_loaded hptr hloaded
    have hslide' : T.slide = 0x10000 := hslide
    rw [hword, hslide', Nat.add_comm, ← Nat.add_assoc]
  case headers =>
    intro fname callback hne
    have hends : ∀ q ∈ T.elf.loads, 0x10000 + q.vaddr + q.memsz ≤ 2 ^ 64 := by
      intro q hq
      have hlt := h.load_end_lt hbase hq
      omega
    refine ⟨dlPhdrInfo T.elf ⟨fname, base⟩, if_neg hne, ?_, ?_⟩
    · exact Nat.mod_add_mod _ _ _
    · exact findLoads_eq_singleton hcount hends hpages.memoryDisjoint hph hv

end Translation

end Phase4Translator

/-- **One load bias.**  For an ELF file whose `PT_LOAD`s ascend on different pages of the target,
and any address at which its Phase 4 image is loaded, every address of every `PT_LOAD` goes to one
place: the segment commands, which are disjoint and put the header first, the export trie, the
rebased pointers and the program headers of the shim agree on it, and the search in these headers
finds the `PT_LOAD` and no other. -/
theorem oneBias_translate {data : Bytes} {elf : Elf64} {T : Phase4Translator} {calls : ℕ}
    {args : TranslateArgs} {out : Phase4Output} (hparse : Elf64.parse data = .ok elf)
    (hinit : Phase4Translator.init elf .default calls = .ok T) (hpages : elf.PagesDisjoint .default)
    (h : T.translate args = .ok out) (base : ℕ) :
    ∃ im header, readImage out.file = some im ∧ im.MemoryDisjoint ∧
      im.segments[0]? = some header ∧ header.fileoff = 0 ∧ header.vmaddr = 0 ∧
      ∀ (i : ℕ) (ph : ProgramHeader) (v : ℕ), elf.loads[i]? = some ph → v ∈ ph.memory →
        OneBias T out.file im base i ph v := by
  obtain ⟨T₃, hinit₃, hT⟩ := PyM.bind_eq_ok.mp hinit
  obtain rfl := PyM.pure_eq_ok.mp hT
  obtain ⟨rfl, hparams⟩ := Phase3Translator.init_eq_ok.mp hinit₃
  obtain ⟨-, hcount, -⟩ := Elf64.parse_eq_ok hparse
  obtain ⟨t, hfits, rfl⟩ := Phase4Translator.translate_eq_ok.mp h
  obtain ⟨first, rest, -, -, -, hsegs⟩ := layoutSegments_eq_ok T₃.layout
  have hfirst : T₃.segments[0]? = some (firstSegment T₃.params first) := by rw [hsegs]; rfl
  refine ⟨_, _, hfits.file_spec.1, hfits.memoryDisjoint, t.getElem?_segments hfirst, rfl, ?_, ?_⟩
  · show T₃.params.imageBase = 0
    rw [hparams]
    rfl
  · intro i ph v hph hv
    exact hfits.oneBias hparams hcount hpages hph hv

/-- The small library at `0x104000000`: its function and its pointer. -/
theorem oneBias_translate_small : ∃ out im, Phase4Translator.small.translate {} = .ok out ∧
    readImage out.file = some im ∧
    (∃ info, exportedAs out.file im "_f" = some info ∧
      0x104000000 + info.address = 0x104010020) ∧
    ∃ loaded, slideFile out.file 0x104000000 = some loaded ∧
      word loaded 0x140B8 = 0x104010010 := by
  obtain ⟨t, hfits⟩ := Phase4Translator.exists_translation_small
  have hout := Phase4Translator.translate_eq_ok.mpr ⟨t, hfits, rfl⟩
  have hinit : Phase4Translator.init Elf64.smallElf .default 1000 = .ok Phase4Translator.small :=
    PyM.bind_eq_ok.mpr ⟨_, Phase3Translator.init_eq_ok.mpr ⟨rfl, rfl⟩, rfl⟩
  obtain ⟨im, -, him, -, -, -, -, hbias⟩ :=
    oneBias_translate Elf64.parse_smallFile hinit (by decide +kernel) hout 0x104000000
  have hrels : Phase4Translator.small.elf.relocations = [⟨0x100B8, 1027, 0, 0x10⟩] :=
    Elf64.relocations_smallElf
  have hptr : Phase4Translator.small.PointerTo 0 0x140B8 0x10 := by
    refine ⟨⟨⟨0x100B8, 1027, 0, 0x10⟩, ⟨1, 0x140B8, 0xB8⟩, 0x10, false, ?_, rfl, rfl, rfl, ?_⟩, ?_⟩
    · rw [hrels]
      rfl
    · simp [bionicWord]
    · intro j rel loc hj hrel
      rw [hrels, List.getElem?_singleton, if_neg hj] at hrel
      cases hrel
  have hloads : Elf64.smallElf.loads[0]? = some ⟨1, 5, 0, 0, 0xB0, 0xB0, 0x10000⟩ := rfl
  refine ⟨_, im, hout, him, ?_, ?_⟩
  · exact (hbias 0 _ 0x20 hloads ⟨by decide, by decide⟩).symbol [⟨"", 0, 0, 0, 0, 0⟩]
      ⟨"f", 0x12, 0, 1, 0x20, 4⟩ [] Elf64.dynamicSymbols_smallElf (by decide) (by simp) rfl
  · have hin : Phase4Translator.small.elf.LoadsInFile := by decide +kernel
    have hdisj : Phase4Translator.small.elf.FileBackedDisjoint := by decide +kernel
    have hheld : WindowsHeld Phase4Translator.small.pieces _ :=
      windowsHeld_of_takes Phase3Translator.forall₂_takes
        (separate_of_takes Phase3Translator.forall₂_takes hdisj) (by decide +kernel)
    obtain ⟨loaded, hloaded, -⟩ := (hfits.carries hin).slideFile t.base.relocated hin hheld
      (by decide +kernel) 0x104000000
    exact ⟨loaded, hloaded,
      (hbias 0 _ 0x10 hloads ⟨by decide, by decide⟩).pointer 0 0x140B8 loaded hptr hloaded⟩

end Apk2Ios
