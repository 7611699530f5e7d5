import Apk2Ios.Bionic
import Apk2Ios.Phase3.Commands

/-!
# Phase 2: the translation

The static translator: `PT_LOAD`s behind a header page, relocations that are known inside the
file resolved, all others counted.  Its helpers for alignment, protections and the commands
for names and versions are those of Phase 3.
-/

namespace Apk2Ios

open Lib MachO

namespace Phase2

/-- The keyword parameters of the constructor. -/
structure Params where
  headerVm : ℕ := 0x100000000
  slide : ℕ := 0x100010000
  pageSize : ℕ := 0x4000
  /-- The rounding functions are meant for page sizes only. -/
  isPage : IsPage pageSize := by exact ⟨14, rfl⟩

/-- The parameters of all callers. -/
def Params.default : Params := { isPage := isPage_16K }

lemma Params.pageSize_pos (p : Params) : 0 < p.pageSize := p.isPage.pos

/-- The keyword arguments of `translate`. -/
structure TranslateArgs where
  installName : String := "@rpath/libil2cpp_ported.dylib"
  minIos : ℕ × ℕ × ℕ := (12, 0, 0)

end Phase2

/-- `MappedLoad`: a Mach-O segment and the `PT_LOAD` in it. -/
structure MappedLoad where
  name : String
  vmaddr : ℕ
  vmsize : ℕ
  fileoff : ℕ
  filesize : ℕ
  maxprot : ℕ
  initprot : ℕ
  delta : ℕ
  elfVaddr : ℕ
  elfOffset : ℕ
  elfFilesz : ℕ
  elfMemsz : ℕ
deriving DecidableEq, Repr

/-- `_segment_command(seg)`. -/
def segmentCommand (seg : MappedLoad) : PyM Bytes :=
  structPack [.I lcSegment64, .I 72, .s (name16 seg.name), .Q seg.vmaddr, .Q seg.vmsize,
    .Q seg.fileoff, .Q seg.filesize, .i seg.maxprot, .i seg.initprot, .I 0, .I 0]

/-- The bytes of the `PT_LOAD` and their place in the image. -/
def MappedLoad.piece (seg : MappedLoad) : Piece :=
  ⟨seg.elfVaddr, seg.elfOffset, seg.elfFilesz, seg.fileoff + seg.delta⟩

/-- The segment command that is meant. -/
def MappedLoad.command (seg : MappedLoad) : Segment64 :=
  ⟨name16 seg.name, seg.vmaddr, seg.vmsize, seg.fileoff, seg.filesize, seg.maxprot, seg.initprot,
    0, []⟩

/-! ### `_map_loads` -/

section

variable (p : Phase2.Params)

/-- The segment of a `PT_LOAD`, from its number and the end of the file so far. -/
def mapLoad (loadIndex cursor : ℕ) (ph : ProgramHeader) : MappedLoad :=
  let newVm := p.slide + ph.vaddr
  let vmFloor := floor newVm p.pageSize
  let delta := newVm - vmFloor
  let fileoff := align cursor p.pageSize
  let prot := machProt ph.flags
  { name :=
      if ph.flags &&& 1 ≠ 0 then "__ELF_TEXT"
      else if ph.flags &&& 2 ≠ 0 then "__ELF_DATA"
      else "__ELF_" ++ toString loadIndex
    vmaddr := vmFloor
    vmsize := align (delta + ph.memsz) p.pageSize
    fileoff := fileoff
    filesize := delta + ph.filesz
    maxprot := prot
    initprot := prot
    delta := delta
    elfVaddr := ph.vaddr
    elfOffset := ph.offset
    elfFilesz := ph.filesz
    elfMemsz := ph.memsz }

def mapLoadsFrom : ℕ → ℕ → List ProgramHeader → List MappedLoad
  | _, _, [] => []
  | loadIndex, cursor, ph :: phs =>
    let seg := mapLoad p loadIndex cursor ph
    seg :: mapLoadsFrom (loadIndex + 1) (align (seg.fileoff + seg.delta + ph.filesz) p.pageSize) phs

/-- `_map_loads()`, from the `PT_LOAD` headers.  The first page is for the header. -/
def mapLoads (phs : List ProgramHeader) : PyM (List MappedLoad) := do
  let result := mapLoadsFrom p 0 p.pageSize phs
  raiseIf (result = []) (.translate .noLoad)
  return result

end

/-! ### The translator -/

/-- `Phase2Translator`: the file, the parameters and the layout, with what the constructor
checks. -/
structure Phase2Translator where
  elf : Elf64
  params : Phase2.Params
  loads : List MappedLoad
  machine : elf.eMachine = emAarch64
  type : elf.eType = etDyn
  layout : mapLoads params elf.loads = .ok loads

/-- A relocation that waits for another library. -/
structure Unresolved where
  offset : ℕ
  type : ℕ
  symbol : String
  addend : ℤ
deriving DecidableEq, Repr

/-- The variables of the loop over the relocations. -/
structure Phase2State where
  image : Bytes
  patched : Patched := {}
  unresolved : List Unresolved := []

/-- A row of the list of segments of the report. -/
structure Phase2Row where
  name : String
  vmaddr : String
  vmsize : String
  fileoff : String
  filesize : String
  protection : ℕ
  elfVaddr : String
deriving DecidableEq, Repr

/-- The report of a translation. -/
structure Phase2Report where
  outputSize : ℕ
  headerVm : String
  elfSlide : String
  segments : List Phase2Row
  patched : Patched
  patchedTotal : ℕ
  unresolvedRelocations : ℕ
  unresolvedSymbolCount : ℕ
  unresolvedSymbols : List String
  note : String
deriving DecidableEq, Repr

/-- A written file and its report. -/
structure Phase2Output where
  file : Bytes
  report : Phase2Report
deriving DecidableEq, Repr

def phase2Note : String :=
  "Phase 2 output is not runnable yet: external imports, Darwin ABI shims, dyld import " ++
    "metadata, code signing, and Unity runtime integration are intentionally not implemented."

def MappedLoad.row (seg : MappedLoad) : Phase2Row where
  name := seg.name
  vmaddr := hex seg.vmaddr
  vmsize := hex seg.vmsize
  fileoff := hex seg.fileoff
  filesize := hex seg.filesize
  protection := seg.initprot
  elfVaddr := hex seg.elfVaddr

namespace Phase2Translator

/-- `Phase2Translator(elf, …)`. -/
def init (elf : Elf64) (p : Phase2.Params) : PyM Phase2Translator :=
  if hmachine : elf.eMachine = emAarch64 then
    if htype : elf.eType = etDyn then
      match hlayout : mapLoads p elf.loads with
      | .error e => .error e
      | .ok loads => .ok ⟨elf, p, loads, hmachine, htype, hlayout⟩
    else .error (.translate .type)
  else .error (.translate .machine)

variable (T : Phase2Translator)

/-- The copied pieces of the file. -/
def pieces : List Piece := T.loads.map MappedLoad.piece

/-- `_vaddr_to_output_offset(vaddr)`. -/
def vaddrToOutputOffset (vaddr : ℕ) : PyM ℕ :=
  match T.loads.find? fun seg => seg.elfVaddr ≤ vaddr ∧ vaddr < seg.elfVaddr + seg.elfFilesz with
  | none => .error (.translate (.target vaddr))
  | some seg => .ok (seg.fileoff + seg.delta + (vaddr - seg.elfVaddr))

/-! ### `translate` -/

/-- The end of the copied data, rounded to a page. -/
def dataEnd : ℕ :=
  (T.loads.map fun x => align (x.fileoff + x.filesize) T.params.pageSize).foldl max 0

/-- The image before relocation. -/
def copied : Bytes :=
  T.loads.foldl
    (fun image seg => sliceAssign image (seg.fileoff + seg.delta) seg.elfFilesz
      (slice T.elf.data seg.elfOffset seg.elfFilesz))
    (List.replicate T.dataEnd 0)

def relocateRelative (st : Phase2State) (dst : ℕ) (rel : Relocation) : PyM Phase2State := do
  let image ← packInto st.image dst (wrap64 (T.params.slide + rel.addend))
  return { st with
    image := image
    patched := { st.patched with relative := st.patched.relative + 1 } }

def relocateInternal (st : Phase2State) (dst : ℕ) (rel : Relocation) (symbol : DynamicSymbol) :
    PyM Phase2State := do
  let p ← internalValue T.params.slide st.image st.patched dst rel symbol
  let image ← packInto st.image dst (wrap64 p.1)
  return { st with image := image, patched := p.2 }

/-- The body of the loop over the relocations. -/
def relocate (symbols : List DynamicSymbol) (st : Phase2State) (rel : Relocation) :
    PyM Phase2State := do
  let dst ← T.vaddrToOutputOffset rel.offset
  if rel.type = rAarch64Relative then T.relocateRelative st dst rel
  else if rel.type ∉ [rAarch64Abs64, rAarch64GlobDat, rAarch64JumpSlot] then
    .error (.translate (.unsupported rel.type rel.offset))
  else
    match symbols[rel.symbolIndex]? with
    | none => .error (.translate (.symbolIndex rel.symbolIndex))
    | some symbol =>
      if symbol.shndx = shnUndef then
        return { st with
          unresolved := st.unresolved ++ [⟨rel.offset, rel.type, symbol.name, rel.addend⟩] }
      else T.relocateInternal st dst rel symbol

/-- The loop over the relocations. -/
def fixups : PyM Phase2State :=
  T.elf.relocations.foldlM (T.relocate T.elf.dynamicSymbols) { image := T.copied }

/-- The segment of the header page, which reaches up to the slide. -/
def headerSegment : MappedLoad where
  name := "__HEADER"
  vmaddr := T.params.headerVm
  vmsize := T.params.slide - T.params.headerVm
  fileoff := 0
  filesize := T.params.pageSize
  maxprot := 1
  initprot := 1
  delta := 0
  elfVaddr := 0
  elfOffset := 0
  elfFilesz := 0
  elfMemsz := 0

/-- The command of the header page.  A negative size can not be packed. -/
def headerCommand : PyM Bytes := do
  raiseIf (T.params.slide < T.params.headerVm) .struct
  segmentCommand T.headerSegment

/-- The list `commands`. -/
def commands (args : Phase2.TranslateArgs) : PyM (List Bytes) := do
  let header ← T.headerCommand
  let segments ← T.loads.mapM segmentCommand
  let idDylib ← dylibCommand lcIdDylib args.installName
  let buildVersion ← buildVersionCommand args.minIos
  return header :: segments ++ [idDylib, buildVersion]

/-- `sorted({item["symbol"] for item in unresolved if item["symbol"]})`. -/
def unresolvedSymbols (unresolved : List Unresolved) : List String :=
  sortedSet ((unresolved.map Unresolved.symbol).filter (· ≠ ""))

def reportOf (st : Phase2State) (file : Bytes) : Phase2Report where
  outputSize := file.length
  headerVm := hex T.params.headerVm
  elfSlide := hex T.params.slide
  segments := T.loads.map MappedLoad.row
  patched := st.patched
  patchedTotal := st.patched.relative + st.patched.internalAbs64 + st.patched.internalGlobDat +
    st.patched.internalJumpSlot
  unresolvedRelocations := st.unresolved.length
  unresolvedSymbolCount := (unresolvedSymbols st.unresolved).length
  unresolvedSymbols := unresolvedSymbols st.unresolved
  note := phase2Note

/-- `translate(output, …)`. -/
def translate (args : Phase2.TranslateArgs) : PyM Phase2Output := do
  -- `bytearray(end)`; memory for a smaller image is taken to be there
  raiseIf (2 ^ 63 ≤ T.dataEnd) .overflow
  let st ← T.fixups
  let commands ← T.commands args
  let file ← emitCommands commands 0 T.params.pageSize (.translate .commands) st.image
  return ⟨file, T.reportOf st file⟩

end Phase2Translator

/-! ### The layout -/

/-- The segment of a `PT_LOAD`: its data comes after the same number of bytes in the file and
in memory, behind the header page. -/
structure MapsLoad (p : Phase2.Params) (ph : ProgramHeader) (seg : MappedLoad) : Prop where
  takes : Takes ph seg.piece
  vmaddr : seg.vmaddr + seg.delta = p.slide + ph.vaddr
  filesize : seg.filesize = seg.delta + ph.filesz

lemma mapsLoad_mapLoad (p : Phase2.Params) (loadIndex cursor : ℕ) (ph : ProgramHeader) :
    MapsLoad p ph (mapLoad p loadIndex cursor ph) where
  takes := ⟨rfl, rfl, rfl⟩
  vmaddr := Nat.add_sub_cancel' (floor_le _ _)
  filesize := rfl

section

variable {p : Phase2.Params} {phs : List ProgramHeader} {seg : MappedLoad}
  {loadIndex cursor : ℕ}

lemma forall₂_mapLoadsFrom :
    List.Forall₂ (MapsLoad p) phs (mapLoadsFrom p loadIndex cursor phs) := by
  induction phs generalizing loadIndex cursor with
  | nil => exact .nil
  | cons ph phs ih => exact .cons (mapsLoad_mapLoad p _ _ ph) ih

lemma le_fileoff_mapLoadsFrom (h : seg ∈ mapLoadsFrom p loadIndex cursor phs) :
    cursor ≤ seg.fileoff := by
  induction phs generalizing loadIndex cursor with
  | nil => simp [mapLoadsFrom] at h
  | cons ph phs ih =>
    have hcursor : cursor ≤ (mapLoad p loadIndex cursor ph).fileoff := le_align p.pageSize_pos
    rcases List.mem_cons.mp h with rfl | h
    · exact hcursor
    · have hle := (le_align p.pageSize_pos).trans (ih h)
      omega

lemma pairwise_mapLoadsFrom : (mapLoadsFrom p loadIndex cursor phs).Pairwise
    fun s t => s.fileoff + s.filesize ≤ t.fileoff := by
  induction phs generalizing loadIndex cursor with
  | nil => exact .nil
  | cons ph phs ih =>
    refine .cons (fun seg hseg => ?_) ih
    have hle := (le_align p.pageSize_pos).trans (le_fileoff_mapLoadsFrom hseg)
    have hsize := (mapsLoad_mapLoad p loadIndex cursor ph).filesize
    omega

lemma mapLoads_eq_ok {loads : List MappedLoad} (h : mapLoads p phs = .ok loads) :
    loads = mapLoadsFrom p 0 p.pageSize phs := by
  obtain ⟨-, -, h⟩ := PyM.bind_eq_ok.mp h
  exact (PyM.pure_eq_ok.mp h).symm

end

namespace Phase2Translator

variable {T : Phase2Translator}

/-- The constructor accepts exactly the files and parameters that have a translator. -/
lemma init_eq_ok {elf : Elf64} {p : Phase2.Params} :
    init elf p = .ok T ↔ T.elf = elf ∧ T.params = p := by
  constructor
  · intro h
    rw [init] at h
    split_ifs at h with hmachine htype
    split at h
    · simp at h
    · obtain rfl := Except.ok.inj h
      exact ⟨rfl, rfl⟩
  · rintro ⟨rfl, rfl⟩
    rw [init, dif_pos T.machine, dif_pos T.type]
    split
    · rename_i hlayout
      simp [T.layout] at hlayout
    · rename_i hlayout
      obtain rfl := Except.ok.inj (T.layout.symm.trans hlayout)
      rfl

lemma maps : List.Forall₂ (MapsLoad T.params) T.elf.loads T.loads := by
  rw [mapLoads_eq_ok T.layout]
  exact forall₂_mapLoadsFrom

lemma forall₂_takes : List.Forall₂ Takes T.elf.loads T.pieces := by
  rw [pieces, List.forall₂_map_right_iff]
  exact T.maps.imp fun _ _ h => h.takes

lemma exists_segment {i : ℕ} {ph : ProgramHeader} (h : T.elf.loads[i]? = some ph) :
    ∃ seg, T.loads[i]? = some seg ∧ MapsLoad T.params ph seg := by
  obtain ⟨hi, rfl⟩ := List.getElem?_eq_some_iff.mp h
  have hlen := T.maps.length_eq
  exact ⟨T.loads[i], List.getElem?_eq_getElem (by omega), T.maps.get hi (by omega)⟩

lemma exists_load_of_mem {seg : MappedLoad} (h : seg ∈ T.loads) :
    ∃ ph ∈ T.elf.loads, MapsLoad T.params ph seg := exists_of_mem_forall₂ T.maps h

/-- The data lies behind the header page. -/
lemma pageSize_le_fileoff {seg : MappedLoad} (h : seg ∈ T.loads) :
    T.params.pageSize ≤ seg.fileoff := by
  rw [mapLoads_eq_ok T.layout] at h
  exact le_fileoff_mapLoadsFrom h

lemma ascending_pieces : Ascending T.pieces := by
  have hpairs : T.loads.Pairwise fun s t => s.fileoff + s.filesize ≤ t.fileoff := by
    rw [mapLoads_eq_ok T.layout]
    exact pairwise_mapLoadsFrom
  rw [Ascending, pieces, List.pairwise_map]
  refine hpairs.imp_of_mem fun {s t} hs _ hst => ?_
  obtain ⟨ph, -, hmaps⟩ := exists_load_of_mem hs
  have hsize := hmaps.filesize
  have htakes : s.elfFilesz = ph.filesz := hmaps.takes.size
  simp only [MappedLoad.piece]
  omega

lemma vaddrToOutputOffset_eq_ok {vaddr dst : ℕ} :
    T.vaddrToOutputOffset vaddr = .ok dst ↔ locate T.pieces vaddr = some dst := by
  have hfind : locate T.pieces vaddr = (T.loads.find? fun seg =>
      seg.elfVaddr ≤ vaddr ∧ vaddr < seg.elfVaddr + seg.elfFilesz).map
        fun seg => seg.fileoff + seg.delta + (vaddr - seg.elfVaddr) := by
    rw [locate, findPiece, pieces, List.find?_map, Option.map_map]
    rfl
  rw [vaddrToOutputOffset, hfind]
  cases T.loads.find? fun seg => seg.elfVaddr ≤ vaddr ∧ vaddr < seg.elfVaddr + seg.elfFilesz with
  | none => simp
  | some seg => simp

lemma copied_eq : T.copied = copyPieces T.elf.data T.pieces (List.replicate T.dataEnd 0) := by
  rw [copied, pieces, copyPieces, List.foldl_map]
  rfl

lemma fit_pieces (h : T.elf.LoadsInFile) :
    Fit T.pieces T.elf.data (List.replicate T.dataEnd (0 : UInt8)).length := by
  intro p hp
  obtain ⟨seg, hseg, rfl⟩ := List.mem_map.mp hp
  obtain ⟨ph, hph, hmaps⟩ := exists_load_of_mem hseg
  have hin := h ph hph
  have hend : align (seg.fileoff + seg.filesize) T.params.pageSize ≤ T.dataEnd :=
    le_foldl_max.2 _ (List.mem_map_of_mem hseg)
  have halign := le_align (v := seg.fileoff + seg.filesize) T.params.pageSize_pos
  have hsize := hmaps.filesize
  have hdst : seg.piece.dst = seg.fileoff + seg.delta := rfl
  rw [List.length_replicate, hmaps.takes.src, hmaps.takes.size, hdst]
  omega

/-! ### The relocation loop -/

variable {symbols : List DynamicSymbol} {st st' : Phase2State} {rel : Relocation}
  {rels : List Relocation}

/-- The entry of a relocation that is not resolved. -/
def unresolvedOf (p : Relocation × DynamicSymbol) : Unresolved :=
  ⟨p.1.offset, p.1.type, p.2.name, p.1.addend⟩

/-- The state after patching a word with a value relative to the slide. -/
def patch (T : Phase2Translator) (st : Phase2State) (dst : ℕ) (rel : Relocation) (target : ℤ)
    (additive : Bool) : Phase2State :=
  { st with
    image := WordUpdate.apply ⟨dst, bionicWord T.params.slide target additive⟩ st.image
    patched := st.patched.count rel.type }

lemma relocateRelative_eq_ok {dst : ℕ} (htype : rel.type = rAarch64Relative) :
    T.relocateRelative st dst rel = .ok st' ↔
      dst + 8 ≤ st.image.length ∧ st' = T.patch st dst rel rel.addend false := by
  simp only [relocateRelative, PyM.bind_eq_ok, packInto_eq_ok, PyM.pure_eq_ok, patch,
    apply_bionicWord, Patched.count, if_pos htype, Bool.false_eq_true, if_false, add_zero]
  constructor
  · rintro ⟨_, ⟨h, rfl⟩, rfl⟩
    exact ⟨h, rfl⟩
  · rintro ⟨h, rfl⟩
    exact ⟨_, ⟨h, rfl⟩, rfl⟩

lemma relocateInternal_eq_ok {dst : ℕ} {symbol : DynamicSymbol}
    (htype : rel.type ≠ rAarch64Relative) :
    T.relocateInternal st dst rel symbol = .ok st' ↔ dst + 8 ≤ st.image.length ∧
      st' = T.patch st dst rel (symbol.value + rel.addend) (rel.type = rAarch64Abs64) := by
  simp only [relocateInternal, PyM.bind_eq_ok, internalValue_eq_ok htype, packInto_eq_ok,
    PyM.pure_eq_ok, patch, apply_bionicWord, decide_eq_true_eq]
  constructor
  · rintro ⟨_, ⟨-, rfl⟩, _, ⟨h, rfl⟩, rfl⟩
    exact ⟨h, rfl⟩
  · rintro ⟨h, rfl⟩
    exact ⟨_, ⟨fun _ => h, rfl⟩, _, ⟨h, rfl⟩, rfl⟩

/-- **What one step does**: it finds the word, and patches it or lists it as unresolved. -/
theorem relocate_eq_ok : T.relocate symbols st rel = .ok st' ↔
    ∃ dst, locate T.pieces rel.offset = some dst ∧
      ((∃ target additive, rel.fixup? symbols = some (.internal target additive) ∧
          dst + 8 ≤ st.image.length ∧ st' = T.patch st dst rel target additive) ∨
        ∃ symbol, rel.fixup? symbols = some (.external symbol) ∧
          st' = { st with unresolved := st.unresolved ++ [unresolvedOf (rel, symbol)] }) := by
  rw [relocate, PyM.bind_eq_ok]
  simp only [vaddrToOutputOffset_eq_ok]
  refine exists_congr fun dst => and_congr_right fun _ => ?_
  -- the branches of the loop body are those of `fixup?`: relative, by symbol, unsupported
  by_cases hrel : rel.type = rAarch64Relative
  · rw [if_pos hrel, relocateRelative_eq_ok hrel, Relocation.fixup?_relative hrel]
    simp
  · rw [if_neg hrel, Relocation.fixup?, if_neg hrel]
    by_cases htype : rel.type ∉ [rAarch64Abs64, rAarch64GlobDat, rAarch64JumpSlot]
    · rw [if_pos htype, if_pos htype]
      simp
    · rw [if_neg htype, if_neg htype]
      cases hsym : symbols[rel.symbolIndex]? with
      | none => simp
      | some symbol =>
        by_cases hundef : symbol.shndx = shnUndef
        · simp only [hundef, if_true, Option.map_some, Option.some.injEq, Fixup.external.injEq,
            reduceCtorEq, false_and, exists_false, false_or, exists_eq_left', PyM.pure_eq_ok]
          exact eq_comm
        · simp only [if_neg hundef, Option.map_some, Option.some.injEq, Fixup.internal.injEq,
            relocateInternal_eq_ok hrel, reduceCtorEq, false_and, exists_false, or_false]
          constructor
          · exact fun h => ⟨_, _, ⟨rfl, rfl⟩, h⟩
          · rintro ⟨_, _, ⟨rfl, rfl⟩, h⟩
            exact h

/-- The state after a run, in terms of the relocations. -/
structure Resolved (T : Phase2Translator) (symbols : List DynamicSymbol)
    (rels : List Relocation) (st st' : Phase2State) : Prop where
  image : st'.image = applyUpdates (wordUpdates T.params.slide symbols T.pieces rels) st.image
  length_image : st'.image.length = st.image.length
  unresolved : st'.unresolved =
    st.unresolved ++ (rels.filterMap (Relocation.external? symbols)).map unresolvedOf
  patched : st'.patched =
    (rels.filterMap (Relocation.internal? symbols)).foldl Patched.count st.patched

lemma resolved_single (h : T.relocate symbols st rel = .ok st') :
    Resolved T symbols [rel] st st' := by
  obtain ⟨dst, hloc, hcase⟩ := relocate_eq_ok.mp h
  rcases hcase with ⟨target, additive, hfix, hle, rfl⟩ | ⟨symbol, hfix, rfl⟩
  · have hupdate : rel.update? T.params.slide symbols T.pieces =
        some ⟨dst, bionicWord T.params.slide target additive⟩ :=
      Relocation.update?_eq_some.mpr ⟨target, additive, hfix, hloc, rfl⟩
    refine ⟨?_, WordUpdate.length_apply hle, ?_, ?_⟩
    · simp [wordUpdates, hupdate, patch]
    · simp [Relocation.external?, hfix, patch]
    · simp [Relocation.internal?, hfix, patch]
  · have hupdate : rel.update? T.params.slide symbols T.pieces = none := by
      simp [Relocation.update?, hfix]
    refine ⟨?_, rfl, ?_, ?_⟩
    · simp [wordUpdates, hupdate]
    · simp [Relocation.external?, hfix]
    · simp [Relocation.internal?, hfix]

lemma Resolved.append {rels' : List Relocation} {st₁ : Phase2State}
    (h : Resolved T symbols rels st st₁) (h' : Resolved T symbols rels' st₁ st') :
    Resolved T symbols (rels ++ rels') st st' := by
  refine ⟨?_, h'.length_image.trans h.length_image, ?_, ?_⟩
  · rw [wordUpdates, List.filterMap_append, applyUpdates_append, h'.image, h.image]
    rfl
  · rw [h'.unresolved, h.unresolved, List.filterMap_append, List.map_append, List.append_assoc]
  · rw [h'.patched, h.patched, List.filterMap_append, List.foldl_append]

/-- **What the relocation loop does.** -/
theorem resolved_of_foldlM (h : rels.foldlM (T.relocate symbols) st = .ok st') :
    Resolved T symbols rels st st' := by
  induction rels generalizing st with
  | nil =>
    obtain rfl := PyM.pure_eq_ok.mp h
    exact ⟨rfl, rfl, by simp, rfl⟩
  | cons rel rels ih =>
    rw [List.foldlM_cons, PyM.bind_eq_ok] at h
    obtain ⟨st₁, hstep, hrest⟩ := h
    exact (resolved_single hstep).append (ih hrest)

end Phase2Translator

/-! ### The written file -/

/-- All fields are in the range of their formats. -/
def MappedLoad.Packs (seg : MappedLoad) : Prop :=
  seg.vmaddr < 2 ^ 64 ∧ seg.vmsize < 2 ^ 64 ∧ seg.fileoff < 2 ^ 64 ∧ seg.filesize < 2 ^ 64 ∧
    seg.maxprot < 2 ^ 31 ∧ seg.initprot < 2 ^ 31

instance : DecidablePred MappedLoad.Packs := fun _ => inferInstanceAs (Decidable (_ ∧ _))

lemma segmentCommand_eq_ok {seg : MappedLoad} {bs : Bytes} :
    segmentCommand seg = .ok bs ↔ seg.Packs ∧ bs = (LoadCommand.segment seg.command).encode := by
  rw [segmentCommand, structPack_eq_ok]
  refine and_congr ?_ (Eq.congr_right ?_)
  · simp [Field.Fits, lcSegment64, MappedLoad.Packs]
  · simp [LoadCommand.encode, LoadCommand.cmd, LoadCommand.cmdsize, LoadCommand.body,
      Segment64.encode, MappedLoad.command, Field.bytes, words, lcSegment64]

lemma MappedLoad.Packs.valid {seg : MappedLoad} (h : seg.Packs) :
    (LoadCommand.segment seg.command).Valid := by
  obtain ⟨h1, h2, h3, h4, h5, h6⟩ := h
  have h5' : seg.maxprot < 2 ^ 32 := by omega
  have h6' : seg.initprot < 2 ^ 32 := by omega
  refine ⟨⟨length_name16 _, h1, h2, h3, h4, h5', h6', ?_, ?_, ?_⟩, ?_⟩
  · simp [command]
  · simp [command]
  · simp [command]
  · simp [LoadCommand.cmdsize, LoadCommand.body, Segment64.encode, command]

namespace Phase2Translator

variable {T : Phase2Translator} {args : Phase2.TranslateArgs} {out : Phase2Output}

/-- The commands that are meant. -/
def loadCommands (T : Phase2Translator) (args : Phase2.TranslateArgs) : List LoadCommand :=
  .segment T.headerSegment.command :: T.loads.map (fun seg => .segment seg.command) ++
    [.idDylib (namedDylib args.installName), .buildVersion (iosVersion args.minIos)]

/-- Every number of the commands fits its field. -/
def CommandsFit (T : Phase2Translator) (args : Phase2.TranslateArgs) : Prop :=
  T.params.headerVm ≤ T.params.slide ∧ T.headerSegment.Packs ∧ (∀ seg ∈ T.loads, seg.Packs) ∧
    (LoadCommand.idDylib (namedDylib args.installName)).cmdsize < 2 ^ 32 ∧
    packedVersion args.minIos < 2 ^ 32

instance : Decidable (T.CommandsFit args) := inferInstanceAs (Decidable (_ ∧ _))

lemma commands_eq_ok {cs : List Bytes} : T.commands args = .ok cs ↔
    T.CommandsFit args ∧ cs = (T.loadCommands args).map LoadCommand.encode := by
  have hid := dylibCommand_eq_ok lcIdDylib args.installName
    (c := .idDylib (namedDylib args.installName)) rfl rfl (by decide)
  have hsegs : ∀ cs, T.loads.mapM segmentCommand = .ok cs ↔ (∀ seg ∈ T.loads, seg.Packs) ∧
      cs = T.loads.map fun seg => (LoadCommand.segment seg.command).encode := fun cs =>
    PyM.mapM_eq_ok_map fun seg bs => by rw [segmentCommand_eq_ok, eq_comm (a := bs)]
  simp only [commands, headerCommand, PyM.bind_eq_ok, PyM.raiseIf_eq_ok, segmentCommand_eq_ok,
    hsegs, hid, buildVersionCommand_eq_ok, PyM.pure_eq_ok, not_lt]
  constructor
  · rintro ⟨_, ⟨_, h1, h2, rfl⟩, _, ⟨h3, rfl⟩, _, ⟨h4, rfl⟩, _, ⟨h5, rfl⟩, rfl⟩
    refine ⟨⟨h1, h2, h3, h4, h5⟩, ?_⟩
    simp [loadCommands, Function.comp_def]
  · rintro ⟨⟨h1, h2, h3, h4, h5⟩, rfl⟩
    refine ⟨_, ⟨(), h1, h2, rfl⟩, _, ⟨h3, rfl⟩, _, ⟨h4, rfl⟩, _, ⟨h5, rfl⟩, ?_⟩
    simp [loadCommands, Function.comp_def]

lemma CommandsFit.valid (h : T.CommandsFit args) : ∀ c ∈ T.loadCommands args, c.Valid := by
  obtain ⟨-, h2, h3, h4, h5⟩ := h
  intro c hc
  simp only [loadCommands, List.cons_append, List.mem_cons, List.mem_append, List.mem_map,
    List.not_mem_nil, or_false] at hc
  rcases hc with rfl | ⟨seg, hseg, rfl⟩ | rfl | rfl
  · exact h2.valid
  · exact (h3 seg hseg).valid
  · exact ⟨namedDylib_valid _, h4⟩
  · exact buildVersion_valid h5

lemma segments_file : (dylibImage (T.loadCommands args) 0).segments =
    T.headerSegment.command :: T.loads.map MappedLoad.command := by
  have hsegs : (T.loads.map fun seg => LoadCommand.segment seg.command).filterMap
      LoadCommand.segment? = T.loads.map MappedLoad.command := by
    rw [List.filterMap_map, ← List.filterMap_eq_map]
    rfl
  have hheader : LoadCommand.segment? (.segment T.headerSegment.command) =
      some T.headerSegment.command := rfl
  rw [Image.segments, dylibImage_commands, loadCommands, List.filterMap_append,
    List.filterMap_cons_some hheader, hsegs]
  exact List.append_nil _

/-- **What a Phase 2 file holds**: its header and commands read back, and behind the header page
it is the image after the relocation loop. -/
theorem translate_spec (h : T.translate args = .ok out) :
    ∃ st, T.fixups = .ok st ∧ out.report = T.reportOf st out.file ∧
      readImage out.file = some (dylibImage (T.loadCommands args) 0) ∧
      ∀ i, T.params.pageSize ≤ i → out.file[i]? = st.image[i]? := by
  simp only [translate, PyM.bind_eq_ok, commands_eq_ok, PyM.pure_eq_ok] at h
  obtain ⟨-, -, st, hst, _, ⟨hfit, rfl⟩, file, hfile, rfl⟩ := h
  obtain ⟨hread, -, -, hsame⟩ := emitCommands_spec hfit.valid (by decide) hfile
  exact ⟨st, hst, rfl, hread, hsame⟩

/-- A run of the loop gives a file when the commands fit into the header page. -/
lemma exists_output {st : Phase2State} (hsize : T.dataEnd < 2 ^ 63) (hst : T.fixups = .ok st)
    (hfit : T.CommandsFit args)
    (hcount : (T.loadCommands args).length < 2 ^ 32 ∧
      headLength (T.loadCommands args) < 2 ^ 32 + 32)
    (hhead : headLength (T.loadCommands args) ≤ T.params.pageSize) :
    ∃ out, T.translate args = .ok out := by
  have hfile : emitCommands ((T.loadCommands args).map LoadCommand.encode) 0 T.params.pageSize
      (.translate .commands) st.image = .ok ((dylibImage (T.loadCommands args) 0).encode ++
        st.image.drop (headLength (T.loadCommands args))) :=
    (emitCommands_eq_ok (by decide)).mpr ⟨⟨hcount.1, hcount.2, hhead⟩, rfl⟩
  exact ⟨_, PyM.bind_eq_ok.mpr ⟨(), PyM.raiseIf_eq_ok.mpr (by omega), PyM.bind_eq_ok.mpr ⟨_, hst,
    PyM.bind_eq_ok.mpr ⟨_, commands_eq_ok.mpr ⟨hfit, rfl⟩, PyM.bind_eq_ok.mpr ⟨_, hfile, rfl⟩⟩⟩⟩⟩

/-- The translator of the small library. -/
def small : Phase2Translator where
  elf := Elf64.smallElf
  params := .default
  loads := [mapLoad .default 0 0x4000 ⟨1, 5, 0, 0, 0xB0, 0xB0, 0x10000⟩,
    mapLoad .default 1 0x8000 ⟨1, 6, 0xB0, 0x100B0, 0x20, 0x30, 0x10000⟩]
  machine := Elf64.eMachine_smallElf
  type := Elf64.eType_smallElf
  layout := rfl

lemma exists_output_small : ∃ out, small.translate {} = .ok out := by
  have hlen : small.copied.length = small.dataEnd := by
    rw [copied_eq, length_copyPieces (fit_pieces (by decide +kernel)), List.length_replicate]
  have hle : 0x80B8 + 8 ≤ small.copied.length := by
    rw [hlen]
    decide
  have hfixups : small.fixups = .ok (small.patch { image := small.copied } 0x80B8
      ⟨0x100B8, 1027, 0, 0x10⟩ 0x10 false) := by
    rw [fixups, show small.elf = Elf64.smallElf from rfl, Elf64.relocations_smallElf,
      List.foldlM_cons, PyM.bind_eq_ok]
    exact ⟨_, relocate_eq_ok.mpr ⟨0x80B8, by decide, .inl ⟨0x10, false, by decide +kernel, hle,
      rfl⟩⟩, rfl⟩
  exact exists_output (by decide +kernel) hfixups (by decide +kernel) (by decide +kernel)
    (by decide +kernel)

end Phase2Translator

end Apk2Ios
