import Apk2Ios.Phase3.Relocate

/-!
# Phase 3: the translation

The image is the copied segments after the relocation loop; behind it come the two opcode
streams, and in the reserve in front of it the header and the load commands.
-/

namespace Apk2Ios

open Lib MachO

/-! ### The report -/

/-- A row of the list of imports. -/
structure ShimImport where
  symbol : String
  shimSymbol : String
  symbolType : String
  relocationCount : ℕ
deriving DecidableEq, Repr

/-- A row of the list of segments; numbers are shown in hexadecimal. -/
structure SegmentRow where
  name : String
  vmaddr : String
  vmsize : String
  fileoff : String
  filesize : String
  dataAddr : String
  dataFileoff : String
deriving DecidableEq, Repr

/-- The report of a translation. -/
structure Phase3Report where
  outputSize : ℕ
  imageBase : String
  elfSlide : String
  patched : Patched
  rebaseCount : ℕ
  rebaseStreamSize : ℕ
  bindCount : ℕ
  bindStreamSize : ℕ
  shimInstallName : String
  shimSymbolCount : ℕ
  shimSymbols : List String
  shimImports : List ShimImport
  segments : List SegmentRow
  linkeditVmaddr : String
  linkeditFileoff : String
  linkeditSize : ℕ
  note : String
deriving DecidableEq, Repr

/-- `type_names.get(symbol_type, f"type_{symbol_type}")`. -/
def typeName (symbolType : ℕ) : String :=
  match symbolType with
  | 0 => "notype"
  | 1 => "object"
  | 2 => "func"
  | n => "type_" ++ toString n

/-- `sorted({item["shim_symbol"] for item in bindings})`. -/
def shimSymbols (bindings : List Binding) : List String :=
  sortedSet (bindings.map Binding.shimSymbol)

/-- The rows by symbol: the first binding of a symbol makes the row, every one counts. -/
def bySymbol (bindings : List Binding) : Dict String ShimImport :=
  bindings.foldl (fun d item =>
    let entry := (d.get? item.symbol).getD
      ⟨item.symbol, item.shimSymbol, typeName item.symbolType, 0⟩
    d.set item.symbol { entry with relocationCount := entry.relocationCount + 1 }) .empty

/-- The rows in the order of their symbols. -/
def shimImports (bindings : List Binding) : List ShimImport :=
  (sortedSet ((bySymbol bindings).items.map Prod.fst)).filterMap (bySymbol bindings).get?

def ImageSegment.row (seg : ImageSegment) : SegmentRow where
  name := seg.name
  vmaddr := hex seg.vmaddr
  vmsize := hex seg.vmsize
  fileoff := hex seg.fileoff
  filesize := hex seg.filesize
  dataAddr := hex seg.dataAddr
  dataFileoff := hex seg.dataFileoff

def phase3Note : String :=
  "dyld rebase/bind metadata is emitted, but the dylib is still not runnable without " ++
    "libbionic_shim.dylib, code signing, constructor/unwind handling, and Unity integration."

/-- A written file and its report. -/
structure Phase3Output where
  file : Bytes
  report : Phase3Report
deriving DecidableEq, Repr

namespace Phase3Translator

variable (T : Phase3Translator)

/-! ### `translate` -/

/-- The end of the copied data, rounded to a page. -/
def dataEnd : ℕ :=
  (T.segments.map fun x => align (x.fileoff + x.filesize) T.params.pageSize).foldl max 0

/-- The image before relocation. -/
def copied : Bytes :=
  T.segments.foldl
    (fun image seg => sliceAssign image seg.dataFileoff seg.elfFilesz
      (slice T.elf.data seg.elfOffset seg.elfFilesz))
    (List.replicate T.dataEnd 0)

/-- The layout of `__LINKEDIT` for an image and streams of the given lengths.  The bind stream
is aligned to pointers. -/
def linkedit (imageLength rebaseSize bindSize : ℕ) : Linkedit :=
  let fileoff := align imageLength T.params.pageSize
  let bindOff := align (fileoff + rebaseSize) 8
  let size := bindOff - fileoff + bindSize
  { vmaddr := align ((T.segments.map fun x => x.vmaddr + x.vmsize).foldl max 0) T.params.pageSize
    vmsize := align size T.params.pageSize
    fileoff := fileoff
    filesize := size
    rebaseSize := rebaseSize
    bindOff := bindOff
    bindSize := bindSize }

/-- The file without its header and commands. -/
def assemble (le : Linkedit) (image rebaseStream bindStream : Bytes) : Bytes :=
  let final := List.replicate (align (le.fileoff + le.filesize) T.params.pageSize) 0
  let final := sliceAssign final 0 image.length image
  let final := sliceAssign final le.fileoff rebaseStream.length rebaseStream
  sliceAssign final le.bindOff bindStream.length bindStream

/-- The relocation loop of a translation. -/
def fixups (args : TranslateArgs) : PyM RelocState :=
  T.relocateAll T.elf.dynamicSymbols args.shimPrefix { image := T.copied } T.elf.relocations

def reportOf (args : TranslateArgs) (st : RelocState) (le : Linkedit) (file : Bytes) :
    Phase3Report where
  outputSize := file.length
  imageBase := hex T.params.imageBase
  elfSlide := hex T.slide
  patched := st.patched
  rebaseCount := st.rebases.length
  rebaseStreamSize := le.rebaseSize
  bindCount := st.bindings.length
  bindStreamSize := le.bindSize
  shimInstallName := args.shimInstallName
  shimSymbolCount := (shimSymbols st.bindings).length
  shimSymbols := shimSymbols st.bindings
  shimImports := shimImports st.bindings
  segments := T.segments.map ImageSegment.row
  linkeditVmaddr := hex le.vmaddr
  linkeditFileoff := hex le.fileoff
  linkeditSize := le.filesize
  note := phase3Note

/-- `translate(output, …)`. -/
def translate (args : TranslateArgs) : PyM Phase3Output := do
  -- `bytearray(data_end)`; memory for a smaller image is taken to be there
  raiseIf (2 ^ 63 ≤ T.dataEnd) .overflow
  let st ← T.fixups args
  let rebases ← rebaseStream st.rebases
  let binds ← bindStream st.bindings
  let le := T.linkedit st.image.length rebases.length binds.length
  let commands ← imageCommands T.segments args le
  let file ← emitCommands commands dylibFlags T.params.headerReserve (.phase3 .commands)
    (T.assemble le st.image rebases binds)
  return ⟨file, T.reportOf args st le file⟩

/-! ### The parts of a translation -/

/-- The intermediate values of a translation that returns. -/
structure Translation (args : TranslateArgs) where
  st : RelocState
  rebases : Bytes
  binds : Bytes
  fixups : T.fixups args = .ok st
  rebaseStream : rebaseStream st.rebases = .ok rebases
  bindStream : bindStream st.bindings = .ok binds

namespace Translation

variable {T} {args : TranslateArgs} (t : T.Translation args)

def linkedit : Linkedit := T.linkedit t.st.image.length t.rebases.length t.binds.length

/-- The commands of the written file. -/
def commands : List LoadCommand := imageLoadCommands T.segments args t.linkedit

def assembled : Bytes := T.assemble t.linkedit t.st.image t.rebases t.binds

/-- All numbers fit and the commands fit the reserve. -/
structure Fits : Prop where
  size : T.dataEnd < 2 ^ 63
  commands : CommandsFit T.segments args t.linkedit
  count : t.commands.length < 2 ^ 32
  head : headLength t.commands < 2 ^ 32 + 32 ∧ headLength t.commands ≤ T.params.headerReserve

/-- The written file. -/
def file : Bytes :=
  (dylibImage t.commands dylibFlags).encode ++ t.assembled.drop (headLength t.commands)

end Translation

variable {T} {args : TranslateArgs} {out : Phase3Output}

/-- **A translation returns exactly when its parts do and all numbers fit**, and then it
returns the file made of these parts. -/
theorem translate_eq_ok :
    T.translate args = .ok out ↔ ∃ t : T.Translation args, t.Fits ∧
      out = ⟨t.file, T.reportOf args t.st t.linkedit t.file⟩ := by
  have hflags : dylibFlags < 2 ^ 32 := by decide
  simp only [translate, PyM.bind_eq_ok, PyM.raiseIf_eq_ok, not_le, imageCommands_eq_ok,
    PyM.pure_eq_ok]
  constructor
  · rintro ⟨-, hsize, st, hst, rs, hrs, bs, hbs, _, ⟨hfit, rfl⟩, file, hfile, rfl⟩
    obtain ⟨⟨hn, hlt, hle⟩, rfl⟩ := (emitCommands_eq_ok hflags).mp hfile
    exact ⟨⟨st, rs, bs, hst, hrs, hbs⟩, ⟨hsize, hfit, hn, hlt, hle⟩, rfl⟩
  · rintro ⟨⟨st, rs, bs, hst, hrs, hbs⟩, ⟨hsize, hfit, hn, hlt, hle⟩, rfl⟩
    exact ⟨(), hsize, st, hst, rs, hrs, bs, hbs, _, ⟨hfit, rfl⟩, _,
      (emitCommands_eq_ok hflags).mpr ⟨⟨hn, hlt, hle⟩, rfl⟩, rfl⟩

/-! ### The copied image -/

lemma copied_eq : T.copied = copyPieces T.elf.data T.pieces (List.replicate T.dataEnd 0) := by
  rw [copied, pieces, copyPieces, List.foldl_map]
  rfl

lemma filesize_le_dataEnd {seg : ImageSegment} (h : seg ∈ T.segments) :
    seg.fileoff + seg.filesize ≤ T.dataEnd := by
  have hle := le_align (v := seg.fileoff + seg.filesize) T.params.pageSize_pos
  exact hle.trans (le_foldl_max.2 _ (List.mem_map_of_mem h))

lemma dvd_dataEnd : T.params.pageSize ∣ T.dataEnd := by
  refine dvd_foldl_max (Nat.dvd_zero _) fun n hn => ?_
  obtain ⟨s, -, rfl⟩ := List.mem_map.mp hn
  exact dvd_align T.params.isPage _

lemma exists_mem_segments : ∃ seg, seg ∈ T.segments := by
  obtain ⟨first, rest, -, -, -, hsegs⟩ := layoutSegments_eq_ok T.layout
  exact ⟨_, hsegs ▸ List.mem_cons_self⟩

lemma headerReserve_le_dataEnd : T.params.headerReserve ≤ T.dataEnd := by
  obtain ⟨seg, hseg⟩ := T.exists_mem_segments
  obtain ⟨ph, -, hmaps⟩ := exists_load_of_mem hseg
  have hend := filesize_le_dataEnd hseg
  have hreserve := headerReserve_le hseg
  have hdata := hmaps.dataFileoff
  have hsize := hmaps.filesize
  omega

/-- Nothing is copied into the header reserve. -/
lemma take_copied :
    T.copied.take T.params.headerReserve = List.replicate T.params.headerReserve 0 := by
  have hle : T.params.headerReserve ≤ (List.replicate T.dataEnd (0 : UInt8)).length :=
    T.headerReserve_le_dataEnd.trans_eq List.length_replicate.symm
  have hdst : ∀ p ∈ T.pieces, T.params.headerReserve ≤ p.dst := by
    intro p hp
    obtain ⟨seg, hseg, rfl⟩ := List.mem_map.mp hp
    exact headerReserve_le hseg
  rw [copied_eq, take_copyPieces hdst hle, List.take_replicate,
    Nat.min_eq_left T.headerReserve_le_dataEnd]

/-- The header reserve stays even when the file is too short for its segments. -/
lemma headerReserve_le_length_copied : T.params.headerReserve ≤ T.copied.length := by
  have hlen := congrArg List.length T.take_copied
  rw [List.length_take, List.length_replicate] at hlen
  omega

/-- The output is long enough for the bytes of every segment. -/
lemma piece_le_dataEnd {p : Piece} (hp : p ∈ T.pieces) : p.dst + p.size ≤ T.dataEnd := by
  obtain ⟨seg, hseg, rfl⟩ := List.mem_map.mp hp
  obtain ⟨ph, -, hmaps⟩ := exists_load_of_mem hseg
  have hend := filesize_le_dataEnd hseg
  have hdata := hmaps.dataFileoff
  have hfile := hmaps.filesize
  have helf := hmaps.elfFilesz
  show seg.dataFileoff + seg.elfFilesz ≤ T.dataEnd
  omega

lemma fit_pieces (h : T.elf.LoadsInFile) : Fit T.pieces T.elf.data T.dataEnd := by
  intro p hp
  refine ⟨?_, piece_le_dataEnd hp⟩
  obtain ⟨seg, hseg, rfl⟩ := List.mem_map.mp hp
  obtain ⟨ph, hph, hmaps⟩ := exists_load_of_mem hseg
  simp only [ImageSegment.piece, hmaps.elfOffset, hmaps.elfFilesz]
  exact h ph hph

lemma length_copied (h : T.elf.LoadsInFile) : T.copied.length = T.dataEnd := by
  have hfit := fit_pieces h
  rw [← List.length_replicate (n := T.dataEnd) (a := (0 : UInt8))] at hfit
  rw [copied_eq, length_copyPieces hfit, List.length_replicate]

/-! ### The assembled file -/

section

variable {imageLength rebaseSize bindSize : ℕ} {le : Linkedit} {image rebases binds : Bytes}

lemma linkedit_bounds (imageLength rebaseSize bindSize : ℕ) :
    let le := T.linkedit imageLength rebaseSize bindSize
    imageLength ≤ le.fileoff ∧ le.fileoff + rebaseSize ≤ le.bindOff ∧
      le.bindOff + bindSize = le.fileoff + le.filesize := by
  have h1 := le_align (v := imageLength) T.params.pageSize_pos
  have h2 := le_align (v := align imageLength T.params.pageSize + rebaseSize) isPage_eight.pos
  simp only [linkedit]
  omega

/-- The parts of a file with `__LINKEDIT` at its end. -/
structure Assembled (le : Linkedit) (image rebases binds file : Bytes) : Prop where
  length : le.fileoff + le.filesize ≤ file.length
  image : ∀ i < image.length, file[i]? = image[i]?
  rebases : slice file le.fileoff le.rebaseSize = rebases
  binds : slice file le.bindOff le.bindSize = binds

lemma assembled_assemble (image rebases binds : Bytes) :
    let le := T.linkedit image.length rebases.length binds.length
    Assembled le image rebases binds (T.assemble le image rebases binds) ∧
      (T.assemble le image rebases binds).length =
        align (le.fileoff + le.filesize) T.params.pageSize := by
  intro le
  obtain ⟨h1, h2, h3⟩ := T.linkedit_bounds image.length rebases.length binds.length
  have hend := le_align (v := le.fileoff + le.filesize) T.params.pageSize_pos
  have hrs : le.rebaseSize = rebases.length := rfl
  have hbs : le.bindSize = binds.length := rfl
  change image.length ≤ le.fileoff at h1
  change le.fileoff + rebases.length ≤ le.bindOff at h2
  change le.bindOff + binds.length = le.fileoff + le.filesize at h3
  set size := align (le.fileoff + le.filesize) T.params.pageSize with hsize
  set f₀ : Bytes := List.replicate size 0 with hf₀
  set f₁ := sliceAssign f₀ 0 image.length image with hf₁
  set f₂ := sliceAssign f₁ le.fileoff rebases.length rebases with hf₂
  have hlen₀ : f₀.length = size := List.length_replicate
  have hlen₁ : f₁.length = size := by rw [hf₁, length_sliceAssign rfl (by omega), hlen₀]
  have hlen₂ : f₂.length = size := by rw [hf₂, length_sliceAssign rfl (by omega), hlen₁]
  have hfile : T.assemble le image rebases binds =
      sliceAssign f₂ le.bindOff binds.length binds := rfl
  have hlen : (T.assemble le image rebases binds).length = size := by
    rw [hfile, length_sliceAssign rfl (by omega), hlen₂]
  refine ⟨⟨by omega, fun i hi => ?_, ?_, ?_⟩, hlen⟩
  · rw [hfile, getElem?_sliceAssign rfl (by omega), if_neg (by omega), hf₂,
      getElem?_sliceAssign rfl (by omega), if_neg (by omega), hf₁,
      getElem?_sliceAssign rfl (by omega), if_pos (by omega), Nat.sub_zero]
  · rw [hfile, hrs, slice_sliceAssign_of_disjoint rfl (by omega) (by omega), hf₂,
      slice_sliceAssign_self rfl (by omega)]
  · rw [hfile, hbs, slice_sliceAssign_self rfl (by omega)]

/-- Changes in front of the image do not matter for the parts. -/
lemma Assembled.congr {file file' : Bytes} {limit : ℕ} (h : Assembled le image rebases binds file)
    (hlimit : limit ≤ le.fileoff) (hbind : limit ≤ le.bindOff)
    (hlen : file'.length = file.length) (hsame : ∀ i, limit ≤ i → file'[i]? = file[i]?) :
    le.fileoff + le.filesize ≤ file'.length ∧
      (∀ i < image.length, limit ≤ i → file'[i]? = image[i]?) ∧
      slice file' le.fileoff le.rebaseSize = rebases ∧
      slice file' le.bindOff le.bindSize = binds := by
  refine ⟨hlen ▸ h.length, fun i hi hle => (hsame i hle).trans (h.image i hi), ?_, ?_⟩
  · rw [← h.rebases]
    exact slice_congr fun i _ => hsame _ (by omega)
  · rw [← h.binds]
    exact slice_congr fun i _ => hsame _ (by omega)

end

/-! ### The written file -/

namespace Translation

variable {t : T.Translation args}

lemma relocated : Relocated T T.elf.dynamicSymbols args.shimPrefix T.elf.relocations
    { image := T.copied } t.st :=
  relocated_of_relocateAll t.fixups

lemma length_image : t.st.image.length = T.copied.length := t.relocated.length_image

lemma headerReserve_le_fileoff : T.params.headerReserve ≤ t.linkedit.fileoff := by
  have hcopied := T.headerReserve_le_length_copied
  rw [← t.length_image] at hcopied
  exact hcopied.trans (T.linkedit_bounds _ t.rebases.length t.binds.length).1

/-- **What a Phase 3 file holds**: its header and commands read back, the image lies behind
the reserve, and the two streams are where the commands say. -/
theorem Fits.file_spec (h : t.Fits) :
    readImage t.file = some (dylibImage t.commands dylibFlags) ∧
      t.file.length = align (t.linkedit.fileoff + t.linkedit.filesize) T.params.pageSize ∧
      (∀ i < t.st.image.length, T.params.headerReserve ≤ i → t.file[i]? = t.st.image[i]?) ∧
      slice t.file t.linkedit.fileoff t.linkedit.rebaseSize = t.rebases ∧
      slice t.file t.linkedit.bindOff t.linkedit.bindSize = t.binds := by
  have hflags : dylibFlags < 2 ^ 32 := by decide
  have hemit : emitCommands (t.commands.map LoadCommand.encode) dylibFlags
      T.params.headerReserve (.phase3 .commands) t.assembled = .ok t.file :=
    (emitCommands_eq_ok hflags).mpr ⟨⟨h.count, h.head⟩, rfl⟩
  obtain ⟨hread, hhead, hlen, hsame⟩ := emitCommands_spec h.commands.valid hflags hemit
  obtain ⟨hparts, hsize⟩ := T.assembled_assemble t.st.image t.rebases t.binds
  have hreserve := t.headerReserve_le_fileoff
  have hbind : t.linkedit.fileoff ≤ t.linkedit.bindOff := by
    have := (T.linkedit_bounds t.st.image.length t.rebases.length t.binds.length).2.1
    change t.linkedit.fileoff + _ ≤ t.linkedit.bindOff at this
    omega
  have hlong : t.linkedit.fileoff + t.linkedit.filesize ≤ t.assembled.length := hparts.length
  have hfile := hlen (by omega)
  obtain ⟨-, himage, hrebases, hbinds⟩ :=
    hparts.congr hreserve (hreserve.trans hbind) hfile hsame
  exact ⟨hread, hfile.trans hsize, himage, hrebases, hbinds⟩

lemma segments_file : (dylibImage t.commands dylibFlags).segments =
    T.segments.map ImageSegment.command ++ [t.linkedit.command] := by
  have hsegs := segments_dylibImage T.segments args t.linkedit [] dylibFlags rfl
  rwa [List.append_nil] at hsegs

lemma dyldInfo?_file : (dylibImage t.commands dylibFlags).dyldInfo? = some t.linkedit.tables := by
  have hinfo := dyldInfo?_dylibImage T.segments args t.linkedit [] dylibFlags
  rwa [List.append_nil] at hinfo

/-- The symbols of the bindings have no NUL when the prefix has none. -/
lemma nulFree_of_mem_bindings (hshim : NulFree args.shimPrefix) {b : Binding}
    (hb : b ∈ t.st.bindings) : NulFree b.shimSymbol := by
  obtain ⟨new, hnew, hforall⟩ := t.relocated.bindings
  simp only [List.nil_append] at hnew
  subst hnew
  obtain ⟨p, hp, hbinds⟩ := exists_of_mem_forall₂ hforall hb
  obtain ⟨rel, -, hext⟩ := List.mem_filterMap.mp hp
  have hsymbol := Relocation.getElem?_of_external (Relocation.external?_eq_some.mp hext).1
  rw [hbinds.shimSymbol]
  exact hshim.append (Elf64.nulFree_of_mem_dynamicSymbols
    (List.mem_of_getElem? hsymbol.1))

end Translation

/-! ### Files without imports -/

/-- The bind stream without bindings. -/
def emptyBinds : Bytes := [0x11, 0x51, 0x00]

/-- A file whose relocations are all internal has a translation, and its streams are known. -/
lemma exists_translation (rebases : Bytes) (hin : T.elf.LoadsInFile)
    (hloc : ∀ rel ∈ T.elf.relocations, Located T T.elf.dynamicSymbols T.dataEnd rel)
    (hint : T.elf.relocations.filterMap (Relocation.external? T.elf.dynamicSymbols) = [])
    (hrebases : rebaseStream (T.elf.relocations.filterMap (T.rebase? T.elf.dynamicSymbols)) =
      .ok rebases) :
    ∃ t : T.Translation args, t.linkedit = T.linkedit T.dataEnd rebases.length 3 := by
  have hlen := length_copied hin
  rw [← hlen] at hloc
  obtain ⟨st, hst⟩ := (relocateAll_isOk_iff args.shimPrefix { image := T.copied }).mpr hloc
  have hrun := relocated_of_relocateAll hst
  have hr : st.rebases = T.elf.relocations.filterMap (T.rebase? T.elf.dynamicSymbols) :=
    hrun.rebases
  have hb : st.bindings = [] := by
    obtain ⟨new, hnew, hforall⟩ := hrun.bindings
    rw [hint, List.forall₂_nil_left_iff] at hforall
    simpa [hforall] using hnew
  refine ⟨⟨st, rebases, emptyBinds, hst, hr ▸ hrebases, hb ▸ rfl⟩, ?_⟩
  rw [Translation.linkedit, hrun.length_image, hlen]
  rfl

/-- A translation with known numbers fits when they do. -/
lemma Translation.fits_of_linkedit {t : T.Translation args} {le : Linkedit} (hle : t.linkedit = le)
    (hsize : T.dataEnd < 2 ^ 63) (hfit : CommandsFit T.segments args le)
    (hcount : (imageLoadCommands T.segments args le).length < 2 ^ 32)
    (hhead : headLength (imageLoadCommands T.segments args le) ≤ T.params.headerReserve)
    (hreserve : T.params.headerReserve < 2 ^ 32) : t.Fits := by
  subst hle
  exact ⟨hsize, hfit, hcount, lt_of_le_of_lt hhead (by omega), hhead⟩

lemma Translation.Fits.exists_output {t : T.Translation args} (h : t.Fits) :
    ∃ out, T.translate args = .ok out := ⟨_, translate_eq_ok.mpr ⟨t, h, rfl⟩⟩

/-- The translator of the small library. -/
def small : Phase3Translator where
  elf := Elf64.smallElf
  params := .default
  segments := [firstSegment .default ⟨1, 5, 0, 0, 0xB0, 0xB0, 0x10000⟩,
    nextSegment .default 1 0x14000 ⟨1, 6, 0xB0, 0x100B0, 0x20, 0x30, 0x10000⟩]
  machine := Elf64.eMachine_smallElf
  type := Elf64.eType_smallElf
  layout := rfl

lemma exists_translation_small :
    ∃ t : small.Translation {}, t.linkedit = small.linkedit small.dataEnd 6 3 ∧ t.Fits := by
  obtain ⟨t, ht⟩ : ∃ t : small.Translation {}, t.linkedit = small.linkedit small.dataEnd 6 3 := by
    refine exists_translation (T := small) [0x11, 0x21, 0xB8, 0x01, 0x51, 0x00]
      (by decide +kernel) ?_ (by decide +kernel) (by decide +kernel)
    intro rel hrel
    obtain rfl : rel = ⟨0x100B8, 1027, 0, 0x10⟩ := by
      rw [show small.elf = Elf64.smallElf from rfl, Elf64.relocations_smallElf] at hrel
      simpa using hrel
    exact ⟨⟨_, rfl⟩, ⟨1, 0x140B8, 0xB8⟩, rfl, by decide⟩
  exact ⟨t, ht, t.fits_of_linkedit ht (by decide +kernel) (by decide +kernel) (by decide +kernel) (by decide +kernel)
    (by decide +kernel)⟩

lemma exists_output_small : ∃ out, small.translate {} = .ok out := by
  obtain ⟨t, -, hfits⟩ := exists_translation_small
  exact hfits.exists_output

end Phase3Translator

end Apk2Ios
