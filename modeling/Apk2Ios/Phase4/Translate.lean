import Apk2Ios.Phase3.Translate
import Apk2Ios.Phase4.ExportTrie

/-!
# Phase 4: the translation

Phase 4 takes the file of Phase 3, puts the export trie and a string table of one byte behind
the bind stream, and replaces the header and the load commands.  Its segment commands reach
up to the next segment, in the file and in memory.
-/

namespace Apk2Ios

open Lib MachO

/-- `STB_GLOBAL`. -/
def stbGlobal : ℕ := 1

/-- `STB_WEAK`. -/
def stbWeak : ℕ := 2

/-- A defined global or weak function or object with a name. -/
def DynamicSymbol.Exported (symbol : DynamicSymbol) : Prop :=
  symbol.shndx ≠ shnUndef ∧ symbol.name ≠ "" ∧
    (symbol.info >>> 4 = stbGlobal ∨ symbol.info >>> 4 = stbWeak) ∧
    (symbol.info &&& 0x0F = sttFunc ∨ symbol.info &&& 0x0F = sttObject)

instance : DecidablePred DynamicSymbol.Exported :=
  fun _ => inferInstanceAs (Decidable (_ ∧ _ ∧ _ ∧ _))

/-- The report of Phase 4: the one of Phase 3 with more entries. -/
structure Phase4Report extends Phase3Report where
  exportCount : ℕ
  exportStreamSize : ℕ
  exportOffset : String
  hasIl2cppInit : Bool
  initArrayEntries : ℕ
  finiArrayEntries : ℕ
  ehFrameSize : ℕ
  phase : ℕ
deriving DecidableEq, Repr

def phase4Note : String :=
  "Phase 4 has Mach-O exports, dyld constructors, and unwind section metadata. It still " ++
    "requires a semantically sufficient Bionic shim and does not yet provide the Unity " ++
    "Android player."

/-- A written file and its report. -/
structure Phase4Output where
  file : Bytes
  report : Phase4Report
deriving DecidableEq, Repr

/-! ### Segment commands -/

/-- The segment extended up to the place where the next one starts, in the file and in
memory.  A negative size can not be packed. -/
def commandSegment (seg : ImageSegment) (nextFileoff nextVmaddr : ℕ) : PyM ImageSegment := do
  raiseIf (nextFileoff < seg.fileoff ∨ nextVmaddr < seg.vmaddr) .struct
  return { seg with filesize := nextFileoff - seg.fileoff, vmsize := nextVmaddr - seg.vmaddr }

/-- The start of the first of the segments, or of `__LINKEDIT` when there is none. -/
def nextStart (linkedit : ℕ × ℕ) : List ImageSegment → ℕ × ℕ
  | [] => linkedit
  | next :: _ => (next.fileoff, next.vmaddr)

/-- `command_segments`, with the place of `__LINKEDIT` in the file and in memory. -/
def commandSegments (linkedit : ℕ × ℕ) : List ImageSegment → PyM (List ImageSegment)
  | [] => return []
  | seg :: rest => do
    let command ← commandSegment seg (nextStart linkedit rest).1 (nextStart linkedit rest).2
    let commands ← commandSegments linkedit rest
    return command :: commands

/-! ### The translator -/

/-- `Phase4Translator`, which adds methods to the Phase 3 translator and no state.  `calls` is not
the translator's but the interpreter's: how deep it lets `visit` call itself. -/
structure Phase4Translator extends Phase3Translator where
  calls : ℕ

namespace Phase4Translator

/-- `Phase4Translator(elf, …)`. -/
def init (elf : Elf64) (p : Params) (calls : ℕ) : PyM Phase4Translator := do
  let base ← Phase3Translator.init elf p
  return ⟨base, calls⟩

variable (T : Phase4Translator)

/-- `_exports()`.  The last symbol of a name counts. -/
def exports : Dict String ℕ :=
  T.elf.dynamicSymbols.foldl (fun exports symbol =>
    if symbol.Exported then
      exports.set ("_" ++ symbol.name) (T.params.headerReserve + symbol.value)
    else exports) .empty

/-- `init.size // 8` and its like: the size of a section, zero when there is none. -/
def sectionSize (name : String) : ℕ := ((T.elf.sectionNamed name).map SectionHeader.size).getD 0

def reportOf (base : Phase3Report) (exportStream file : Bytes) (exportOff : ℕ) :
    Phase4Report where
  toPhase3Report := { base with outputSize := file.length, note := phase4Note }
  exportCount := T.exports.items.length
  exportStreamSize := exportStream.length
  exportOffset := hex exportOff
  hasIl2cppInit := (T.exports.get? "_il2cpp_init").isSome
  initArrayEntries := T.sectionSize ".init_array" / 8
  finiArrayEntries := T.sectionSize ".fini_array" / 8
  ehFrameSize := T.sectionSize ".eh_frame"
  phase := 4

/-- The layout of `__LINKEDIT`, from the report of Phase 3.  The string table of one byte
behind the export trie belongs to it. -/
def linkeditOf (report : Phase3Report) (exportSize : ℕ) : Linkedit :=
  let rebaseOff := intHex report.linkeditFileoff
  let bindOff := align (rebaseOff + report.rebaseStreamSize) 8
  let exportOff := align (bindOff + report.bindStreamSize) 8
  let size := exportOff + exportSize - rebaseOff + 1
  { vmaddr := intHex report.linkeditVmaddr
    vmsize := align size T.params.pageSize
    fileoff := rebaseOff
    filesize := size
    rebaseSize := report.rebaseStreamSize
    bindOff := bindOff
    bindSize := report.bindStreamSize
    exportOff := exportOff
    exportSize := exportSize }

/-- The data of the file: cut or filled to its final size, with the export trie, the string
table and an empty header reserve. -/
def assemble (le : Linkedit) (data exportStream : Bytes) : Bytes :=
  let data := resize data (le.fileoff + le.filesize)
  let data := sliceAssign data le.exportOff exportStream.length exportStream
  let data := sliceAssign data (le.exportOff + exportStream.length) 1 [0]
  sliceAssign data 0 T.params.headerReserve (List.replicate T.params.headerReserve 0)

/-- `translate(output, …)`. -/
def translate (args : TranslateArgs) : PyM Phase4Output := do
  let base ← T.toPhase3Translator.translate args
  let exportStream ← buildExportTrie T.calls T.exports
  let le := T.linkeditOf base.report exportStream.length
  let strOff := le.exportOff + le.exportSize
  let segments ← commandSegments (le.fileoff, le.vmaddr) T.segments
  let commands ← imageCommands segments args le
  let symtab ← symtabCommand strOff 0 strOff 1
  let file ← emitCommands (commands ++ [symtab]) dylibFlags T.params.headerReserve
    (.phase3 .phase4Commands) (T.assemble le base.file exportStream)
  return ⟨file, T.reportOf base.report exportStream file le.exportOff⟩

end Phase4Translator

/-! ### The segments up to their successors -/

/-- The segment up to the next start. -/
def ImageSegment.upTo (seg : ImageSegment) (next : ℕ × ℕ) : ImageSegment :=
  { seg with filesize := next.1 - seg.fileoff, vmsize := next.2 - seg.vmaddr }

/-- Every segment starts before the next one, in the file and in memory. -/
def Ascends (linkedit : ℕ × ℕ) : List ImageSegment → Prop
  | [] => True
  | seg :: rest => (seg.fileoff ≤ (nextStart linkedit rest).1 ∧
      seg.vmaddr ≤ (nextStart linkedit rest).2) ∧ Ascends linkedit rest

instance decidableAscends :
    ∀ (linkedit : ℕ × ℕ) (segs : List ImageSegment), Decidable (Ascends linkedit segs)
  | _, [] => inferInstanceAs (Decidable True)
  | linkedit, _ :: rest =>
    have := decidableAscends linkedit rest
    inferInstanceAs (Decidable (_ ∧ _))

/-- All segments up to their successors. -/
def stretched (linkedit : ℕ × ℕ) : List ImageSegment → List ImageSegment
  | [] => []
  | seg :: rest => seg.upTo (nextStart linkedit rest) :: stretched linkedit rest

section

variable {linkedit : ℕ × ℕ} {segs : List ImageSegment}

lemma commandSegments_eq_ok {out : List ImageSegment} :
    commandSegments linkedit segs = .ok out ↔
      Ascends linkedit segs ∧ out = stretched linkedit segs := by
  induction segs generalizing out with
  | nil => rw [commandSegments, PyM.pure_eq_ok, Ascends, stretched, true_and, eq_comm]
  | cons seg rest ih =>
    simp only [commandSegments, commandSegment, PyM.bind_eq_ok, PyM.raiseIf_eq_ok,
      PyM.pure_eq_ok, ih, Ascends, stretched, not_or, not_lt]
    constructor
    · rintro ⟨_, ⟨_, hle, rfl⟩, _, ⟨hrest, rfl⟩, rfl⟩
      exact ⟨⟨hle, hrest⟩, rfl⟩
    · rintro ⟨⟨hle, hrest⟩, rfl⟩
      exact ⟨_, ⟨(), hle, rfl⟩, _, ⟨hrest, rfl⟩, rfl⟩

lemma getElem?_stretched (i : ℕ) :
    (stretched linkedit segs)[i]? =
      segs[i]?.map fun seg => seg.upTo (nextStart linkedit (segs.drop (i + 1))) := by
  induction segs generalizing i with
  | nil => simp [stretched]
  | cons seg rest ih =>
    cases i with
    | zero => rfl
    | succ i => simpa [stretched] using ih i

lemma length_stretched : (stretched linkedit segs).length = segs.length := by
  induction segs with
  | nil => rfl
  | cons seg rest ih => simp [stretched, ih]

end

namespace Phase4Translator

variable {T : Phase4Translator} {args : TranslateArgs} {out : Phase4Output}

/-! ### The parts of a translation -/

/-- `__LINKEDIT` with an export trie of the given size and the string table. -/
def addExports (T : Phase4Translator) (le : Linkedit) (size : ℕ) : Linkedit :=
  let exportOff := align (le.bindOff + le.bindSize) 8
  { le with
    vmsize := align (exportOff + size - le.fileoff + 1) T.params.pageSize
    filesize := exportOff + size - le.fileoff + 1
    exportOff := exportOff
    exportSize := size }

/-- The intermediate values of a translation that returns. -/
structure Translation (T : Phase4Translator) (args : TranslateArgs) where
  base : T.toPhase3Translator.Translation args
  fits : base.Fits
  trie : Bytes
  buildExportTrie : buildExportTrie T.calls T.exports = .ok trie

namespace Translation

variable (t : T.Translation args)

/-- The end of the bind stream. -/
def bindEnd : ℕ := t.base.linkedit.bindOff + t.base.linkedit.bindSize

/-- The start of the export trie. -/
def exportOff : ℕ := align t.bindEnd 8

/-- The start of the string table. -/
def strOff : ℕ := t.exportOff + t.trie.length

def linkedit : Linkedit := T.addExports t.base.linkedit t.trie.length

def segments : List ImageSegment :=
  stretched (t.linkedit.fileoff, t.linkedit.vmaddr) T.segments

/-- The string table, with an empty symbol table. -/
def symtab : Symtab := ⟨t.strOff, 0, t.strOff, 1⟩

/-- The commands of the written file. -/
def commands : List LoadCommand :=
  imageLoadCommands t.segments args t.linkedit ++ [.symtab t.symtab]

def assembled : Bytes := T.assemble t.linkedit t.base.file t.trie

/-- All numbers fit and the commands fit the reserve. -/
structure Fits : Prop where
  ascends : Ascends (t.linkedit.fileoff, t.linkedit.vmaddr) T.segments
  commands : CommandsFit t.segments args t.linkedit
  strOff : t.strOff < 2 ^ 32
  count : t.commands.length < 2 ^ 32
  head : headLength t.commands < 2 ^ 32 + 32 ∧ headLength t.commands ≤ T.params.headerReserve

/-- The written file. -/
def file : Bytes :=
  (dylibImage t.commands dylibFlags).encode ++ t.assembled.drop (headLength t.commands)

end Translation

/-- The numbers come back from the hexadecimal ones of the report. -/
lemma linkeditOf_reportOf (t : T.Translation args) (file : Bytes) :
    T.linkeditOf (T.toPhase3Translator.reportOf args t.base.st t.base.linkedit file)
      t.trie.length = t.linkedit := by
  simp only [linkeditOf, Phase3Translator.reportOf, intHex_hex]
  rfl

/-- **A translation returns exactly when its parts do and all numbers fit**, and then it
returns the file made of these parts. -/
theorem translate_eq_ok :
    T.translate args = .ok out ↔ ∃ t : T.Translation args, t.Fits ∧
      out = ⟨t.file, T.reportOf
        (T.toPhase3Translator.reportOf args t.base.st t.base.linkedit t.base.file) t.trie t.file
        t.exportOff⟩ := by
  have hflags : dylibFlags < 2 ^ 32 := by decide
  have hencode : ∀ (cs : List LoadCommand) (c : LoadCommand),
      cs.map LoadCommand.encode ++ [c.encode] = (cs ++ [c]).map LoadCommand.encode := by
    intro cs c
    rw [List.map_append, List.map_singleton]
  simp only [translate, PyM.bind_eq_ok, Phase3Translator.translate_eq_ok, imageCommands_eq_ok,
    commandSegments_eq_ok, symtabCommand_eq_ok, PyM.pure_eq_ok]
  constructor
  · rintro ⟨_, ⟨base, hbase, rfl⟩, trie, htrie, _, ⟨hasc, rfl⟩, _, ⟨hfit, rfl⟩, _,
      ⟨hsym, rfl⟩, file, hfile, rfl⟩
    let t : T.Translation args := ⟨base, hbase, trie, htrie⟩
    have hle : T.linkeditOf (T.toPhase3Translator.reportOf args base.st base.linkedit base.file)
        trie.length = t.linkedit := linkeditOf_reportOf t base.file
    simp only [hle, hencode] at hasc hfit hsym hfile ⊢
    obtain ⟨⟨hn, hlt, hhead⟩, rfl⟩ := (emitCommands_eq_ok hflags).mp hfile
    exact ⟨t, ⟨hasc, hfit, hsym.1, hn, hlt, hhead⟩, rfl⟩
  · rintro ⟨t, hfits, rfl⟩
    refine ⟨_, ⟨t.base, t.fits, rfl⟩, t.trie, t.buildExportTrie, _, ⟨?_, rfl⟩, _, ⟨?_, rfl⟩, _,
      ⟨?_, rfl⟩, t.file, ?_, ?_⟩
    all_goals simp only [linkeditOf_reportOf, hencode]
    · exact hfits.ascends
    · exact hfits.commands
    · exact ⟨hfits.strOff, by decide, hfits.strOff, by decide⟩
    · exact (emitCommands_eq_ok hflags).mpr ⟨⟨hfits.count, hfits.head⟩, rfl⟩
    · rfl

/-! ### The written file -/

namespace Translation

variable {t : T.Translation args}

/-- The order of the parts of `__LINKEDIT`. -/
lemma bounds : T.params.headerReserve ≤ t.linkedit.fileoff ∧
    t.base.st.image.length ≤ t.linkedit.fileoff ∧
    t.linkedit.fileoff + t.linkedit.rebaseSize ≤ t.linkedit.bindOff ∧
    t.linkedit.bindOff + t.linkedit.bindSize = t.bindEnd ∧ t.bindEnd ≤ t.exportOff ∧
    t.exportOff + t.trie.length = t.strOff ∧
    t.linkedit.fileoff + t.linkedit.filesize = t.strOff + 1 := by
  obtain ⟨h1, h2, -⟩ := T.linkedit_bounds t.base.st.image.length t.base.rebases.length
    t.base.binds.length
  have h3 := t.base.headerReserve_le_fileoff
  have h4 : t.bindEnd ≤ t.exportOff := le_align isPage_eight.pos
  have hfileoff : t.linkedit.fileoff = t.base.linkedit.fileoff := rfl
  have hrebase : t.linkedit.rebaseSize = t.base.rebases.length := rfl
  have hbind : t.linkedit.bindOff = t.base.linkedit.bindOff := rfl
  have hend : t.bindEnd = t.base.linkedit.bindOff + t.base.linkedit.bindSize := rfl
  have hstr : t.strOff = t.exportOff + t.trie.length := rfl
  have hsize : t.linkedit.filesize = t.strOff - t.base.linkedit.fileoff + 1 := rfl
  change _ ≤ t.base.linkedit.fileoff at h1
  change t.base.linkedit.fileoff + _ ≤ t.base.linkedit.bindOff at h2
  exact ⟨h3, h1, by omega, rfl, h4, rfl, by omega⟩

lemma bindEnd_le_length : t.bindEnd ≤ t.base.file.length := by
  obtain ⟨-, hlen, -⟩ := t.fits.file_spec
  have hend := (T.linkedit_bounds t.base.st.image.length t.base.rebases.length
    t.base.binds.length).2.2
  have halign := le_align (v := t.base.linkedit.fileoff + t.base.linkedit.filesize)
    T.params.pageSize_pos
  change t.base.linkedit.bindOff + t.base.linkedit.bindSize =
    t.base.linkedit.fileoff + t.base.linkedit.filesize at hend
  rw [bindEnd]
  omega

/-- The data behind the header reserve, before the commands are written. -/
lemma assembled_spec : t.assembled.length = t.strOff + 1 ∧
    (∀ i, T.params.headerReserve ≤ i → i < t.bindEnd → t.assembled[i]? = t.base.file[i]?) ∧
    slice t.assembled t.exportOff t.trie.length = t.trie ∧ t.assembled[t.strOff]? = some 0 := by
  obtain ⟨h1, -, h2, h3, h4, h5, h6⟩ := t.bounds
  have h7 := t.bindEnd_le_length
  set d₀ := resize t.base.file (t.linkedit.fileoff + t.linkedit.filesize) with hd₀
  set d₁ := sliceAssign d₀ t.exportOff t.trie.length t.trie with hd₁
  set d₂ := sliceAssign d₁ t.strOff 1 [0] with hd₂
  have hdata : t.assembled = sliceAssign d₂ 0 T.params.headerReserve
      (List.replicate T.params.headerReserve 0) := rfl
  have hone : ([0] : Bytes).length = 1 := rfl
  have hlen₀ : d₀.length = t.strOff + 1 := by rw [hd₀, length_resize, h6]
  have hlen₁ : d₁.length = t.strOff + 1 := by rw [hd₁, length_sliceAssign rfl (by omega), hlen₀]
  have hlen₂ : d₂.length = t.strOff + 1 := by rw [hd₂, length_sliceAssign hone (by omega), hlen₁]
  have hzeros : (List.replicate T.params.headerReserve (0 : UInt8)).length =
      T.params.headerReserve := List.length_replicate
  refine ⟨?_, fun i hlo hhi => ?_, ?_, ?_⟩
  · rw [hdata, length_sliceAssign hzeros (by omega), hlen₂]
  · rw [hdata, getElem?_sliceAssign hzeros (by omega), if_neg (by omega), hd₂,
      getElem?_sliceAssign hone (by omega), if_neg (by omega), hd₁,
      getElem?_sliceAssign rfl (by omega), if_neg (by omega), hd₀,
      getElem?_resize (by omega) (by omega)]
  · rw [hdata, slice_sliceAssign_of_disjoint hzeros (by omega) (by omega), hd₂,
      slice_sliceAssign_of_disjoint hone (by omega) (by omega), hd₁,
      slice_sliceAssign_self rfl (by omega)]
  · rw [hdata, getElem?_sliceAssign hzeros (by omega), if_neg (by omega), hd₂,
      getElem?_sliceAssign hone (by omega), if_pos (by omega), Nat.sub_self]
    rfl

lemma Fits.valid (h : t.Fits) : ∀ c ∈ t.commands, c.Valid := by
  intro c hc
  rcases List.mem_append.mp hc with hc | hc
  · exact h.commands.valid c hc
  · rcases List.mem_singleton.mp hc with rfl
    exact symtab_valid ⟨h.strOff, Nat.two_pow_pos 32, h.strOff, Nat.one_lt_two_pow (by decide)⟩

/-- **What a Phase 4 file holds**: its header and commands read back, the bytes of Phase 3
from the header reserve to the end of the bind stream, the export trie, and a string table of
one byte at the end. -/
theorem Fits.file_spec (h : t.Fits) :
    readImage t.file = some (dylibImage t.commands dylibFlags) ∧
      t.file.length = t.strOff + 1 ∧
      (∀ i, T.params.headerReserve ≤ i → i < t.bindEnd → t.file[i]? = t.base.file[i]?) ∧
      slice t.file t.exportOff t.trie.length = t.trie ∧ t.file[t.strOff]? = some 0 := by
  have hflags : dylibFlags < 2 ^ 32 := by decide
  have hemit : emitCommands (t.commands.map LoadCommand.encode) dylibFlags
      T.params.headerReserve (.phase3 .phase4Commands) t.assembled = .ok t.file :=
    (emitCommands_eq_ok hflags).mpr ⟨⟨h.count, h.head⟩, rfl⟩
  obtain ⟨hread, hhead, hlen, hsame⟩ := emitCommands_spec h.valid hflags hemit
  obtain ⟨hsize, hbytes, htrie, hstr⟩ := t.assembled_spec
  obtain ⟨h1, -, h2, h3, h4, h5, h6⟩ := t.bounds
  refine ⟨hread, (hlen (by omega)).trans hsize, fun i hlo hhi => ?_, ?_, ?_⟩
  · rw [hsame i hlo, hbytes i hlo hhi]
  · have hslice : slice t.file t.exportOff t.trie.length =
        slice t.assembled t.exportOff t.trie.length := slice_congr fun i _ => hsame _ (by omega)
    rw [hslice, htrie]
  · rw [hsame _ (by omega), hstr]

lemma segments_file : (dylibImage t.commands dylibFlags).segments =
    t.segments.map ImageSegment.command ++ [t.linkedit.command] :=
  segments_dylibImage _ _ _ _ _ rfl

lemma dyldInfo?_file : (dylibImage t.commands dylibFlags).dyldInfo? = some t.linkedit.tables :=
  dyldInfo?_dylibImage _ _ _ _ _

lemma headLength_commands (t : T.Translation args) :
    headLength t.commands = headLength (imageLoadCommands t.segments args t.linkedit) + 24 := by
  rw [commands, headLength, List.flatMap_append, List.length_append]
  rfl

/-- A translation with known numbers fits when they do. -/
lemma fits_of_linkedit {le : Linkedit} {segs : List ImageSegment} (hle : t.linkedit = le)
    (hasc : Ascends (le.fileoff, le.vmaddr) T.segments)
    (hsegs : stretched (le.fileoff, le.vmaddr) T.segments = segs)
    (hfit : CommandsFit segs args le) (hstr : le.exportOff + le.exportSize < 2 ^ 32)
    (hcount : (imageLoadCommands segs args le).length < 2 ^ 31)
    (hhead : headLength (imageLoadCommands segs args le) + 24 ≤ T.params.headerReserve)
    (hreserve : T.params.headerReserve < 2 ^ 32) : t.Fits := by
  subst hle hsegs
  have hlen := t.headLength_commands
  refine ⟨hasc, hfit, hstr, ?_, ?_, ?_⟩
  · rw [commands, List.length_append]
    change (imageLoadCommands t.segments args t.linkedit).length < 2 ^ 31 at hcount
    simp only [List.length_singleton]
    omega
  · change headLength (imageLoadCommands t.segments args t.linkedit) + 24 ≤ _ at hhead
    omega
  · rwa [hlen]

end Translation

/-! ### The small library -/

/-- The translator of the small library. -/
def small : Phase4Translator := ⟨Phase3Translator.small, 1000⟩

lemma buildExportTrie_small : buildExportTrie small.calls small.exports =
    .ok [0, 1, 95, 0, 5, 0, 1, 102, 0, 10, 4, 0, 160, 128, 4, 0] := by decide +kernel

lemma exists_translation_small : ∃ t : small.Translation {}, t.Fits := by
  obtain ⟨base, hbase, hfits⟩ := Phase3Translator.exists_translation_small
  refine ⟨⟨base, hfits, _, buildExportTrie_small⟩, ?_⟩
  have hle : (⟨base, hfits, _, buildExportTrie_small⟩ : small.Translation {}).linkedit =
      small.addExports (Phase3Translator.small.linkedit Phase3Translator.small.dataEnd 6 3) 16 :=
    congrArg (fun le => small.addExports le 16) hbase
  exact Translation.fits_of_linkedit hle (by decide +kernel) rfl (by decide +kernel)
    (by decide +kernel) (by decide +kernel) (by decide +kernel) (by decide +kernel)

end Phase4Translator

end Apk2Ios
