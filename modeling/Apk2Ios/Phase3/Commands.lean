import Apk2Ios.MachO.Format
import Apk2Ios.Phase3.Encoding
import Apk2Ios.Python

/-!
# Phase 3: load commands

The builders of load commands and of the file header.  Each of them either raises, because
a value does not fit its field, or writes exactly one command of the Mach-O format; a file
that starts with a header and the commands it counts therefore reads back as them.
-/

namespace Apk2Ios

open Lib MachO

/-- `ImageSegment`: a Mach-O segment and the `PT_LOAD` placed in it. -/
structure ImageSegment where
  name : String
  vmaddr : ℕ
  vmsize : ℕ
  fileoff : ℕ
  filesize : ℕ
  protection : ℕ
  elfVaddr : ℕ
  elfOffset : ℕ
  elfFilesz : ℕ
  elfMemsz : ℕ
  dataAddr : ℕ
  dataFileoff : ℕ
  dataSize : ℕ
  sectionName : String
deriving DecidableEq, Repr

/-- `LC_SEGMENT_64`. -/
def lcSegment64 : ℕ := 0x19

/-- `LC_LOAD_DYLIB`. -/
def lcLoadDylib : ℕ := 0x0C

/-- `LC_ID_DYLIB`. -/
def lcIdDylib : ℕ := 0x0D

/-- `LC_BUILD_VERSION`. -/
def lcBuildVersion : ℕ := 0x32

/-- `LC_DYLD_INFO_ONLY`. -/
def lcDyldInfoOnly : ℕ := 0x80000022

/-- `LC_SYMTAB`. -/
def lcSymtab : ℕ := 0x2

/-- `PLATFORM_IOS`. -/
def platformIos : ℕ := 2

/-- `CPU_TYPE_ARM64`. -/
def cpuTypeArm64 : ℕ := 0x0100000C

/-- `MH_DYLIB`. -/
def mhDylib : ℕ := 6

/-! ### Builders -/

/-- `_dylib_command(command, name)`. -/
def dylibCommand (command : ℕ) (name : String) : PyM Bytes := do
  let raw := utf8 name ++ [0]
  let size := align (24 + raw.length) 8
  let head ← structPack [.I command, .I size, .I 24, .I 0, .I 0x10000, .I 0x10000]
  return head ++ raw ++ List.replicate (size - 24 - raw.length) 0

/-- `_segment_no_sections(…)`. -/
def segmentNoSections (name : String) (vmaddr vmsize fileoff filesize protection : ℕ) :
    PyM Bytes :=
  structPack [.I lcSegment64, .I 72, .s (name16 name), .Q vmaddr, .Q vmsize, .Q fileoff,
    .Q filesize, .i protection, .i protection, .I 0, .I 0]

/-- `_segment_with_data_section(seg)`.  An empty section in front makes the address of the
first section equal the address of the segment. -/
def segmentWithDataSection (seg : ImageSegment) : PyM Bytes := do
  let command ← structPack [.I lcSegment64, .I (72 + 80 * 2), .s (name16 seg.name),
    .Q seg.vmaddr, .Q seg.vmsize, .Q seg.fileoff, .Q seg.filesize, .i seg.protection,
    .i seg.protection, .I 2, .I 0]
  let sentinel ← structPack [.s (name16 "__segstart"), .s (name16 seg.name), .Q seg.vmaddr,
    .Q 0, .I seg.fileoff, .I 0, .I 0, .I 0, .I 0, .I 0, .I 0, .I 0]
  let dataSection ← structPack [.s (name16 seg.sectionName), .s (name16 seg.name),
    .Q seg.dataAddr, .Q seg.dataSize, .I seg.dataFileoff, .I 3, .I 0, .I 0, .I 0, .I 0, .I 0,
    .I 0]
  return command ++ sentinel ++ dataSection

/-- The version number of a release, `(min_ios[0] << 16) | (min_ios[1] << 8) | min_ios[2]`. -/
def packedVersion (minIos : ℕ × ℕ × ℕ) : ℕ := minIos.1 <<< 16 ||| minIos.2.1 <<< 8 ||| minIos.2.2

/-- `_build_version_command(min_ios)`. -/
def buildVersionCommand (minIos : ℕ × ℕ × ℕ) : PyM Bytes :=
  structPack [.I lcBuildVersion, .I 24, .I platformIos, .I (packedVersion minIos),
    .I (packedVersion minIos), .I 0]

/-- The `LC_DYLD_INFO_ONLY` command of a translator.  Weak and lazy binds are not used. -/
def dyldInfoCommand (rebaseOff rebaseSize bindOff bindSize exportOff exportSize : ℕ) :
    PyM Bytes :=
  structPack [.I lcDyldInfoOnly, .I 48, .I rebaseOff, .I rebaseSize, .I bindOff, .I bindSize,
    .I 0, .I 0, .I 0, .I 0, .I exportOff, .I exportSize]

/-- The `LC_SYMTAB` command of Phase 4. -/
def symtabCommand (symoff nsyms stroff strsize : ℕ) : PyM Bytes :=
  structPack [.I lcSymtab, .I 24, .I symoff, .I nsyms, .I stroff, .I strsize]

/-- The file header of a dynamic library. -/
def machHeader (ncmds sizeofcmds flags : ℕ) : PyM Bytes :=
  structPack [.I magic64, .i cpuTypeArm64, .i 0, .I mhDylib, .I ncmds, .I sizeofcmds, .I flags,
    .I 0]

/-- `MH_DYLDLINK | MH_TWOLEVEL`. -/
def dylibFlags : ℕ := 0x4 ||| 0x80

/-- The last part of a translation: the commands are joined, the header is written at the
start of the file and the commands after it.  The space in front of the copied data is
limited. -/
def emitCommands (commands : List Bytes) (flags limit : ℕ) (tooLong : PyError) (file : Bytes) :
    PyM Bytes := do
  let loadCommands := commands.flatten
  let header ← machHeader commands.length loadCommands.length flags
  raiseIf (limit < header.length + loadCommands.length) tooLong
  let file := sliceAssign file 0 header.length header
  return sliceAssign file header.length loadCommands.length loadCommands

/-! ### The commands that are meant -/

namespace ImageSegment

variable (seg : ImageSegment)

/-- The empty section at the start of the segment. -/
def sentinel : Section64 :=
  ⟨name16 "__segstart", name16 seg.name, seg.vmaddr, 0, seg.fileoff, 0, 0⟩

/-- The section that spans the file-backed bytes of the `PT_LOAD`. -/
def dataSection : Section64 :=
  ⟨name16 seg.sectionName, name16 seg.name, seg.dataAddr, seg.dataSize, seg.dataFileoff, 3, 0⟩

/-- The segment command. -/
def command : Segment64 where
  segname := name16 seg.name
  vmaddr := seg.vmaddr
  vmsize := seg.vmsize
  fileoff := seg.fileoff
  filesize := seg.filesize
  maxprot := seg.protection
  initprot := seg.protection
  flags := 0
  sections := [seg.sentinel, seg.dataSection]

/-- All fields are in the range of their formats. -/
def Packs : Prop :=
  seg.vmaddr < 2 ^ 64 ∧ seg.vmsize < 2 ^ 64 ∧ seg.fileoff < 2 ^ 32 ∧ seg.filesize < 2 ^ 64 ∧
    seg.protection < 2 ^ 31 ∧ seg.dataAddr < 2 ^ 64 ∧ seg.dataSize < 2 ^ 64 ∧
    seg.dataFileoff < 2 ^ 32

instance : Decidable seg.Packs := inferInstanceAs (Decidable (_ ∧ _))

end ImageSegment

/-- The `__LINKEDIT` segment, a segment without sections. -/
def plainSegment (name : String) (vmaddr vmsize fileoff filesize protection : ℕ) : Segment64 :=
  ⟨name16 name, vmaddr, vmsize, fileoff, filesize, protection, protection, 0, []⟩

/-- The library of a library command: zeros pad the name to a multiple of 8. -/
def namedDylib (name : String) : Dylib :=
  let raw := utf8 name ++ [0]
  ⟨raw ++ List.replicate (align (24 + raw.length) 8 - 24 - raw.length) 0, 0, 0x10000, 0x10000⟩

/-- The release of a build version command. -/
def iosVersion (minIos : ℕ × ℕ × ℕ) : BuildVersion :=
  ⟨platformIos, packedVersion minIos, packedVersion minIos⟩

/-- The dynamic linker tables of a translator. -/
def tables (rebaseOff rebaseSize bindOff bindSize exportOff exportSize : ℕ) : DyldInfo :=
  ⟨rebaseOff, rebaseSize, bindOff, bindSize, 0, 0, 0, 0, exportOff, exportSize⟩

/-! ### What the builders write -/

lemma isPage_16K : IsPage 0x4000 := ⟨14, rfl⟩

lemma isPage_eight : IsPage 8 := ⟨3, rfl⟩

lemma segmentWithDataSection_eq_ok {seg : ImageSegment} {bs : Bytes} :
    segmentWithDataSection seg = .ok bs ↔
      seg.Packs ∧ bs = (LoadCommand.segment seg.command).encode := by
  simp only [segmentWithDataSection, PyM.bind_eq_ok, structPack_eq_ok, PyM.pure_eq_ok]
  constructor
  · rintro ⟨_, ⟨h, rfl⟩, _, ⟨h', rfl⟩, _, ⟨h'', rfl⟩, rfl⟩
    simp only [List.forall_mem_cons, Field.Fits] at h h' h''
    refine ⟨⟨h.2.2.2.1, h.2.2.2.2.1, h'.2.2.2.2.1, h.2.2.2.2.2.2.1, h.2.2.2.2.2.2.2.1,
      h''.2.2.1, h''.2.2.2.1, h''.2.2.2.2.1⟩, ?_⟩
    simp [LoadCommand.encode, LoadCommand.cmd, LoadCommand.cmdsize, LoadCommand.body,
      Segment64.encode, Section64.encode, ImageSegment.command, ImageSegment.sentinel,
      ImageSegment.dataSection, Field.bytes, words, lcSegment64]
  · rintro ⟨⟨h1, h2, h3, h4, h5, h6, h7, h8⟩, rfl⟩
    refine ⟨_, ⟨?_, rfl⟩, _, ⟨?_, rfl⟩, _, ⟨?_, rfl⟩, ?_⟩
    · simp [Field.Fits, lcSegment64]
      omega
    · simp [Field.Fits]
      omega
    · simp [Field.Fits]
      omega
    · simp [LoadCommand.encode, LoadCommand.cmd, LoadCommand.cmdsize, LoadCommand.body,
        Segment64.encode, Section64.encode, ImageSegment.command, ImageSegment.sentinel,
        ImageSegment.dataSection, Field.bytes, words, lcSegment64]

lemma segmentNoSections_eq_ok {name : String} {vmaddr vmsize fileoff filesize prot : ℕ}
    {bs : Bytes} :
    segmentNoSections name vmaddr vmsize fileoff filesize prot = .ok bs ↔
      (vmaddr < 2 ^ 64 ∧ vmsize < 2 ^ 64 ∧ fileoff < 2 ^ 64 ∧ filesize < 2 ^ 64 ∧
        prot < 2 ^ 31) ∧
      bs = (LoadCommand.segment
        (plainSegment name vmaddr vmsize fileoff filesize prot)).encode := by
  rw [segmentNoSections, structPack_eq_ok]
  refine and_congr ?_ (Eq.congr_right ?_)
  · simp [Field.Fits, lcSegment64]
  · simp [LoadCommand.encode, LoadCommand.cmd, LoadCommand.cmdsize, LoadCommand.body,
      Segment64.encode, plainSegment, Field.bytes, words, lcSegment64]

lemma dylibCommand_eq_ok (command : ℕ) (name : String) {c : LoadCommand} (hc : c.cmd = command)
    (hbody : c.body = (namedDylib name).encode) (hlt : command < 2 ^ 32) (bs : Bytes) :
    dylibCommand command name = .ok bs ↔ c.cmdsize < 2 ^ 32 ∧ bs = c.encode := by
  have hle := le_align (v := 24 + (utf8 name ++ [0]).length) isPage_eight.pos
  have hsize : c.cmdsize = align (24 + (utf8 name ++ [0]).length) 8 := by
    rw [LoadCommand.cmdsize, hbody, Dylib.encode, List.length_append, length_words]
    simp only [namedDylib, List.length_append, List.length_replicate, List.length_cons,
      List.length_nil] at hle ⊢
    omega
  simp only [dylibCommand, PyM.bind_eq_ok, structPack_eq_ok, PyM.pure_eq_ok]
  constructor
  · rintro ⟨_, ⟨h, rfl⟩, rfl⟩
    simp only [List.forall_mem_cons, Field.Fits] at h
    refine ⟨hsize ▸ h.2.1, ?_⟩
    rw [LoadCommand.encode, hsize, hbody, hc]
    simp [Dylib.encode, namedDylib, Field.bytes, words]
  · rintro ⟨h, rfl⟩
    refine ⟨_, ⟨?_, rfl⟩, ?_⟩
    · rw [hsize] at h
      simpa [Field.Fits] using ⟨hlt, by simpa using h⟩
    · rw [LoadCommand.encode, hsize, hbody, hc]
      simp [Dylib.encode, namedDylib, Field.bytes, words]

lemma buildVersionCommand_eq_ok {minIos : ℕ × ℕ × ℕ} {bs : Bytes} :
    buildVersionCommand minIos = .ok bs ↔ packedVersion minIos < 2 ^ 32 ∧
      bs = (LoadCommand.buildVersion (iosVersion minIos)).encode := by
  rw [buildVersionCommand, structPack_eq_ok]
  refine and_congr ?_ (Eq.congr_right ?_)
  · simp [Field.Fits, lcBuildVersion, platformIos]
  · simp [LoadCommand.encode, LoadCommand.cmd, LoadCommand.cmdsize, LoadCommand.body,
      iosVersion, Field.bytes, words, lcBuildVersion]

lemma dyldInfoCommand_eq_ok {ro rs bo bs eo es : ℕ} {out : Bytes} :
    dyldInfoCommand ro rs bo bs eo es = .ok out ↔
      (ro < 2 ^ 32 ∧ rs < 2 ^ 32 ∧ bo < 2 ^ 32 ∧ bs < 2 ^ 32 ∧ eo < 2 ^ 32 ∧ es < 2 ^ 32) ∧
      out = (LoadCommand.dyldInfo (tables ro rs bo bs eo es)).encode := by
  rw [dyldInfoCommand, structPack_eq_ok]
  refine and_congr ?_ (Eq.congr_right ?_)
  · simp [Field.Fits, lcDyldInfoOnly]
  · simp [LoadCommand.encode, LoadCommand.cmd, LoadCommand.cmdsize, LoadCommand.body,
      tables, Field.bytes, words, lcDyldInfoOnly]

lemma symtabCommand_eq_ok {symoff nsyms stroff strsize : ℕ} {out : Bytes} :
    symtabCommand symoff nsyms stroff strsize = .ok out ↔
      (symoff < 2 ^ 32 ∧ nsyms < 2 ^ 32 ∧ stroff < 2 ^ 32 ∧ strsize < 2 ^ 32) ∧
      out = (LoadCommand.symtab ⟨symoff, nsyms, stroff, strsize⟩).encode := by
  rw [symtabCommand, structPack_eq_ok]
  refine and_congr ?_ (Eq.congr_right ?_)
  · simp [Field.Fits, lcSymtab]
  · simp [LoadCommand.encode, LoadCommand.cmd, LoadCommand.cmdsize, LoadCommand.body,
      Field.bytes, words, lcSymtab]

lemma machHeader_eq_ok {ncmds sizeofcmds flags : ℕ} {out : Bytes} :
    machHeader ncmds sizeofcmds flags = .ok out ↔
      (ncmds < 2 ^ 32 ∧ sizeofcmds < 2 ^ 32 ∧ flags < 2 ^ 32) ∧
      out = (Header.mk cpuTypeArm64 0 mhDylib ncmds sizeofcmds flags).encode := by
  rw [machHeader, structPack_eq_ok]
  refine and_congr ?_ (Eq.congr_right ?_)
  · simp [Field.Fits, magic64, cpuTypeArm64, mhDylib]
  · simp [Header.encode, Field.bytes, words]

/-! ### Validity -/

lemma ImageSegment.Packs.valid {seg : ImageSegment} (h : seg.Packs) :
    (LoadCommand.segment seg.command).Valid := by
  obtain ⟨h1, h2, h3, h4, h5, h6, h7, h8⟩ := h
  have hsentinel : seg.sentinel.Valid :=
    ⟨length_name16 _, length_name16 _, h1, by simp [sentinel], h3, by simp [sentinel],
      by simp [sentinel]⟩
  have hdata : seg.dataSection.Valid :=
    ⟨length_name16 _, length_name16 _, h6, h7, h8, by simp [dataSection],
      by simp [dataSection]⟩
  refine ⟨⟨length_name16 _, h1, h2, ?_, h4, ?_, ?_, by simp [command], by simp [command], ?_⟩,
    ?_⟩
  · change seg.fileoff < 2 ^ 64
    omega
  · change seg.protection < 2 ^ 32
    omega
  · change seg.protection < 2 ^ 32
    omega
  · intro t ht
    rcases List.mem_cons.mp ht with rfl | ht
    · exact hsentinel
    · rcases List.mem_singleton.mp ht with rfl
      exact hdata
  · simp [LoadCommand.cmdsize, LoadCommand.body, Segment64.encode, Section64.encode,
      ImageSegment.command, ImageSegment.sentinel, ImageSegment.dataSection]

lemma plainSegment_valid {name : String} {vmaddr vmsize fileoff filesize prot : ℕ}
    (h1 : vmaddr < 2 ^ 64) (h2 : vmsize < 2 ^ 64) (h3 : fileoff < 2 ^ 64)
    (h4 : filesize < 2 ^ 64) (h5 : prot < 2 ^ 31) :
    (LoadCommand.segment (plainSegment name vmaddr vmsize fileoff filesize prot)).Valid := by
  have hprot : prot < 2 ^ 32 := by omega
  refine ⟨⟨length_name16 _, h1, h2, h3, h4, hprot, hprot, ?_, ?_, ?_⟩, ?_⟩
  · simp [plainSegment]
  · simp [plainSegment]
  · simp [plainSegment]
  · simp [LoadCommand.cmdsize, LoadCommand.body, Segment64.encode, plainSegment]

lemma namedDylib_valid (name : String) : (namedDylib name).Valid :=
  ⟨by simp [namedDylib], by simp [namedDylib], by simp [namedDylib]⟩

lemma buildVersion_valid {minIos : ℕ × ℕ × ℕ} (h : packedVersion minIos < 2 ^ 32) :
    (LoadCommand.buildVersion (iosVersion minIos)).Valid :=
  ⟨⟨by simp [iosVersion, platformIos], h, h⟩, by simp [LoadCommand.cmdsize, LoadCommand.body]⟩

lemma tables_valid {ro rs bo bs eo es : ℕ} (h : ro < 2 ^ 32 ∧ rs < 2 ^ 32 ∧ bo < 2 ^ 32 ∧
    bs < 2 ^ 32 ∧ eo < 2 ^ 32 ∧ es < 2 ^ 32) :
    (LoadCommand.dyldInfo (tables ro rs bo bs eo es)).Valid :=
  ⟨by simpa [LoadCommand.FieldsValid, tables] using h,
    by simp [LoadCommand.cmdsize, LoadCommand.body]⟩

lemma symtab_valid {t : Symtab} (h : t.symoff < 2 ^ 32 ∧ t.nsyms < 2 ^ 32 ∧
    t.stroff < 2 ^ 32 ∧ t.strsize < 2 ^ 32) : (LoadCommand.symtab t).Valid :=
  ⟨by simpa [LoadCommand.FieldsValid] using h, by simp [LoadCommand.cmdsize, LoadCommand.body]⟩

/-! ### The commands of a translation -/

/-- The image with the given commands. -/
def dylibImage (cs : List LoadCommand) (flags : ℕ) : Image :=
  ⟨⟨cpuTypeArm64, 0, mhDylib, cs.length, (cs.flatMap LoadCommand.encode).length, flags⟩, cs⟩

@[simp] lemma dylibImage_commands (cs : List LoadCommand) (flags : ℕ) :
    (dylibImage cs flags).commands = cs := rfl

/-- The keyword arguments of `translate`. -/
structure TranslateArgs where
  shimInstallName : String := "@rpath/libbionic_shim.dylib"
  installName : String := "@rpath/libil2cpp_ported.dylib"
  shimPrefix : String := "_a2i_"
  minIos : ℕ × ℕ × ℕ := (12, 0, 0)

/-- The numbers of the `__LINKEDIT` segment and of the tables in it. -/
structure Linkedit where
  vmaddr : ℕ
  vmsize : ℕ
  fileoff : ℕ
  filesize : ℕ
  rebaseSize : ℕ
  bindOff : ℕ
  bindSize : ℕ
  exportOff : ℕ := 0
  exportSize : ℕ := 0
deriving DecidableEq, Repr

/-- The part of the list of commands that both translators build in the same way.  The rebase
stream is the first thing in `__LINKEDIT`. -/
def imageCommands (segs : List ImageSegment) (args : TranslateArgs) (le : Linkedit) :
    PyM (List Bytes) := do
  let segments ← segs.mapM segmentWithDataSection
  let linkedit ← segmentNoSections "__LINKEDIT" le.vmaddr le.vmsize le.fileoff le.filesize 1
  let loadDylib ← dylibCommand lcLoadDylib args.shimInstallName
  let idDylib ← dylibCommand lcIdDylib args.installName
  let buildVersion ← buildVersionCommand args.minIos
  let dyldInfo ← dyldInfoCommand le.fileoff le.rebaseSize le.bindOff le.bindSize le.exportOff
    le.exportSize
  return segments ++ [linkedit, loadDylib, idDylib, buildVersion, dyldInfo]

/-- The segment command of `__LINKEDIT`. -/
def Linkedit.command (le : Linkedit) : Segment64 :=
  plainSegment "__LINKEDIT" le.vmaddr le.vmsize le.fileoff le.filesize 1

/-- The location of the tables. -/
def Linkedit.tables (le : Linkedit) : DyldInfo :=
  Apk2Ios.tables le.fileoff le.rebaseSize le.bindOff le.bindSize le.exportOff le.exportSize

/-- The commands that are meant. -/
def imageLoadCommands (segs : List ImageSegment) (args : TranslateArgs) (le : Linkedit) :
    List LoadCommand :=
  segs.map (fun seg => .segment seg.command) ++
    [.segment le.command, .loadDylib (namedDylib args.shimInstallName),
      .idDylib (namedDylib args.installName), .buildVersion (iosVersion args.minIos),
      .dyldInfo le.tables]

/-- Every number of the commands fits its field. -/
structure CommandsFit (segs : List ImageSegment) (args : TranslateArgs) (le : Linkedit) :
    Prop where
  packs : ∀ seg ∈ segs, seg.Packs
  vmaddr : le.vmaddr < 2 ^ 64
  vmsize : le.vmsize < 2 ^ 64
  filesize : le.filesize < 2 ^ 64
  shimInstallName : (LoadCommand.loadDylib (namedDylib args.shimInstallName)).cmdsize < 2 ^ 32
  installName : (LoadCommand.idDylib (namedDylib args.installName)).cmdsize < 2 ^ 32
  minIos : packedVersion args.minIos < 2 ^ 32
  tables : le.fileoff < 2 ^ 32 ∧ le.rebaseSize < 2 ^ 32 ∧ le.bindOff < 2 ^ 32 ∧
    le.bindSize < 2 ^ 32 ∧ le.exportOff < 2 ^ 32 ∧ le.exportSize < 2 ^ 32

section

variable {segs : List ImageSegment} {args : TranslateArgs} {le : Linkedit}

instance : Decidable (CommandsFit segs args le) :=
  decidable_of_iff ((∀ seg ∈ segs, seg.Packs) ∧ le.vmaddr < 2 ^ 64 ∧ le.vmsize < 2 ^ 64 ∧
      le.filesize < 2 ^ 64 ∧
      (LoadCommand.loadDylib (namedDylib args.shimInstallName)).cmdsize < 2 ^ 32 ∧
      (LoadCommand.idDylib (namedDylib args.installName)).cmdsize < 2 ^ 32 ∧
      packedVersion args.minIos < 2 ^ 32 ∧ le.fileoff < 2 ^ 32 ∧ le.rebaseSize < 2 ^ 32 ∧
      le.bindOff < 2 ^ 32 ∧ le.bindSize < 2 ^ 32 ∧ le.exportOff < 2 ^ 32 ∧ le.exportSize < 2 ^ 32)
    ⟨fun ⟨h1, h2, h3, h4, h5, h6, h7, h8⟩ => ⟨h1, h2, h3, h4, h5, h6, h7, h8⟩,
      fun ⟨h1, h2, h3, h4, h5, h6, h7, h8⟩ => ⟨h1, h2, h3, h4, h5, h6, h7, h8⟩⟩

lemma mapM_segmentWithDataSection_eq_ok {out : List Bytes} :
    segs.mapM segmentWithDataSection = .ok out ↔ (∀ seg ∈ segs, seg.Packs) ∧
      out = segs.map fun seg => (LoadCommand.segment seg.command).encode := by
  refine PyM.mapM_eq_ok_map fun seg bs => ?_
  rw [segmentWithDataSection_eq_ok, eq_comm (a := bs)]

lemma imageCommands_eq_ok {out : List Bytes} :
    imageCommands segs args le = .ok out ↔
      CommandsFit segs args le ∧
        out = (imageLoadCommands segs args le).map LoadCommand.encode := by
  have hload := dylibCommand_eq_ok lcLoadDylib args.shimInstallName
    (c := .loadDylib (namedDylib args.shimInstallName)) rfl rfl (by decide)
  have hid := dylibCommand_eq_ok lcIdDylib args.installName
    (c := .idDylib (namedDylib args.installName)) rfl rfl (by decide)
  simp only [imageCommands, PyM.bind_eq_ok, mapM_segmentWithDataSection_eq_ok,
    segmentNoSections_eq_ok, hload, hid, buildVersionCommand_eq_ok, dyldInfoCommand_eq_ok,
    PyM.pure_eq_ok]
  constructor
  · rintro ⟨_, ⟨h1, rfl⟩, _, ⟨h2, rfl⟩, _, ⟨h3, rfl⟩, _, ⟨h4, rfl⟩, _, ⟨h5, rfl⟩, _, ⟨h6, rfl⟩,
      rfl⟩
    refine ⟨⟨h1, h2.1, h2.2.1, h2.2.2.2.1, h3, h4, h5, h6⟩, ?_⟩
    simp [imageLoadCommands, Linkedit.command, Linkedit.tables, Function.comp_def]
  · rintro ⟨⟨h1, h2, h3, h4, h5, h6, h7, h8⟩, rfl⟩
    refine ⟨_, ⟨h1, rfl⟩, _, ⟨⟨h2, h3, by omega, h4, by decide⟩, rfl⟩, _, ⟨h5, rfl⟩, _,
      ⟨h6, rfl⟩, _, ⟨h7, rfl⟩, _, ⟨h8, rfl⟩, ?_⟩
    simp [imageLoadCommands, Linkedit.command, Linkedit.tables, Function.comp_def]

lemma CommandsFit.valid (h : CommandsFit segs args le) :
    ∀ c ∈ imageLoadCommands segs args le, c.Valid := by
  intro c hc
  simp only [imageLoadCommands, List.mem_append, List.mem_map, List.mem_cons, List.not_mem_nil,
    or_false] at hc
  rcases hc with ⟨seg, hseg, rfl⟩ | rfl | rfl | rfl | rfl | rfl
  · exact (h.packs seg hseg).valid
  · have hoff := h.tables.1
    exact plainSegment_valid h.vmaddr h.vmsize (by omega) h.filesize (by decide)
  · exact ⟨namedDylib_valid _, h.shimInstallName⟩
  · exact ⟨namedDylib_valid _, h.installName⟩
  · exact buildVersion_valid h.minIos
  · exact tables_valid h.tables

variable {more : List LoadCommand} {flags : ℕ}

/-- The segments of an image with these commands and more that are not segments. -/
lemma segments_dylibImage (segs : List ImageSegment) (args : TranslateArgs) (le : Linkedit)
    (more : List LoadCommand) (flags : ℕ) (hmore : more.filterMap LoadCommand.segment? = []) :
    (dylibImage (imageLoadCommands segs args le ++ more) flags).segments =
      segs.map ImageSegment.command ++ [le.command] := by
  have hsegs : (segs.map fun seg => LoadCommand.segment seg.command).filterMap
      LoadCommand.segment? = segs.map ImageSegment.command := by
    rw [List.filterMap_map, ← List.filterMap_eq_map]
    rfl
  simp only [Image.segments, dylibImage, imageLoadCommands, List.filterMap_append, hsegs, hmore,
    List.append_nil]
  rfl

lemma dyldInfo?_dylibImage (segs : List ImageSegment) (args : TranslateArgs) (le : Linkedit)
    (more : List LoadCommand) (flags : ℕ) :
    (dylibImage (imageLoadCommands segs args le ++ more) flags).dyldInfo? = some le.tables := by
  have hsegs : (segs.map fun seg => LoadCommand.segment seg.command).findSome?
      LoadCommand.dyldInfo? = none := by
    simp [List.findSome?_eq_none_iff, LoadCommand.dyldInfo?]
  simp only [Image.dyldInfo?, dylibImage, imageLoadCommands, List.findSome?_append, hsegs]
  rfl

end

/-- The symbol table of an image whose last command gives it. -/
lemma symtab?_dylibImage {segs : List ImageSegment} {args : TranslateArgs} {le : Linkedit}
    {flags : ℕ} (strings : Symtab) :
    (dylibImage (imageLoadCommands segs args le ++ [.symtab strings]) flags).symtab? =
      some strings := by
  have hsegs : (segs.map fun seg => LoadCommand.segment seg.command).findSome?
      LoadCommand.symtab? = none := by
    simp [List.findSome?_eq_none_iff, LoadCommand.symtab?]
  simp only [Image.symtab?, dylibImage, imageLoadCommands, List.findSome?_append, hsegs]
  rfl

/-! ### The written file -/

/-- The length of the header and the commands. -/
def headLength (cs : List LoadCommand) : ℕ := 32 + (cs.flatMap LoadCommand.encode).length

section

variable {cs : List LoadCommand} {flags limit : ℕ} {tooLong : PyError} {file out : Bytes}

lemma length_dylibImage_encode (cs : List LoadCommand) (flags : ℕ) :
    (dylibImage cs flags).encode.length = headLength cs := by
  rw [Image.encode, List.length_append, Header.length_encode]
  rfl

/-- The header and the commands replace the start of the file. -/
lemma emitCommands_eq_ok (hflags : flags < 2 ^ 32) :
    emitCommands (cs.map LoadCommand.encode) flags limit tooLong file = .ok out ↔
      (cs.length < 2 ^ 32 ∧ headLength cs < 2 ^ 32 + 32 ∧ headLength cs ≤ limit) ∧
      out = (dylibImage cs flags).encode ++ file.drop (headLength cs) := by
  have hflat : (cs.map LoadCommand.encode).flatten = cs.flatMap LoadCommand.encode := rfl
  have hassign : ∀ head body : Bytes, head.length = 32 →
      sliceAssign (sliceAssign file 0 32 head) 32 body.length body =
        head ++ body ++ file.drop (32 + body.length) := by
    intro head body hlen
    simp only [sliceAssign, List.take_zero, List.nil_append, Nat.zero_add]
    rw [List.take_append_of_le_length (by omega), List.take_of_length_le (by omega),
      List.drop_append, List.drop_of_length_le (by omega), List.nil_append, List.drop_drop]
    congr 2
    omega
  simp only [emitCommands, PyM.bind_eq_ok, machHeader_eq_ok, PyM.raiseIf_eq_ok,
    PyM.pure_eq_ok, List.length_map, hflat]
  constructor
  · rintro ⟨_, ⟨h, rfl⟩, _, hle, rfl⟩
    rw [Header.length_encode] at hle
    rw [Header.length_encode, hassign _ _ (Header.length_encode _)]
    exact ⟨⟨h.1, by unfold headLength; omega, by unfold headLength; omega⟩, rfl⟩
  · rintro ⟨⟨hn, hlt, hle⟩, rfl⟩
    unfold headLength at hlt hle
    refine ⟨_, ⟨⟨hn, by omega, hflags⟩, rfl⟩, (), ?_, ?_⟩
    · rw [Header.length_encode]
      omega
    · rw [Header.length_encode, hassign _ _ (Header.length_encode _)]
      rfl

lemma dylibImage_valid (hcs : ∀ c ∈ cs, c.Valid) (hn : cs.length < 2 ^ 32)
    (hlt : headLength cs < 2 ^ 32 + 32) (hflags : flags < 2 ^ 32) :
    (dylibImage cs flags).Valid where
  cputype := by simp [dylibImage, cpuTypeArm64]
  cpusubtype := by simp [dylibImage]
  filetype := by simp [dylibImage, mhDylib]
  ncmds_lt := hn
  sizeofcmds_lt := by
    unfold headLength at hlt
    change (cs.flatMap LoadCommand.encode).length < 2 ^ 32
    omega
  flags := hflags
  ncmds := rfl
  sizeofcmds := rfl
  commands := hcs

/-- **The file that is written starts with a header and commands that read back, and keeps
every byte behind them.** -/
theorem emitCommands_spec (hcs : ∀ c ∈ cs, c.Valid) (hflags : flags < 2 ^ 32)
    (h : emitCommands (cs.map LoadCommand.encode) flags limit tooLong file = .ok out) :
    readImage out = some (dylibImage cs flags) ∧ headLength cs ≤ limit ∧
      (headLength cs ≤ file.length → out.length = file.length) ∧
      ∀ i, limit ≤ i → out[i]? = file[i]? := by
  obtain ⟨⟨hn, hlt, hle⟩, rfl⟩ := (emitCommands_eq_ok hflags).mp h
  have hlen := length_dylibImage_encode cs flags
  refine ⟨readImage_encode_append (dylibImage_valid hcs hn hlt hflags) _, hle, ?_, ?_⟩
  · intro hfile
    rw [List.length_append, List.length_drop]
    omega
  · intro i hi
    rw [List.getElem?_append_right (by omega), List.getElem?_drop]
    congr 1
    omega

end

end Apk2Ios
