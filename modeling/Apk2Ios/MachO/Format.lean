import Apk2Ios.Lib.Reader

/-!
# Mach-O files

The header and the load commands of a 64-bit Mach-O image: their records, their bytes and
the reader that walks the commands by their sizes.  A file that starts with an encoded
header and encoded commands reads back as exactly these.
-/

namespace Apk2Ios.MachO

open Lib

/-! ### Records -/

/-- The file header. -/
structure Header where
  cputype : ℕ
  cpusubtype : ℕ
  filetype : ℕ
  ncmds : ℕ
  sizeofcmds : ℕ
  flags : ℕ
deriving DecidableEq, Repr

/-- A section header of a segment command. -/
structure Section64 where
  sectname : Bytes
  segname : Bytes
  addr : ℕ
  size : ℕ
  offset : ℕ
  align : ℕ
  flags : ℕ
deriving DecidableEq, Repr

/-- The command `LC_SEGMENT_64`. -/
structure Segment64 where
  segname : Bytes
  vmaddr : ℕ
  vmsize : ℕ
  fileoff : ℕ
  filesize : ℕ
  maxprot : ℕ
  initprot : ℕ
  flags : ℕ
  sections : List Section64
deriving DecidableEq, Repr

/-- The commands that name a dynamic library.  `path` is everything from the name to the end
of the command: the name, its NUL and the padding. -/
structure Dylib where
  path : Bytes
  timestamp : ℕ
  currentVersion : ℕ
  compatibilityVersion : ℕ
deriving DecidableEq, Repr

/-- The command `LC_BUILD_VERSION`, without tool entries. -/
structure BuildVersion where
  platform : ℕ
  minos : ℕ
  sdk : ℕ
deriving DecidableEq, Repr

/-- The command `LC_DYLD_INFO_ONLY`. -/
structure DyldInfo where
  rebaseOff : ℕ
  rebaseSize : ℕ
  bindOff : ℕ
  bindSize : ℕ
  weakBindOff : ℕ
  weakBindSize : ℕ
  lazyBindOff : ℕ
  lazyBindSize : ℕ
  exportOff : ℕ
  exportSize : ℕ
deriving DecidableEq, Repr

/-- The command `LC_SYMTAB`. -/
structure Symtab where
  symoff : ℕ
  nsyms : ℕ
  stroff : ℕ
  strsize : ℕ
deriving DecidableEq, Repr

inductive LoadCommand where
  | segment (s : Segment64)
  | loadDylib (d : Dylib)
  | idDylib (d : Dylib)
  | buildVersion (v : BuildVersion)
  | dyldInfo (i : DyldInfo)
  | symtab (t : Symtab)
  | other (cmd : ℕ) (body : Bytes)
deriving DecidableEq, Repr

namespace LoadCommand

/-- The segment of a segment command. -/
def segment? : LoadCommand → Option Segment64
  | .segment s => some s
  | _ => none

/-- The locations in a dynamic linker command. -/
def dyldInfo? : LoadCommand → Option DyldInfo
  | .dyldInfo i => some i
  | _ => none

/-- The table of a symbol table command. -/
def symtab? : LoadCommand → Option Symtab
  | .symtab t => some t
  | _ => none

end LoadCommand

/-- The commands of an image. -/
structure Image where
  header : Header
  commands : List LoadCommand
deriving DecidableEq, Repr

namespace Image

/-- The segments, in the order of their commands. -/
def segments (im : Image) : List Segment64 :=
  im.commands.filterMap LoadCommand.segment?

/-- The location of the tables of the dynamic linker. -/
def dyldInfo? (im : Image) : Option DyldInfo :=
  im.commands.findSome? LoadCommand.dyldInfo?

/-- The symbol table. -/
def symtab? (im : Image) : Option Symtab :=
  im.commands.findSome? LoadCommand.symtab?

end Image

/-! ### Bytes -/

/-- The magic number of a 64-bit image. -/
def magic64 : ℕ := 0xFEEDFACF

/-- The bytes of four-byte numbers. -/
def words (ns : List ℕ) : Bytes := ns.flatMap (leBytes 4)

def Header.encode (h : Header) : Bytes :=
  words [magic64, h.cputype, h.cpusubtype, h.filetype, h.ncmds, h.sizeofcmds, h.flags, 0]

def Section64.encode (s : Section64) : Bytes :=
  s.sectname ++ (s.segname ++ (leBytes 8 s.addr ++ (leBytes 8 s.size ++
    words [s.offset, s.align, 0, 0, s.flags, 0, 0, 0])))

def Segment64.encode (s : Segment64) : Bytes :=
  s.segname ++ (leBytes 8 s.vmaddr ++ (leBytes 8 s.vmsize ++ (leBytes 8 s.fileoff ++
    (leBytes 8 s.filesize ++ (words [s.maxprot, s.initprot, s.sections.length, s.flags] ++
      s.sections.flatMap Section64.encode)))))

/-- The name starts after the fixed fields. -/
def Dylib.encode (d : Dylib) : Bytes :=
  words [24, d.timestamp, d.currentVersion, d.compatibilityVersion] ++ d.path

/-- The name of the library, a C string. -/
def Dylib.name (d : Dylib) : Bytes := d.path.takeWhile (· ≠ 0)

namespace LoadCommand

/-- The command number. -/
def cmd : LoadCommand → ℕ
  | .segment _ => 0x19
  | .loadDylib _ => 0x0C
  | .idDylib _ => 0x0D
  | .buildVersion _ => 0x32
  | .dyldInfo _ => 0x80000022
  | .symtab _ => 0x2
  | .other c _ => c

/-- The bytes after the command number and the size. -/
def body : LoadCommand → Bytes
  | .segment s => s.encode
  | .loadDylib d => d.encode
  | .idDylib d => d.encode
  | .buildVersion v => words [v.platform, v.minos, v.sdk, 0]
  | .dyldInfo i =>
    words [i.rebaseOff, i.rebaseSize, i.bindOff, i.bindSize, i.weakBindOff, i.weakBindSize,
      i.lazyBindOff, i.lazyBindSize, i.exportOff, i.exportSize]
  | .symtab t => words [t.symoff, t.nsyms, t.stroff, t.strsize]
  | .other _ b => b

/-- The size of the command. -/
def cmdsize (c : LoadCommand) : ℕ := 8 + c.body.length

def encode (c : LoadCommand) : Bytes := leBytes 4 c.cmd ++ (leBytes 4 c.cmdsize ++ c.body)

@[simp] lemma length_encode (c : LoadCommand) : c.encode.length = c.cmdsize := by
  simp only [encode, cmdsize, List.length_append, length_leBytes]
  omega

end LoadCommand

/-! ### Reading -/

namespace Read

/-- The value of a reader that consumes all of its input. -/
def exactly {α : Type} (r : Reader α) (bs : Bytes) : Option α :=
  match r bs with
  | some (v, []) => some v
  | _ => none

/-- Everything that is left. -/
def rest : Reader Bytes := fun bs => some (bs, [])

def section64 : Reader Section64 := do
  let sectname ← Reader.bytes 16
  let segname ← Reader.bytes 16
  let addr ← Reader.nat 8
  let size ← Reader.nat 8
  let ws ← Reader.list (Reader.nat 4) 8
  return ⟨sectname, segname, addr, size, ws.getD 0 0, ws.getD 1 0, ws.getD 4 0⟩

def segment64 : Reader Segment64 := do
  let segname ← Reader.bytes 16
  let vmaddr ← Reader.nat 8
  let vmsize ← Reader.nat 8
  let fileoff ← Reader.nat 8
  let filesize ← Reader.nat 8
  let ws ← Reader.list (Reader.nat 4) 4
  let sections ← Reader.list section64 (ws.getD 2 0)
  return ⟨segname, vmaddr, vmsize, fileoff, filesize, ws.getD 0 0, ws.getD 1 0, ws.getD 3 0,
    sections⟩

/-- The name is at an offset counted from the start of the command. -/
def dylib : Reader Dylib := do
  let ws ← Reader.list (Reader.nat 4) 4
  let _ ← Reader.bytes (ws.getD 0 0 - 24)
  let path ← rest
  return ⟨path, ws.getD 1 0, ws.getD 2 0, ws.getD 3 0⟩

def buildVersion : Reader BuildVersion := do
  let ws ← Reader.list (Reader.nat 4) 4
  return ⟨ws.getD 0 0, ws.getD 1 0, ws.getD 2 0⟩

def dyldInfo : Reader DyldInfo := do
  let ws ← Reader.list (Reader.nat 4) 10
  return ⟨ws.getD 0 0, ws.getD 1 0, ws.getD 2 0, ws.getD 3 0, ws.getD 4 0, ws.getD 5 0,
    ws.getD 6 0, ws.getD 7 0, ws.getD 8 0, ws.getD 9 0⟩

def symtab : Reader Symtab := do
  let ws ← Reader.list (Reader.nat 4) 4
  return ⟨ws.getD 0 0, ws.getD 1 0, ws.getD 2 0, ws.getD 3 0⟩

/-- The command with a given number and the bytes after its size. -/
def body (cmd : ℕ) (bs : Bytes) : Option LoadCommand :=
  match cmd with
  | 0x19 => (exactly segment64 bs).map .segment
  | 0x0C => (exactly dylib bs).map .loadDylib
  | 0x0D => (exactly dylib bs).map .idDylib
  | 0x32 => (exactly buildVersion bs).map .buildVersion
  | 0x80000022 => (exactly dyldInfo bs).map .dyldInfo
  | 0x2 => (exactly symtab bs).map .symtab
  | c => some (.other c bs)

/-- The bytes of a command after its number and size, for a given size. -/
def bodyBytes (size : ℕ) : Reader Bytes :=
  if 8 ≤ size then Reader.bytes (size - 8) else fun _ => none

/-- One command: its number, its size and as many bytes as the size says. -/
def command : Reader LoadCommand := do
  let cmd ← Reader.nat 4
  let size ← Reader.nat 4
  let bs ← bodyBytes size
  fun rest => (body cmd bs).map fun c => (c, rest)

def header : Reader Header := do
  let ws ← Reader.list (Reader.nat 4) 8
  if ws.getD 0 0 = magic64 then
    return ⟨ws.getD 1 0, ws.getD 2 0, ws.getD 3 0, ws.getD 4 0, ws.getD 5 0, ws.getD 6 0⟩
  else fun _ => none

end Read

/-- Read the header and the load commands of a file.  The commands must take exactly the
number of bytes that the header gives. -/
def readImage (file : Bytes) : Option Image := do
  let (h, rest) ← Read.header file
  let cmds ← Read.exactly (Reader.list Read.command h.ncmds) (rest.take h.sizeofcmds)
  if h.sizeofcmds ≤ rest.length then return ⟨h, cmds⟩ else none

/-! ### What is written reads back -/

/-- The fields of a section are in range. -/
structure Section64.Valid (s : Section64) : Prop where
  sectname : s.sectname.length = 16
  segname : s.segname.length = 16
  addr : s.addr < 2 ^ 64
  size : s.size < 2 ^ 64
  offset : s.offset < 2 ^ 32
  align : s.align < 2 ^ 32
  flags : s.flags < 2 ^ 32

/-- The fields of a segment are in range. -/
structure Segment64.Valid (s : Segment64) : Prop where
  segname : s.segname.length = 16
  vmaddr : s.vmaddr < 2 ^ 64
  vmsize : s.vmsize < 2 ^ 64
  fileoff : s.fileoff < 2 ^ 64
  filesize : s.filesize < 2 ^ 64
  maxprot : s.maxprot < 2 ^ 32
  initprot : s.initprot < 2 ^ 32
  nsects : s.sections.length < 2 ^ 32
  flags : s.flags < 2 ^ 32
  sections : ∀ t ∈ s.sections, t.Valid

/-- The numbers of a library command are in range. -/
structure Dylib.Valid (d : Dylib) : Prop where
  timestamp : d.timestamp < 2 ^ 32
  currentVersion : d.currentVersion < 2 ^ 32
  compatibilityVersion : d.compatibilityVersion < 2 ^ 32

/-- The fields of a command are in range. -/
def LoadCommand.FieldsValid : LoadCommand → Prop
  | .segment s => s.Valid
  | .loadDylib d => d.Valid
  | .idDylib d => d.Valid
  | .buildVersion v => v.platform < 2 ^ 32 ∧ v.minos < 2 ^ 32 ∧ v.sdk < 2 ^ 32
  | .dyldInfo i => ∀ n ∈ [i.rebaseOff, i.rebaseSize, i.bindOff, i.bindSize, i.weakBindOff,
      i.weakBindSize, i.lazyBindOff, i.lazyBindSize, i.exportOff, i.exportSize], n < 2 ^ 32
  | .symtab t => ∀ n ∈ [t.symoff, t.nsyms, t.stroff, t.strsize], n < 2 ^ 32
  | .other c b => Read.body c b = some (.other c b) ∧ c < 2 ^ 32

/-- The command can be written: its fields and its size are in range. -/
def LoadCommand.Valid (c : LoadCommand) : Prop := c.FieldsValid ∧ c.cmdsize < 2 ^ 32

lemma encodes_words {ns : List ℕ} (h : ∀ n ∈ ns, n < 2 ^ 32) :
    Encodes (Reader.list (Reader.nat 4) ns.length) ns (words ns) :=
  Encodes.list _ _ _ fun n hn => Encodes.nat (h n hn)

lemma exactly_of_encodes {α : Type} {r : Reader α} {v : α} {bs : Bytes} (h : Encodes r v bs) :
    Read.exactly r bs = some v := by
  rw [Read.exactly, h.read_self]

lemma Section64.encodes {s : Section64} (h : s.Valid) : Encodes Read.section64 s s.encode := by
  have hws : ∀ n ∈ [s.offset, s.align, 0, 0, s.flags, 0, 0, 0], n < 2 ^ 32 := by
    simpa using ⟨h.offset, h.align, h.flags⟩
  refine (Encodes.bytes' h.sectname).bind ?_
  refine (Encodes.bytes' h.segname).bind ?_
  refine (Encodes.nat h.addr).bind ?_
  refine (Encodes.nat h.size).bind ?_
  exact (encodes_words hws).bind_pure

lemma Segment64.encodes {s : Segment64} (h : s.Valid) : Encodes Read.segment64 s s.encode := by
  have hws : ∀ n ∈ [s.maxprot, s.initprot, s.sections.length, s.flags], n < 2 ^ 32 := by
    simpa using ⟨h.maxprot, h.initprot, h.nsects, h.flags⟩
  have hsections : Encodes (Reader.list Read.section64 s.sections.length) s.sections
      (s.sections.flatMap Section64.encode) :=
    Encodes.list _ _ _ fun t ht => Section64.encodes (h.sections t ht)
  refine (Encodes.bytes' h.segname).bind ?_
  refine (Encodes.nat h.vmaddr).bind ?_
  refine (Encodes.nat h.vmsize).bind ?_
  refine (Encodes.nat h.fileoff).bind ?_
  refine (Encodes.nat h.filesize).bind ?_
  exact (encodes_words hws).bind hsections.bind_pure

/-- A library command ends its body, so it is read to the end rather than followed by
anything. -/
lemma Dylib.exactly_encode {d : Dylib} (h : d.Valid) :
    Read.exactly Read.dylib d.encode = some d := by
  have hws : ∀ n ∈ [24, d.timestamp, d.currentVersion, d.compatibilityVersion], n < 2 ^ 32 := by
    simpa using ⟨h.timestamp, h.currentVersion, h.compatibilityVersion⟩
  have hread : Read.dylib d.encode = some (d, []) := by
    refine ((encodes_words hws).bind_apply _).trans ?_
    have hnone : Encodes (Reader.bytes 0) [] [] := Encodes.bytes []
    exact hnone.bind_apply d.path
  rw [Read.exactly, hread]

lemma LoadCommand.read_body {c : LoadCommand} (h : c.FieldsValid) :
    Read.body c.cmd c.body = some c := by
  cases c with
  | segment s => simp [cmd, body, Read.body, exactly_of_encodes (Segment64.encodes h)]
  | loadDylib d => simp [cmd, body, Read.body, Dylib.exactly_encode h]
  | idDylib d => simp [cmd, body, Read.body, Dylib.exactly_encode h]
  | buildVersion v =>
    have hws : ∀ n ∈ [v.platform, v.minos, v.sdk, 0], n < 2 ^ 32 := by simpa [FieldsValid] using h
    have henc : Encodes Read.buildVersion v _ := (encodes_words hws).bind_pure
    simp [cmd, body, Read.body, exactly_of_encodes henc]
  | dyldInfo i =>
    have henc : Encodes Read.dyldInfo i _ := (encodes_words h).bind_pure
    simp [cmd, body, Read.body, exactly_of_encodes henc]
  | symtab t =>
    have henc : Encodes Read.symtab t _ := (encodes_words h).bind_pure
    simp [cmd, body, Read.body, exactly_of_encodes henc]
  | other c b => exact h.1

lemma LoadCommand.cmd_lt {c : LoadCommand} (h : c.FieldsValid) : c.cmd < 2 ^ 32 := by
  cases c with
  | other c b => exact h.2
  | _ => simp [cmd]

lemma LoadCommand.encodes {c : LoadCommand} (h : c.Valid) : Encodes Read.command c c.encode := by
  have hsize : Encodes (Read.bodyBytes c.cmdsize) c.body c.body := by
    rw [Read.bodyBytes, if_pos (by simp [cmdsize])]
    exact Encodes.bytes' (by simp [cmdsize])
  refine (Encodes.nat (cmd_lt h.1)).bind ?_
  refine (Encodes.nat h.2).bind ?_
  intro rest
  refine (hsize.bind_apply rest).trans ?_
  rw [read_body h.1]
  rfl

/-- The header of an image and its commands in sequence. -/
def Image.encode (im : Image) : Bytes := im.header.encode ++ im.commands.flatMap LoadCommand.encode

/-- The header describes the commands and all fields are in range. -/
structure Image.Valid (im : Image) : Prop where
  cputype : im.header.cputype < 2 ^ 32
  cpusubtype : im.header.cpusubtype < 2 ^ 32
  filetype : im.header.filetype < 2 ^ 32
  ncmds_lt : im.header.ncmds < 2 ^ 32
  sizeofcmds_lt : im.header.sizeofcmds < 2 ^ 32
  flags : im.header.flags < 2 ^ 32
  ncmds : im.header.ncmds = im.commands.length
  sizeofcmds : im.header.sizeofcmds = (im.commands.flatMap LoadCommand.encode).length
  commands : ∀ c ∈ im.commands, c.Valid

lemma Header.encodes {im : Image} (h : im.Valid) :
    Encodes Read.header im.header im.header.encode := by
  have hws : ∀ n ∈ [magic64, im.header.cputype, im.header.cpusubtype, im.header.filetype,
      im.header.ncmds, im.header.sizeofcmds, im.header.flags, 0], n < 2 ^ 32 := by
    simpa [magic64] using
      ⟨h.cputype, h.cpusubtype, h.filetype, h.ncmds_lt, h.sizeofcmds_lt, h.flags⟩
  intro rest
  exact (encodes_words hws).bind_apply rest

/-- **A file that starts with the encoding of an image reads back as that image.** -/
theorem readImage_encode_append {im : Image} (h : im.Valid) (tail : Bytes) :
    readImage (im.encode ++ tail) = some im := by
  have hcmds : Read.exactly (Reader.list Read.command im.header.ncmds)
      (im.commands.flatMap LoadCommand.encode) = some im.commands := by
    rw [h.ncmds]
    exact exactly_of_encodes (Encodes.list _ _ _ fun c hc =>
      LoadCommand.encodes (h.commands c hc))
  rw [readImage, Image.encode, List.append_assoc, Header.encodes h]
  simp only [Option.bind_eq_bind, Option.bind_some, h.sizeofcmds, List.take_left, hcmds,
    List.length_append, Nat.le_add_right, if_true]
  rfl

@[simp] lemma length_words (ns : List ℕ) : (words ns).length = 4 * ns.length := by
  induction ns with
  | nil => rfl
  | cons n ns ih =>
    rw [words, List.flatMap_cons, List.length_append, length_leBytes, ← words, ih,
      List.length_cons]
    omega

@[simp] lemma Header.length_encode (h : Header) : h.encode.length = 32 := by
  simp [Header.encode]

end Apk2Ios.MachO
