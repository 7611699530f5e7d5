import Mathlib.Data.List.TakeWhile
import Mathlib.Order.CompletePartialOrder
import Mathlib.Order.Interval.Set.Disjoint
import Apk2Ios.Python

/-!
# The ELF parser

`Elf64` as the tools see it: the bytes of the file, its program headers, its sections and
what is read from them.
-/

namespace Apk2Ios

open Lib

/-- `EM_AARCH64`. -/
def emAarch64 : ℕ := 183

/-- `ET_DYN`. -/
def etDyn : ℕ := 3

/-- `SHT_DYNSYM`. -/
def shtDynsym : ℕ := 11

/-- `SHT_RELA`. -/
def shtRela : ℕ := 4

/-- `SHN_UNDEF`. -/
def shnUndef : ℕ := 0

/-- `DT_NEEDED`. -/
def dtNeeded : ℕ := 1

/-- `STT_OBJECT`. -/
def sttObject : ℕ := 1

/-- `STT_FUNC`. -/
def sttFunc : ℕ := 2

/-- `PT_LOAD`. -/
def ptLoad : ℕ := 1

structure ProgramHeader where
  pType : ℕ
  flags : ℕ
  offset : ℕ
  vaddr : ℕ
  filesz : ℕ
  memsz : ℕ
  align : ℕ
deriving DecidableEq, Repr

namespace ProgramHeader

variable (ph : ProgramHeader)

/-- The addresses of the segment in memory. -/
def memory : Set ℕ := Set.Ico ph.vaddr (ph.vaddr + ph.memsz)

/-- The addresses that have bytes in the file. -/
def fileBacked : Set ℕ := Set.Ico ph.vaddr (ph.vaddr + ph.filesz)

/-- The word at the address has its bytes in the file. -/
def HoldsWord (a : ℕ) : Prop := ph.vaddr ≤ a ∧ a + 8 ≤ ph.vaddr + ph.filesz

instance (a : ℕ) : Decidable (ph.HoldsWord a) := inferInstanceAs (Decidable (_ ∧ _))

instance (q : ProgramHeader) : Decidable (Disjoint ph.memory q.memory) :=
  decidable_of_iff _ Set.Ico_disjoint_Ico.symm

instance (q : ProgramHeader) : Decidable (Disjoint ph.fileBacked q.fileBacked) :=
  decidable_of_iff _ Set.Ico_disjoint_Ico.symm

end ProgramHeader

structure SectionHeader where
  nameOff : ℕ
  shType : ℕ
  flags : ℕ
  addr : ℕ
  offset : ℕ
  size : ℕ
  link : ℕ
  info : ℕ
  addralign : ℕ
  entsize : ℕ
  name : String := ""
deriving DecidableEq, Repr

/-- An entry of the dynamic symbol table. -/
structure DynamicSymbol where
  name : String
  info : ℕ
  other : ℕ
  shndx : ℕ
  value : ℕ
  size : ℕ
deriving DecidableEq, Repr

/-- An entry of a RELA section. -/
structure Relocation where
  offset : ℕ
  type : ℕ
  symbolIndex : ℕ
  addend : ℤ
deriving DecidableEq, Repr

structure Elf64 where
  data : Bytes
  eType : ℕ
  eMachine : ℕ
  programHeaders : List ProgramHeader
  sections : List SectionHeader
deriving DecidableEq, Repr

namespace Elf64

/-! ### Parsing -/

/-- The fields of the file header that the parser uses later. -/
structure Header where
  eType : ℕ
  eMachine : ℕ
  ePhoff : ℕ
  eShoff : ℕ
  ePhentsize : ℕ
  ePhnum : ℕ
  eShentsize : ℕ
  eShnum : ℕ
  eShstrndx : ℕ

def parseHeader (data : Bytes) : PyM Header := do
  raiseIf (data.length < 64 ∨ data.take 4 ≠ [0x7F, 0x45, 0x4C, 0x46]) (.elf .notElf)
  raiseIf (data.getD 4 0 ≠ 2) (.elf .notElf64)
  raiseIf (data.getD 5 0 ≠ 1) (.elf .notLittleEndian)
  let hdr ← unpackFrom 64 data 0
  return {
    eType := field hdr 16 2
    eMachine := field hdr 18 2
    ePhoff := field hdr 32 8
    eShoff := field hdr 40 8
    ePhentsize := field hdr 54 2
    ePhnum := field hdr 56 2
    eShentsize := field hdr 58 2
    eShnum := field hdr 60 2
    eShstrndx := field hdr 62 2 }

def parseProgramHeader (data : Bytes) (h : Header) (i : ℕ) : PyM ProgramHeader := do
  let vals ← unpackFrom 56 data (h.ePhoff + i * h.ePhentsize)
  return {
    pType := field vals 0 4
    flags := field vals 4 4
    offset := field vals 8 8
    vaddr := field vals 16 8
    filesz := field vals 32 8
    memsz := field vals 40 8
    align := field vals 48 8 }

def parseProgramHeaders (data : Bytes) (h : Header) : PyM (List ProgramHeader) :=
  (List.range h.ePhnum).mapM (parseProgramHeader data h)

def rawSection (data : Bytes) (h : Header) (i : ℕ) : PyM SectionHeader := do
  let vals ← unpackFrom 64 data (h.eShoff + i * h.eShentsize)
  return {
    nameOff := field vals 0 4
    shType := field vals 4 4
    flags := field vals 8 8
    addr := field vals 16 8
    offset := field vals 24 8
    size := field vals 32 8
    link := field vals 40 4
    info := field vals 44 4
    addralign := field vals 48 8
    entsize := field vals 56 8 }

def rawSections (data : Bytes) (h : Header) : PyM (List SectionHeader) :=
  (List.range h.eShnum).mapM (rawSection data h)

/-- The string at `off`, up to a NUL or the end of the buffer. -/
def cstring (buf : Bytes) (off : ℕ) : String :=
  if buf.length ≤ off then "" else utf8Replace ((buf.drop off).takeWhile (· ≠ 0))

/-- The sections with their names; without a section name table they keep no names. -/
def parseSections (data : Bytes) (h : Header) : PyM (List SectionHeader) := do
  let raw ← rawSections data h
  match raw[h.eShstrndx]? with
  | none => return raw
  | some shstr =>
    let names := slice data shstr.offset shstr.size
    return raw.map fun s => { s with name := cstring names s.nameOff }

/-- `Elf64(data)`. -/
def parse (data : Bytes) : PyM Elf64 := do
  let h ← parseHeader data
  let programHeaders ← parseProgramHeaders data h
  let sections ← parseSections data h
  return {
    data := data
    eType := h.eType
    eMachine := h.eMachine
    programHeaders := programHeaders
    sections := sections }

/-! ### Tables -/

variable (elf : Elf64)

/-- `section(name)`. -/
def sectionNamed (name : String) : Option SectionHeader :=
  elf.sections.find? fun s => s.name = name

def sectionData (sec : SectionHeader) : Bytes := slice elf.data sec.offset sec.size

/-- The offsets of the entries of a table that are read: the loop stops at the first entry
of `width` bytes that runs past the end of the file. -/
def entryOffsets (sec : SectionHeader) (width : ℕ) : List ℕ :=
  let entsize := if sec.entsize = 0 then 24 else sec.entsize
  (rangeStep sec.offset (sec.offset + sec.size) entsize).takeWhile
    fun off => off + width ≤ elf.data.length

/-- The dynamic symbol at `off`. -/
def symbolAt (strtab : Bytes) (off : ℕ) : DynamicSymbol :=
  let record := slice elf.data off 24
  { name := cstring strtab (field record 0 4)
    info := field record 4 1
    other := field record 5 1
    shndx := field record 6 2
    value := field record 8 8
    size := field record 16 8 }

def dynamicSymbols : List DynamicSymbol :=
  match elf.sections.find? fun s => s.shType = shtDynsym with
  | none => []
  | some sec =>
    match elf.sections[sec.link]? with
    | none => []
    | some str => (elf.entryOffsets sec 24).map (elf.symbolAt (elf.sectionData str))

/-- The names that the loop of `needed_libraries` takes from the entries at the offsets: it
ends at an entry that runs past the end of the file and after an entry with the tag 0. -/
def neededFrom (strtab : Bytes) : List ℕ → List String
  | [] => []
  | off :: offs =>
    if elf.data.length < off + 16 then []
    else
      let record := slice elf.data off 16
      let tag := toSigned64 (field record 0 8)
      let needed := if tag = dtNeeded then [cstring strtab (field record 8 8)] else []
      if tag = 0 then needed else needed ++ neededFrom strtab offs

def neededLibraries : List String :=
  match elf.sectionNamed ".dynamic" with
  | none => []
  | some dyn =>
    match elf.sections[dyn.link]? with
    | none => []
    | some str =>
      elf.neededFrom (elf.sectionData str) (rangeStep dyn.offset (dyn.offset + dyn.size) 16)

/-- The relocation at `off`. -/
def relocationAt (off : ℕ) : Relocation :=
  let record := slice elf.data off 24
  { offset := field record 0 8
    type := field record 8 8 % 2 ^ 32
    symbolIndex := field record 8 8 / 2 ^ 32
    addend := toSigned64 (field record 16 8) }

/-- All relocations of all RELA sections, in file order.  Both translators iterate over
them with the same generator. -/
def relocations : List Relocation :=
  elf.sections.flatMap fun sec =>
    if sec.shType = shtRela then (elf.entryOffsets sec 24).map elf.relocationAt else []

/-- The `PT_LOAD` headers. -/
def loads : List ProgramHeader := elf.programHeaders.filter fun ph => ph.pType = ptLoad

/-- The first `PT_LOAD` whose file-backed bytes contain the address. -/
def loadOf (a : ℕ) : Option ProgramHeader :=
  elf.loads.find? fun ph => ph.vaddr ≤ a ∧ a < ph.vaddr + ph.filesz

/-! ### Well-formed files -/

/-- The `PT_LOAD`s lie inside the file. -/
def LoadsInFile : Prop := ∀ ph ∈ elf.loads, ph.offset + ph.filesz ≤ elf.data.length

/-- No `PT_LOAD` has more bytes in the file than in memory. -/
def FileszLeMemsz : Prop := ∀ ph ∈ elf.loads, ph.filesz ≤ ph.memsz

/-- The `PT_LOAD`s are listed in the order of their addresses. -/
def LoadsAscend : Prop := elf.loads.Pairwise fun p q => p.vaddr ≤ q.vaddr

/-- The `PT_LOAD`s take different parts of the memory. -/
def MemoryDisjoint : Prop := elf.loads.Pairwise fun p q => Disjoint p.memory q.memory

/-- The `PT_LOAD`s take their bytes to different parts of the memory. -/
def FileBackedDisjoint : Prop := elf.loads.Pairwise fun p q => Disjoint p.fileBacked q.fileBacked

/-- The word of every relocation lies in the file-backed bytes of a `PT_LOAD`. -/
def WordsFileBacked : Prop := ∀ rel ∈ elf.relocations, ∃ ph ∈ elf.loads, ph.HoldsWord rel.offset

instance : Decidable elf.LoadsInFile := inferInstanceAs (Decidable (∀ _ ∈ _, _))

instance : Decidable elf.FileszLeMemsz := inferInstanceAs (Decidable (∀ _ ∈ _, _))

instance : Decidable elf.LoadsAscend := inferInstanceAs (Decidable (List.Pairwise _ _))

instance : Decidable elf.MemoryDisjoint := inferInstanceAs (Decidable (List.Pairwise _ _))

instance : Decidable elf.FileBackedDisjoint := inferInstanceAs (Decidable (List.Pairwise _ _))

instance : Decidable elf.WordsFileBacked := inferInstanceAs (Decidable (∀ _ ∈ _, ∃ _ ∈ _, _))

variable {elf}

/-- Bytes that are disjoint in memory come from different places when the file has no more of
them than the memory. -/
lemma MemoryDisjoint.fileBackedDisjoint (h : elf.MemoryDisjoint) (hsize : elf.FileszLeMemsz) :
    elf.FileBackedDisjoint := by
  have hsub : ∀ ph ∈ elf.loads, ph.fileBacked ⊆ ph.memory := by
    intro ph hph
    have := hsize ph hph
    exact Set.Ico_subset_Ico le_rfl (by omega)
  exact h.imp_of_mem fun {p q} hp hq hpq => hpq.mono (hsub p hp) (hsub q hq)

/-! ### What parsing guarantees -/

lemma nulFree_cstring (buf : Bytes) (off : ℕ) : NulFree (cstring buf off) := by
  rw [cstring]
  split
  · decide
  · apply nulFree_utf8Replace
    intro h
    simpa using List.mem_takeWhile_imp h

/-- The names of the dynamic symbols have no NUL. -/
lemma nulFree_of_mem_dynamicSymbols {sym : DynamicSymbol} (h : sym ∈ elf.dynamicSymbols) :
    NulFree sym.name := by
  rw [dynamicSymbols] at h
  split at h
  · simp at h
  · split at h
    · simp at h
    · obtain ⟨off, -, rfl⟩ := List.mem_map.mp h
      exact nulFree_cstring _ _

/-- The ranges of the header fields that the file format gives. -/
structure ProgramHeader.InRange (ph : ProgramHeader) : Prop where
  pType : ph.pType < 2 ^ 32
  flags : ph.flags < 2 ^ 32
  offset : ph.offset < 2 ^ 64
  vaddr : ph.vaddr < 2 ^ 64
  filesz : ph.filesz < 2 ^ 64
  memsz : ph.memsz < 2 ^ 64
  align : ph.align < 2 ^ 64

lemma parseHeader_ePhnum_lt {data : Bytes} {h : Header} (hh : parseHeader data = .ok h) :
    h.ePhnum < 2 ^ 16 := by
  simp only [parseHeader, PyM.bind_eq_ok] at hh
  obtain ⟨_, -, _, -, _, -, record, -, hh⟩ := hh
  obtain rfl := PyM.pure_eq_ok.mp hh
  exact field_lt record 56 2

lemma parseProgramHeader_inRange {data : Bytes} {h : Header} {i : ℕ} {ph : ProgramHeader}
    (hph : parseProgramHeader data h i = .ok ph) : ProgramHeader.InRange ph := by
  obtain ⟨record, -, hrecord⟩ := PyM.bind_eq_ok.mp hph
  obtain rfl := PyM.pure_eq_ok.mp hrecord
  exact ⟨field_lt record 0 4, field_lt record 4 4, field_lt record 8 8, field_lt record 16 8,
    field_lt record 32 8, field_lt record 40 8, field_lt record 48 8⟩

lemma parse_eq_ok {data : Bytes} (h : parse data = .ok elf) :
    elf.data = data ∧ elf.programHeaders.length < 2 ^ 16 ∧
      ∀ ph ∈ elf.programHeaders, ProgramHeader.InRange ph := by
  obtain ⟨hdr, hhdr, h⟩ := PyM.bind_eq_ok.mp h
  obtain ⟨phs, hphs, h⟩ := PyM.bind_eq_ok.mp h
  obtain ⟨secs, -, h⟩ := PyM.bind_eq_ok.mp h
  obtain rfl := PyM.pure_eq_ok.mp h
  have hforall := PyM.mapM_eq_ok.mp hphs
  refine ⟨rfl, ?_, fun ph hph => ?_⟩
  · have hlen := hforall.length_eq
    rw [List.length_range] at hlen
    simpa [← hlen] using parseHeader_ePhnum_lt hhdr
  · obtain ⟨i, -, hi⟩ := PyM.exists_of_mem_mapM hphs hph
    exact parseProgramHeader_inRange hi

/-! ### A small library -/

/-- A library with two `PT_LOAD`s, one relative relocation, one exported function and one
constructor. -/
def smallFile : Bytes :=
  [0x7F, 0x45, 0x4C, 0x46, 2, 1, 1] ++ List.replicate 9 0 ++
  -- type, machine, version, entry, tables
  leBytes 2 3 ++ leBytes 2 183 ++ leBytes 4 1 ++ leBytes 8 0 ++ leBytes 8 0x40 ++
  leBytes 8 0x128 ++ leBytes 4 0 ++ leBytes 2 64 ++ leBytes 2 56 ++ leBytes 2 2 ++
  leBytes 2 64 ++ leBytes 2 5 ++ leBytes 2 3 ++
  -- program headers
  leBytes 4 1 ++ leBytes 4 5 ++ leBytes 8 0 ++ leBytes 8 0 ++ leBytes 8 0 ++ leBytes 8 0xB0 ++
  leBytes 8 0xB0 ++ leBytes 8 0x10000 ++
  leBytes 4 1 ++ leBytes 4 6 ++ leBytes 8 0xB0 ++ leBytes 8 0x100B0 ++ leBytes 8 0x100B0 ++
  leBytes 8 0x20 ++ leBytes 8 0x30 ++ leBytes 8 0x10000 ++
  -- data
  List.replicate 0x20 7 ++
  -- relocations
  leBytes 8 0x100B8 ++ leBytes 8 1027 ++ leBytes 8 0x10 ++
  -- dynamic symbols, then the names of symbols and sections
  List.replicate 24 0 ++
  leBytes 4 1 ++ [0x12, 0] ++ leBytes 2 1 ++ leBytes 8 0x20 ++ leBytes 8 4 ++
  [0, 0x66, 0, 0x2E, 0x69, 0x6E, 0x69, 0x74, 0x5F, 0x61, 0x72, 0x72, 0x61, 0x79, 0, 0] ++
  -- section headers
  List.replicate 64 0 ++
  leBytes 4 0 ++ leBytes 4 4 ++ leBytes 8 0 ++ leBytes 8 0 ++ leBytes 8 0xD0 ++ leBytes 8 24 ++
  leBytes 4 2 ++ leBytes 4 0 ++ leBytes 8 8 ++ leBytes 8 24 ++
  leBytes 4 0 ++ leBytes 4 11 ++ leBytes 8 0 ++ leBytes 8 0 ++ leBytes 8 0xE8 ++ leBytes 8 48 ++
  leBytes 4 3 ++ leBytes 4 1 ++ leBytes 8 8 ++ leBytes 8 24 ++
  leBytes 4 0 ++ leBytes 4 3 ++ leBytes 8 0 ++ leBytes 8 0 ++ leBytes 8 0x118 ++ leBytes 8 15 ++
  leBytes 4 0 ++ leBytes 4 0 ++ leBytes 8 1 ++ leBytes 8 0 ++
  leBytes 4 3 ++ leBytes 4 14 ++ leBytes 8 3 ++ leBytes 8 0x100B8 ++ leBytes 8 0xB8 ++
  leBytes 8 8 ++ leBytes 4 0 ++ leBytes 4 0 ++ leBytes 8 8 ++ leBytes 8 8

/-- What the parser makes of it. -/
def smallElf : Elf64 where
  data := smallFile
  eType := etDyn
  eMachine := emAarch64
  programHeaders := [⟨1, 5, 0, 0, 0xB0, 0xB0, 0x10000⟩, ⟨1, 6, 0xB0, 0x100B0, 0x20, 0x30, 0x10000⟩]
  sections := [⟨0, 0, 0, 0, 0, 0, 0, 0, 0, 0, ""⟩, ⟨0, 4, 0, 0, 0xD0, 24, 2, 0, 8, 24, ""⟩,
    ⟨0, 11, 0, 0, 0xE8, 48, 3, 1, 8, 24, ""⟩, ⟨0, 3, 0, 0, 0x118, 15, 0, 0, 1, 0, ""⟩,
    ⟨3, 14, 3, 0x100B8, 0xB8, 8, 0, 0, 8, 8, ".init_array"⟩]

lemma eMachine_smallElf : smallElf.eMachine = emAarch64 := rfl

lemma eType_smallElf : smallElf.eType = etDyn := rfl

lemma parse_smallFile : parse smallFile = .ok smallElf := by decide +kernel

lemma relocations_smallElf : smallElf.relocations = [⟨0x100B8, 1027, 0, 0x10⟩] := by
  decide +kernel

lemma dynamicSymbols_smallElf :
    smallElf.dynamicSymbols = [⟨"", 0, 0, 0, 0, 0⟩, ⟨"f", 0x12, 0, 1, 0x20, 4⟩] := by
  decide +kernel

end Elf64

end Apk2Ios
