import Apk2Ios.Elf
import Apk2Ios.Lib.Records

/-!
# The ELF file format

The records of the ELF64 format, field by field, and what it means that a file has them at
their places.  The parser accepts exactly the files that have a file header, and the program
and section headers that it announces; from a file that a linker laid out it reads what the
linker put there.
-/

namespace Apk2Ios

open Lib

/-! ### Records -/

/-- The file header: what the parser keeps of it, and the rest. -/
structure FileHeader extends Elf64.Header where
  ident : ℕ
  eVersion : ℕ
  eEntry : ℕ
  eFlags : ℕ
  eEhsize : ℕ

/-- `Elf64_Ehdr`, with the four parts of `e_ident` in front: the magic, the class, the byte
order and what no one reads. -/
def FileHeader.fields (fh : FileHeader) : List (ℕ × ℕ) :=
  [(4, 0x464C457F), (1, 2), (1, 1), (10, fh.ident), (2, fh.eType), (2, fh.eMachine),
    (4, fh.eVersion), (8, fh.eEntry), (8, fh.ePhoff), (8, fh.eShoff), (4, fh.eFlags),
    (2, fh.eEhsize), (2, fh.ePhentsize), (2, fh.ePhnum), (2, fh.eShentsize), (2, fh.eShnum),
    (2, fh.eShstrndx)]

/-- `Elf64_Phdr` with a physical address. -/
def ProgramHeader.fields (ph : ProgramHeader) (paddr : ℕ) : List (ℕ × ℕ) :=
  [(4, ph.pType), (4, ph.flags), (8, ph.offset), (8, ph.vaddr), (8, paddr), (8, ph.filesz),
    (8, ph.memsz), (8, ph.align)]

/-- `Elf64_Shdr`. -/
def SectionHeader.fields (s : SectionHeader) : List (ℕ × ℕ) :=
  [(4, s.nameOff), (4, s.shType), (8, s.flags), (8, s.addr), (8, s.offset), (8, s.size),
    (4, s.link), (4, s.info), (8, s.addralign), (8, s.entsize)]

/-- `Elf64_Sym` with its name at an offset of the string table. -/
def DynamicSymbol.fields (sym : DynamicSymbol) (nameOff : ℕ) : List (ℕ × ℕ) :=
  [(4, nameOff), (1, sym.info), (1, sym.other), (2, sym.shndx), (8, sym.value), (8, sym.size)]

/-- `Elf64_Rela`: `ELF64_R_INFO` of symbol and type, and the addend in two's complement. -/
def Relocation.fields (rel : Relocation) : List (ℕ × ℕ) :=
  [(8, rel.offset), (8, rel.symbolIndex * 2 ^ 32 + rel.type), (8, wrap64 rel.addend)]

lemma packedSize_fileHeader (fh : FileHeader) : packedSize fh.fields = 64 := by
  simp [packedSize, FileHeader.fields]

lemma packedSize_programHeader (ph : ProgramHeader) (paddr : ℕ) :
    packedSize (ph.fields paddr) = 56 := by
  simp [packedSize, ProgramHeader.fields]

lemma packedSize_sectionHeader (s : SectionHeader) : packedSize s.fields = 64 := by
  simp [packedSize, SectionHeader.fields]

lemma packedSize_dynamicSymbol (sym : DynamicSymbol) (nameOff : ℕ) :
    packedSize (sym.fields nameOff) = 24 := by
  simp [packedSize, DynamicSymbol.fields]

lemma packedSize_relocation (rel : Relocation) : packedSize rel.fields = 24 := by
  simp [packedSize, Relocation.fields]

/-! ### Headers -/

namespace Elf64

variable {data : Bytes} {h : Header}

/-- One byte of the front of a file. -/
lemma slice_one {n off : ℕ} (hn : n ≤ data.length) (hoff : off < n) :
    slice (slice data 0 n) off 1 = [data.getD off 0] := by
  have hlen : off < (slice data 0 n).length := by
    rw [length_slice]
    omega
  rw [slice, List.drop_eq_getElem_cons hlen, List.take_succ_cons, List.take_zero]
  simp [slice, List.getD_eq_getElem?_getD, show off < data.length by omega]

/-- The file header of a file that is long enough, if its first six bytes are right. -/
def fileHeaderAt (data : Bytes) : FileHeader :=
  let record := slice data 0 64
  { ident := field record 6 10
    eType := field record 16 2
    eMachine := field record 18 2
    eVersion := field record 20 4
    eEntry := field record 24 8
    ePhoff := field record 32 8
    eShoff := field record 40 8
    eFlags := field record 48 4
    eEhsize := field record 52 2
    ePhentsize := field record 54 2
    ePhnum := field record 56 2
    eShentsize := field record 58 2
    eShnum := field record 60 2
    eShstrndx := field record 62 2 }

/-- The parser passes the files that have a file header, and reads it. -/
lemma parseHeader_eq_ok_iff :
    parseHeader data = .ok h ↔
      ∃ fh : FileHeader, fh.toHeader = h ∧ HoldsRecord data 0 fh.fields := by
  simp only [parseHeader, PyM.bind_eq_ok, PyM.raiseIf_eq_ok, PyM.pure_eq_ok, not_or, not_not,
    not_lt, unpackFrom_eq_ok]
  constructor
  · rintro ⟨-, ⟨hlen, hmagic⟩, -, hclass, -, horder, record, ⟨-, rfl⟩, rfl⟩
    refine ⟨fileHeaderAt data, rfl, ?_⟩
    have hrecord : HoldsRecord data 0 _ :=
      holdsRecord_unpacked [4, 1, 1, 10, 2, 2, 4, 8, 8, 8, 4, 2, 2, 2, 2, 2, 2] hlen
    -- the checks are on bytes of the file, the record has the same bytes as numbers
    have hmagic' : leNat ((slice data 0 64).take 4) = 0x464C457F := by
      rw [slice, List.drop_zero, List.take_take, min_eq_left (by decide), hmagic]
      rfl
    have hclass' : leNat (((slice data 0 64).drop 4).take 1) = 2 := by
      rw [show ((slice data 0 64).drop 4).take 1 = _ from slice_one hlen (by decide), hclass]
      rfl
    have horder' : leNat (((slice data 0 64).drop 5).take 1) = 1 := by
      rw [show ((slice data 0 64).drop 5).take 1 = _ from slice_one hlen (by decide), horder]
      rfl
    simp only [List.sum_cons, List.sum_nil, Nat.reduceAdd, unpacked, List.drop_drop, hmagic',
      hclass', horder'] at hrecord
    exact hrecord
  · rintro ⟨fh, rfl, hfh⟩
    have hlen : 64 ≤ data.length := by
      simpa using hfh.le_length (packedSize_fileHeader fh) (by decide)
    have hrecord : slice data 0 64 = packed fh.fields := hfh.slice_eq (packedSize_fileHeader fh)
    have hmagic : data.take 4 = [0x7F, 0x45, 0x4C, 0x46] := by
      have htake : (slice data 0 64).take 4 = data.take 4 := by
        rw [slice, List.drop_zero, List.take_take, min_eq_left (by decide)]
      rw [← htake, hrecord]
      rfl
    have hclass : [data.getD 4 0] = [2] := by
      rw [← slice_one hlen (by decide), hrecord]
      rfl
    have horder : [data.getD 5 0] = [1] := by
      rw [← slice_one hlen (by decide), hrecord]
      rfl
    refine ⟨(), ⟨hlen, hmagic⟩, (), List.head_eq_of_cons_eq hclass, (),
      List.head_eq_of_cons_eq horder, _, ⟨hlen, rfl⟩, ?_⟩
    have hmk : fh.toHeader = ⟨fh.eType, fh.eMachine, fh.ePhoff, fh.eShoff, fh.ePhentsize,
      fh.ePhnum, fh.eShentsize, fh.eShnum, fh.eShstrndx⟩ := rfl
    have hsize := packedSize_fileHeader fh
    rw [hmk, Header.mk.injEq]
    exact ⟨hfh.leNat_slice hsize rfl, hfh.leNat_slice hsize rfl,
      hfh.leNat_slice hsize rfl, hfh.leNat_slice hsize rfl, hfh.leNat_slice hsize rfl,
      hfh.leNat_slice hsize rfl, hfh.leNat_slice hsize rfl,
      hfh.leNat_slice hsize rfl, hfh.leNat_slice hsize rfl⟩

/-- A program header is read where its record is. -/
lemma parseProgramHeader_eq_ok_iff {i : ℕ} {ph : ProgramHeader} :
    parseProgramHeader data h i = .ok ph ↔
      ∃ paddr, HoldsRecord data (h.ePhoff + i * h.ePhentsize) (ph.fields paddr) := by
  simp only [parseProgramHeader, PyM.bind_eq_ok, PyM.pure_eq_ok, unpackFrom_eq_ok]
  constructor
  · rintro ⟨_, ⟨hlen, rfl⟩, rfl⟩
    have hrecord := holdsRecord_unpacked [4, 4, 8, 8, 8, 8, 8, 8] hlen
    refine ⟨field (slice data (h.ePhoff + i * h.ePhentsize) 56) 24 8, ?_⟩
    simpa [unpacked, ProgramHeader.fields, field, slice, List.drop_drop] using hrecord
  · rintro ⟨paddr, hph⟩
    have hsize := packedSize_programHeader ph paddr
    refine ⟨_, ⟨hph.le_length hsize (by decide), rfl⟩, ?_⟩
    obtain ⟨pType, flags, offset, vaddr, filesz, memsz, align⟩ := ph
    rw [ProgramHeader.mk.injEq]
    exact ⟨hph.leNat_slice hsize rfl, hph.leNat_slice hsize rfl, hph.leNat_slice hsize rfl,
      hph.leNat_slice hsize rfl, hph.leNat_slice hsize rfl, hph.leNat_slice hsize rfl,
      hph.leNat_slice hsize rfl⟩

/-- A section header is read where its record is; it has no name yet. -/
lemma rawSection_eq_ok_iff {i : ℕ} {s : SectionHeader} :
    rawSection data h i = .ok s ↔
      s.name = "" ∧ HoldsRecord data (h.eShoff + i * h.eShentsize) s.fields := by
  simp only [rawSection, PyM.bind_eq_ok, PyM.pure_eq_ok, unpackFrom_eq_ok]
  constructor
  · rintro ⟨_, ⟨hlen, rfl⟩, rfl⟩
    have hrecord := holdsRecord_unpacked [4, 4, 8, 8, 8, 8, 4, 4, 8, 8] hlen
    refine ⟨rfl, ?_⟩
    simpa [unpacked, SectionHeader.fields, field, slice, List.drop_drop] using hrecord
  · rintro ⟨hname, hs⟩
    have hsize := packedSize_sectionHeader s
    refine ⟨_, ⟨hs.le_length hsize (by decide), rfl⟩, ?_⟩
    obtain ⟨nameOff, shType, flags, addr, offset, size, link, info, addralign, entsize, name⟩ := s
    rw [SectionHeader.mk.injEq]
    exact ⟨hs.leNat_slice hsize rfl, hs.leNat_slice hsize rfl, hs.leNat_slice hsize rfl,
      hs.leNat_slice hsize rfl, hs.leNat_slice hsize rfl, hs.leNat_slice hsize rfl,
      hs.leNat_slice hsize rfl, hs.leNat_slice hsize rfl, hs.leNat_slice hsize rfl,
      hs.leNat_slice hsize rfl, hname.symm⟩

/-- The name that a section table gives to a section: none without a section name table. -/
def nameIn (data : Bytes) (secs : List SectionHeader) (shstrndx : ℕ) (s : SectionHeader) : String :=
  match secs[shstrndx]? with
  | none => ""
  | some shstr => cstring (slice data shstr.offset shstr.size) s.nameOff

/-- The file has the file header, and all of the headers that it announces. -/
structure Describes (elf : Elf64) (fh : FileHeader) : Prop where
  header : HoldsRecord elf.data 0 fh.fields
  eType : elf.eType = fh.eType
  eMachine : elf.eMachine = fh.eMachine
  phnum : elf.programHeaders.length = fh.ePhnum
  programHeaders : ∀ i ph, elf.programHeaders[i]? = some ph →
    ∃ paddr, HoldsRecord elf.data (fh.ePhoff + i * fh.ePhentsize) (ph.fields paddr)
  shnum : elf.sections.length = fh.eShnum
  sections : ∀ i s, elf.sections[i]? = some s →
    HoldsRecord elf.data (fh.eShoff + i * fh.eShentsize) s.fields
  names : ∀ s ∈ elf.sections, s.name = nameIn elf.data elf.sections fh.eShstrndx s

/-- A loop over the indices of a table. -/
lemma mapM_range_eq_ok {α : Type} {f : ℕ → PyM α} {n : ℕ} {xs : List α} :
    (List.range n).mapM f = .ok xs ↔
      xs.length = n ∧ ∀ i x, xs[i]? = some x → f i = .ok x := by
  rw [PyM.mapM_eq_ok, List.forall₂_iff_get]
  simp only [List.length_range, List.get_eq_getElem, List.getElem_range, eq_comm (a := n)]
  refine and_congr_right fun hlen => ?_
  subst hlen
  constructor
  · intro hall i x hx
    obtain ⟨hi, rfl⟩ := List.getElem?_eq_some_iff.mp hx
    exact hall i hi hi
  · intro hall i hi _
    exact hall i _ (List.getElem?_eq_getElem hi)

lemma parseProgramHeaders_eq_ok_iff {phs : List ProgramHeader} :
    parseProgramHeaders data h = .ok phs ↔
      phs.length = h.ePhnum ∧ ∀ i ph, phs[i]? = some ph →
        ∃ paddr, HoldsRecord data (h.ePhoff + i * h.ePhentsize) (ph.fields paddr) := by
  simp only [parseProgramHeaders, mapM_range_eq_ok, parseProgramHeader_eq_ok_iff]

/-- The names of a table do not depend on the names in it. -/
lemma nameIn_map {name : SectionHeader → String} {secs : List SectionHeader} {k : ℕ}
    {s : SectionHeader} :
    nameIn data (secs.map fun s => { s with name := name s }) k s = nameIn data secs k s := by
  rw [nameIn, nameIn, List.getElem?_map]
  cases secs[k]? <;> rfl

lemma parseSections_eq_map {secs : List SectionHeader} :
    parseSections data h = .ok secs ↔
      ∃ raw, rawSections data h = .ok raw ∧
        secs = raw.map fun s => { s with name := nameIn data raw h.eShstrndx s } := by
  rw [parseSections, PyM.bind_eq_ok]
  refine exists_congr fun raw => and_congr_right fun hraw => ?_
  rw [rawSections, mapM_range_eq_ok] at hraw
  cases hshstr : raw[h.eShstrndx]? with
  | some shstr =>
    simp only [nameIn, hshstr, PyM.pure_eq_ok]
    exact eq_comm
  | none =>
    have hunnamed : (raw.map fun s => { s with name := "" }) = raw := by
      refine (List.map_congr_left fun s hs => ?_).trans (List.map_id raw)
      obtain ⟨i, hi⟩ := List.getElem?_of_mem hs
      obtain ⟨hname, -⟩ := rawSection_eq_ok_iff.mp (hraw.2 i s hi)
      rw [← hname]
      rfl
    simp only [nameIn, hshstr, PyM.pure_eq_ok, hunnamed]
    exact eq_comm

/-- A section table is read where its records are. -/
lemma parseSections_eq_ok_iff {secs : List SectionHeader} :
    parseSections data h = .ok secs ↔
      secs.length = h.eShnum ∧
      (∀ i s, secs[i]? = some s → HoldsRecord data (h.eShoff + i * h.eShentsize) s.fields) ∧
      ∀ s ∈ secs, s.name = nameIn data secs h.eShstrndx s := by
  simp only [parseSections_eq_map, rawSections, mapM_range_eq_ok, rawSection_eq_ok_iff]
  constructor
  · rintro ⟨raw, ⟨hlen, hraw⟩, rfl⟩
    refine ⟨by rwa [List.length_map], fun i s hs => ?_, fun s hs => ?_⟩
    · obtain ⟨r, hr, rfl⟩ := Option.map_eq_some_iff.mp (List.getElem?_map ▸ hs)
      exact (hraw i r hr).2
    · obtain ⟨r, -, rfl⟩ := List.mem_map.mp hs
      rw [nameIn_map]
      rfl
  · rintro ⟨hlen, hsecs, hnames⟩
    -- the raw headers have no names, and the names do not depend on them
    refine ⟨secs.map fun s => { s with name := "" }, ⟨by rwa [List.length_map], ?_⟩, ?_⟩
    · intro i s hs
      obtain ⟨r, hr, rfl⟩ := Option.map_eq_some_iff.mp (List.getElem?_map ▸ hs)
      exact ⟨rfl, hsecs i r hr⟩
    · rw [List.map_map]
      refine ((List.map_congr_left fun s hs => ?_).trans (List.map_id secs)).symm
      have hname : nameIn data (secs.map fun s => { s with name := "" }) h.eShstrndx
          { s with name := "" } = s.name := nameIn_map.trans (hnames s hs).symm
      rw [Function.comp_apply, hname]
      rfl

/-- The parser returns only what is in the file. -/
lemma exists_describes_of_parse {elf : Elf64} (hparse : parse data = .ok elf) :
    elf.data = data ∧ ∃ fh, elf.Describes fh := by
  simp only [parse, PyM.bind_eq_ok, PyM.pure_eq_ok, parseHeader_eq_ok_iff,
    parseProgramHeaders_eq_ok_iff, parseSections_eq_ok_iff] at hparse
  obtain ⟨_, ⟨fh, rfl, hfh⟩, phs, ⟨hphnum, hphs⟩, secs, ⟨hshnum, hsecs, hnames⟩, rfl⟩ := hparse
  exact ⟨rfl, fh, hfh, rfl, rfl, hphnum, hphs, hshnum, hsecs, hnames⟩

/-- The parser returns what is in the file. -/
lemma Describes.parse {elf : Elf64} {fh : FileHeader} (hfh : elf.Describes fh) :
    parse elf.data = .ok elf := by
  simp only [Elf64.parse, PyM.bind_eq_ok, PyM.pure_eq_ok, parseHeader_eq_ok_iff,
    parseProgramHeaders_eq_ok_iff, parseSections_eq_ok_iff]
  refine ⟨fh.toHeader, ⟨fh, rfl, hfh.header⟩, elf.programHeaders, ⟨hfh.phnum, hfh.programHeaders⟩,
    elf.sections, ⟨hfh.shnum, hfh.sections, hfh.names⟩, ?_⟩
  rw [← hfh.eType, ← hfh.eMachine]

/-- **A file is accepted exactly when it is well formed**: it has the file header of a 64-bit
little-endian ELF file and all of the program headers and section headers that this header
announces.  What the parser returns is what these records say. -/
theorem parse_eq_ok_iff {elf : Elf64} :
    parse data = .ok elf ↔ elf.data = data ∧ ∃ fh, elf.Describes fh := by
  constructor
  · exact exists_describes_of_parse
  · rintro ⟨rfl, fh, hfh⟩
    exact hfh.parse

end Elf64

/-! ### What a linker lays out -/

/-- An entry of the dynamic section, apart from the one that ends it. -/
inductive DynamicEntry where
  | needed (nameOff : ℕ) (name : String)
  | other (tag value : ℕ)

/-- `Elf64_Dyn`. -/
def DynamicEntry.fields : DynamicEntry → List (ℕ × ℕ)
  | needed nameOff _ => [(8, dtNeeded), (8, nameOff)]
  | other tag value => [(8, tag), (8, value)]

/-- The library that an entry needs. -/
def DynamicEntry.library : DynamicEntry → Option String
  | needed _ name => some name
  | other _ _ => none

/-- The string table has the string at the offset, with a NUL behind it. -/
structure HoldsString (table : Bytes) (off : ℕ) (s : String) : Prop where
  bytes : HoldsAt table off (utf8 s ++ [0])
  nulFree : NulFree s

instance (table : Bytes) (off : ℕ) (s : String) : Decidable (HoldsString table off s) :=
  decidable_of_iff (HoldsAt table off (utf8 s ++ [0]) ∧ NulFree s)
    ⟨fun h => ⟨h.1, h.2⟩, fun h => ⟨h.1, h.2⟩⟩

/-- The entry is neither of the ones with a meaning of their own, or its name is in the string
table. -/
def DynamicEntry.Named (strtab : Bytes) : DynamicEntry → Prop
  | needed nameOff name => HoldsString strtab nameOff name
  | other tag _ => tag ≠ dtNeeded ∧ tag ≠ 0

instance (strtab : Bytes) : DecidablePred (DynamicEntry.Named strtab)
  | .needed nameOff name => inferInstanceAs (Decidable (HoldsString strtab nameOff name))
  | .other tag _ => inferInstanceAs (Decidable (tag ≠ dtNeeded ∧ tag ≠ 0))

/-- The distance between the entries of a table of symbols or relocations. -/
def SectionHeader.stride (sec : SectionHeader) : ℕ := if sec.entsize = 0 then 24 else sec.entsize

lemma SectionHeader.stride_pos (sec : SectionHeader) : 0 < sec.stride := by
  rw [stride]
  split <;> omega

/-- What a linker puts into a shared library: its headers, each program header with a physical
address, its dynamic symbols, each with the offset of its name, the relocations of its RELA
sections and the entries of its dynamic section. -/
structure Contents where
  header : FileHeader
  programHeaders : List (ProgramHeader × ℕ)
  sections : List SectionHeader
  symbols : List (DynamicSymbol × ℕ)
  relocations : SectionHeader → List Relocation
  dynamic : List DynamicEntry

namespace Contents

variable (c : Contents)

/-- The symbols are the table of the section, and the strings of `strtab` are their names. -/
structure HoldsSymbols (data : Bytes) (sec str : SectionHeader) : Prop where
  size : sec.size = c.symbols.length * sec.stride
  records : ∀ i sym, c.symbols[i]? = some sym →
    HoldsRecord data (sec.offset + i * sec.stride) (sym.1.fields sym.2) ∧
      HoldsString (slice data str.offset str.size) sym.2 sym.1.name

/-- The relocations of a section are its table. -/
structure HoldsRelocations (data : Bytes) (sec : SectionHeader) : Prop where
  size : sec.size = (c.relocations sec).length * sec.stride
  records : ∀ i rel, (c.relocations sec)[i]? = some rel →
    HoldsRecord data (sec.offset + i * sec.stride) rel.fields ∧ rel.type < 2 ^ 32 ∧
      -2 ^ 63 ≤ rel.addend ∧ rel.addend < 2 ^ 63

/-- The dynamic section has the entries and behind them one with the tag 0. -/
structure HoldsDynamic (data : Bytes) (sec str : SectionHeader) : Prop where
  size : (c.dynamic.length + 1) * 16 ≤ sec.size
  records : ∀ i e, c.dynamic[i]? = some e → HoldsRecord data (sec.offset + i * 16) e.fields ∧
    e.Named (slice data str.offset str.size)
  last : ∃ value, HoldsRecord data (sec.offset + c.dynamic.length * 16) [(8, 0), (8, value)]

/-- The file has all of it at the places that the headers give. -/
structure LaidIn (data : Bytes) : Prop where
  header : HoldsRecord data 0 c.header.fields
  phnum : c.programHeaders.length = c.header.ePhnum
  programHeaders : ∀ i ph, c.programHeaders[i]? = some ph →
    HoldsRecord data (c.header.ePhoff + i * c.header.ePhentsize) (ph.1.fields ph.2)
  shnum : c.sections.length = c.header.eShnum
  sections : ∀ i s, c.sections[i]? = some s →
    HoldsRecord data (c.header.eShoff + i * c.header.eShentsize) s.fields
  names : ∃ shstr, c.sections[c.header.eShstrndx]? = some shstr ∧
    ∀ s ∈ c.sections, HoldsString (slice data shstr.offset shstr.size) s.nameOff s.name
  symbols : ∃ sec str, c.sections.find? (fun s => s.shType = shtDynsym) = some sec ∧
    c.sections[sec.link]? = some str ∧ c.HoldsSymbols data sec str
  relocations : ∀ sec ∈ c.sections, sec.shType = shtRela → c.HoldsRelocations data sec
  dynamic : ∃ sec str, c.sections.find? (fun s => s.name = ".dynamic") = some sec ∧
    c.sections[sec.link]? = some str ∧ c.HoldsDynamic data sec str

/-- The library as the parser returns it. -/
def elf (data : Bytes) : Elf64 :=
  ⟨data, c.header.eType, c.header.eMachine, c.programHeaders.map Prod.fst, c.sections⟩

end Contents

/-! ### Reading it back -/

lemma cstring_of_holds {table : Bytes} {off : ℕ} {s : String} (h : HoldsString table off s) :
    Elf64.cstring table off = s := by
  have hlt : off + (utf8 s ++ [0]).length ≤ table.length := h.bytes.le_length (by simp)
  rw [List.length_append, List.length_singleton] at hlt
  rw [Elf64.cstring, if_neg (by omega), takeWhile_cstring h.bytes (zero_notMem_utf8.mpr h.nulFree),
    utf8Replace_utf8]

lemma toSigned64_wrap64 {a : ℤ} (hlo : -2 ^ 63 ≤ a) (hhi : a < 2 ^ 63) :
    toSigned64 (wrap64 a) = a := by
  rw [toSigned64, wrap64]
  split_ifs <;> omega

namespace Contents

variable {c : Contents} {data : Bytes}

lemma LaidIn.parse_eq (h : c.LaidIn data) : Elf64.parse data = .ok (c.elf data) := by
  have hdescribes : (c.elf data).Describes c.header := by
    refine ⟨h.header, rfl, rfl, by simpa [elf] using h.phnum, ?_, h.shnum, h.sections, ?_⟩
    · intro i ph hph
      obtain ⟨p, hp, rfl⟩ := Option.map_eq_some_iff.mp (List.getElem?_map ▸ hph)
      exact ⟨p.2, h.programHeaders i p hp⟩
    · intro s hs
      obtain ⟨shstr, hshstr, hnames⟩ := h.names
      rw [Elf64.nameIn, elf, hshstr]
      exact (cstring_of_holds (hnames s hs)).symm
  exact hdescribes.parse

/-- The entries of a table that fills its section are the rows of the table. -/
lemma map_entryOffsets {α : Type} {e : Elf64} {sec : SectionHeader} {f : ℕ → α} {rows : List α}
    (hsize : sec.size = rows.length * sec.stride)
    (hrows : ∀ i row, rows[i]? = some row →
      sec.offset + i * sec.stride + 24 ≤ e.data.length ∧ f (sec.offset + i * sec.stride) = row) :
    (e.entryOffsets sec 24).map f = rows := by
  have hstride : 0 < sec.stride := sec.stride_pos
  have hrange : rangeStep sec.offset (sec.offset + sec.size) sec.stride =
      (List.range rows.length).map fun i => sec.offset + i * sec.stride := by
    have hcount : (sec.offset + sec.size - sec.offset + sec.stride - 1) / sec.stride =
        rows.length := by
      rw [Nat.add_sub_cancel_left, hsize, Nat.add_sub_assoc hstride, Nat.mul_comm,
        Nat.mul_add_div hstride, Nat.div_eq_of_lt (by omega), Nat.add_zero]
    rw [rangeStep, hcount]
  have hall : e.entryOffsets sec 24 =
      (List.range rows.length).map fun i => sec.offset + i * sec.stride := by
    rw [Elf64.entryOffsets, ← SectionHeader.stride, hrange, List.takeWhile_eq_self_iff]
    intro off hoff
    obtain ⟨i, hi, rfl⟩ := List.mem_map.mp hoff
    rw [List.mem_range] at hi
    simpa using (hrows i _ (List.getElem?_eq_getElem hi)).1
  rw [hall, List.map_map]
  refine List.ext_getElem (by simp) fun i _ hi => ?_
  simpa using (hrows i _ (List.getElem?_eq_getElem hi)).2

lemma symbolAt_of_holds {e : Elf64} {strtab : Bytes} {off nameOff : ℕ} {sym : DynamicSymbol}
    (hsym : HoldsRecord e.data off (sym.fields nameOff))
    (hname : HoldsString strtab nameOff sym.name) :
    e.symbolAt strtab off = sym := by
  have hsize := packedSize_dynamicSymbol sym nameOff
  have hoff : field (slice e.data off 24) 0 4 = nameOff := hsym.leNat_slice hsize rfl
  rw [Elf64.symbolAt]
  simp only [hoff, cstring_of_holds hname]
  obtain ⟨name, info, other, shndx, value, size⟩ := sym
  rw [DynamicSymbol.mk.injEq]
  exact ⟨rfl, hsym.leNat_slice hsize rfl, hsym.leNat_slice hsize rfl, hsym.leNat_slice hsize rfl,
    hsym.leNat_slice hsize rfl, hsym.leNat_slice hsize rfl⟩

lemma LaidIn.dynamicSymbols_eq (h : c.LaidIn data) :
    (c.elf data).dynamicSymbols = c.symbols.map Prod.fst := by
  obtain ⟨sec, str, hsec, hstr, hsymbols⟩ := h.symbols
  rw [Elf64.dynamicSymbols, elf, hsec]
  dsimp only
  rw [hstr]
  refine map_entryOffsets (by simpa using hsymbols.size) fun i sym hi => ?_
  obtain ⟨⟨sym, off⟩, hsym, rfl⟩ := Option.map_eq_some_iff.mp (List.getElem?_map ▸ hi)
  obtain ⟨hrecord, hname⟩ := hsymbols.records i (sym, off) hsym
  exact ⟨hrecord.le_length (packedSize_dynamicSymbol sym off) (by decide),
    symbolAt_of_holds hrecord hname⟩

lemma relocationAt_of_holds {e : Elf64} {off : ℕ} {rel : Relocation}
    (hrel : HoldsRecord e.data off rel.fields) (htype : rel.type < 2 ^ 32)
    (hlo : -2 ^ 63 ≤ rel.addend) (hhi : rel.addend < 2 ^ 63) : e.relocationAt off = rel := by
  have hsize := packedSize_relocation rel
  have hoffset : field (slice e.data off 24) 0 8 = rel.offset := hrel.leNat_slice hsize rfl
  have hinfo : field (slice e.data off 24) 8 8 = rel.symbolIndex * 2 ^ 32 + rel.type :=
    hrel.leNat_slice hsize rfl
  have haddend : field (slice e.data off 24) 16 8 = wrap64 rel.addend :=
    hrel.leNat_slice hsize rfl
  rw [Elf64.relocationAt]
  simp only [hoffset, hinfo, haddend, toSigned64_wrap64 hlo hhi]
  obtain ⟨offset, type, symbolIndex, addend⟩ := rel
  rw [Relocation.mk.injEq]
  dsimp only at htype ⊢
  refine ⟨rfl, ?_, ?_, rfl⟩ <;> omega

lemma LaidIn.relocations_eq (h : c.LaidIn data) :
    (c.elf data).relocations =
      c.sections.flatMap fun sec => if sec.shType = shtRela then c.relocations sec else [] := by
  rw [Elf64.relocations]
  refine List.flatMap_congr fun sec hsec => ?_
  split
  · rename_i htype
    obtain ⟨hsize, hrecords⟩ := h.relocations sec hsec htype
    refine map_entryOffsets hsize fun i rel hrel => ?_
    obtain ⟨hrecord, hrange, hlo, hhi⟩ := hrecords i rel hrel
    exact ⟨hrecord.le_length (packedSize_relocation rel) (by decide),
      relocationAt_of_holds hrecord hrange hlo hhi⟩
  · rfl

lemma toSigned64_eq_iff {n k : ℕ} (hn : n < 2 ^ 64) (hk : k < 2 ^ 63) :
    toSigned64 n = k ↔ n = k := by
  rw [toSigned64]
  split_ifs <;> omega

/-- The loop of `needed_libraries` stops at the entry that ends the section. -/
lemma neededFrom_of_holds {e : Elf64} {strtab : Bytes} {start stop : ℕ}
    {entries : List DynamicEntry} (hsize : start + (entries.length + 1) * 16 ≤ stop)
    (hrecords : ∀ i en, entries[i]? = some en →
      HoldsRecord e.data (start + i * 16) en.fields ∧ en.Named strtab)
    (hlast : ∃ value, HoldsRecord e.data (start + entries.length * 16) [(8, 0), (8, value)]) :
    e.neededFrom strtab (rangeStep start stop 16) =
      entries.filterMap DynamicEntry.library := by
  -- by induction on the entries in front of `DT_NULL`, where the loop stops
  induction entries generalizing start with
  | nil =>
    obtain ⟨value, hnull⟩ := hlast
    rw [List.length_nil, Nat.zero_mul, Nat.add_zero] at hnull
    have htag : field (slice e.data start 16) 0 8 = 0 := hnull.leNat_slice rfl rfl
    have hlen : start + 16 ≤ e.data.length := hnull.le_length rfl (by decide)
    rw [List.length_nil] at hsize
    rw [rangeStep_cons (by omega) (by decide), Elf64.neededFrom, if_neg (by omega)]
    simp [htag, toSigned64, dtNeeded]
  | cons en entries ih =>
    obtain ⟨hrecord, hnamed⟩ := hrecords 0 en rfl
    rw [Nat.zero_mul, Nat.add_zero] at hrecord
    have hrest : e.neededFrom strtab (rangeStep (start + 16) stop 16) =
        entries.filterMap DynamicEntry.library := by
      rw [List.length_cons] at hsize hlast
      refine ih (by omega) (fun i en' hi => ?_) ?_
      · have hnext := hrecords (i + 1) en' hi
        rwa [Nat.add_mul, Nat.one_mul, Nat.add_comm _ 16, ← Nat.add_assoc] at hnext
      · rwa [Nat.add_mul, Nat.one_mul, Nat.add_comm _ 16, ← Nat.add_assoc] at hlast
    rw [List.length_cons] at hsize
    cases en with
    | needed off name =>
      have htag : field (slice e.data start 16) 0 8 = dtNeeded := hrecord.leNat_slice rfl rfl
      have hval : field (slice e.data start 16) 8 8 = off := hrecord.leNat_slice rfl rfl
      have hlen : start + 16 ≤ e.data.length := hrecord.le_length rfl (by decide)
      rw [rangeStep_cons (by omega) (by decide), Elf64.neededFrom, if_neg (by omega), hrest]
      simp [htag, hval, toSigned64, dtNeeded, cstring_of_holds hnamed, DynamicEntry.library]
    | other tag value =>
      obtain ⟨hneeded, hzero⟩ := hnamed
      have htag : field (slice e.data start 16) 0 8 = tag := hrecord.leNat_slice rfl rfl
      have hlen : start + 16 ≤ e.data.length := hrecord.le_length rfl (by decide)
      have hlt : tag < 2 ^ 64 := hrecord.fit (8, tag) List.mem_cons_self
      have hneeded' : toSigned64 tag ≠ dtNeeded := fun h =>
        hneeded ((toSigned64_eq_iff hlt (by decide)).mp h)
      have hzero' : toSigned64 tag ≠ 0 := fun h => hzero ((toSigned64_eq_iff hlt (by decide)).mp h)
      rw [rangeStep_cons (by omega) (by decide), Elf64.neededFrom, if_neg (by omega), hrest]
      simp [htag, hneeded', hzero', List.filterMap_cons, DynamicEntry.library]

lemma LaidIn.neededLibraries_eq (h : c.LaidIn data) :
    (c.elf data).neededLibraries = c.dynamic.filterMap DynamicEntry.library := by
  obtain ⟨sec, str, hsec, hstr, hdynamic⟩ := h.dynamic
  rw [Elf64.neededLibraries, Elf64.sectionNamed, elf, hsec]
  dsimp only
  rw [hstr]
  have hsize := hdynamic.size
  exact neededFrom_of_holds (by omega) hdynamic.records hdynamic.last

/-- **What a linker put into a library is what the tools read from it**: the headers and the
names of the sections, the dynamic symbols with their names, the relocations of all RELA
sections with their signed addends, in order, and the names of the libraries it needs. -/
theorem LaidIn.reads (h : c.LaidIn data) :
    Elf64.parse data = .ok (c.elf data) ∧
      (c.elf data).dynamicSymbols = c.symbols.map Prod.fst ∧
      (c.elf data).relocations =
        (c.sections.flatMap fun sec => if sec.shType = shtRela then c.relocations sec else []) ∧
      (c.elf data).neededLibraries = c.dynamic.filterMap DynamicEntry.library :=
  ⟨h.parse_eq, h.dynamicSymbols_eq, h.relocations_eq, h.neededLibraries_eq⟩

/-- The RELA section of a small library. -/
def tinyRela : SectionHeader := ⟨0, shtRela, 0, 0x100A8, 0xA8, 24, 1, 0, 8, 24, ""⟩

/-- A library with one exported function, one relative relocation and one library it needs. -/
def tiny : Contents where
  header := ⟨⟨etDyn, emAarch64, 0x40, 0xF8, 56, 1, 64, 5, 4⟩, 1, 1, 0, 0, 64⟩
  programHeaders := [(⟨ptLoad, 6, 0, 0x10000, 0x238, 0x240, 0x1000⟩, 0x10000)]
  sections := [⟨0, 0, 0, 0, 0, 0, 0, 0, 0, 0, ""⟩,
    ⟨0, shtDynsym, 0, 0x10078, 0x78, 48, 4, 1, 8, 24, ""⟩,
    tinyRela,
    ⟨11, 6, 0, 0x100C0, 0xC0, 32, 4, 0, 8, 16, ".dynamic"⟩,
    ⟨0, 3, 0, 0x100E0, 0xE0, 20, 0, 0, 1, 0, ""⟩]
  symbols := [(⟨"", 0, 0, 0, 0, 0⟩, 0), (⟨"f", 0x12, 0, 1, 0x10078, 4⟩, 1)]
  relocations := fun _ => [⟨0x10238, 1027, 0, -0x10⟩]
  dynamic := [.needed 3 "libc.so"]

/-- Its file. -/
def tinyFile : Bytes :=
  packed tiny.header.fields ++ (tiny.programHeaders.flatMap fun ph => packed (ph.1.fields ph.2)) ++
  (tiny.symbols.flatMap fun sym => packed (sym.1.fields sym.2)) ++
  ((tiny.relocations tinyRela).flatMap fun rel => packed rel.fields) ++
  (tiny.dynamic.flatMap fun e => packed e.fields) ++ packed [(8, 0), (8, 0)] ++
  [0] ++ utf8 "f" ++ [0] ++ utf8 "libc.so" ++ [0] ++ utf8 ".dynamic" ++ [0, 0, 0, 0, 0] ++
  tiny.sections.flatMap fun s => packed s.fields

lemma forall_getElem? {α : Type} {xs : List α} {P : ℕ → α → Prop}
    (h : ∀ i (hi : i < xs.length), P i xs[i]) (i : ℕ) (x : α) (hx : xs[i]? = some x) : P i x := by
  obtain ⟨hi, rfl⟩ := List.getElem?_eq_some_iff.mp hx
  exact h i hi

lemma laidIn_tinyFile : tiny.LaidIn tinyFile where
  header := by decide +kernel
  phnum := rfl
  programHeaders := forall_getElem? (by decide +kernel)
  shnum := rfl
  sections := forall_getElem? (by decide +kernel)
  names := ⟨_, rfl, by decide +kernel⟩
  symbols := ⟨_, _, rfl, rfl, rfl, forall_getElem? (by decide +kernel)⟩
  relocations := by
    intro sec hsec htype
    have honly : ∀ sec ∈ tiny.sections, sec.shType = shtRela → sec = tinyRela := by decide
    obtain rfl := honly sec hsec htype
    exact ⟨rfl, forall_getElem? (by decide +kernel)⟩
  dynamic := ⟨_, _, rfl, rfl, by decide, forall_getElem? (by decide +kernel), 0,
    by decide +kernel⟩

/-- What the tools read from a file with one symbol, relocation and needed library. -/
theorem LaidIn.reads_tiny : Elf64.parse tinyFile = .ok (tiny.elf tinyFile) ∧
    (tiny.elf tinyFile).dynamicSymbols = [⟨"", 0, 0, 0, 0, 0⟩, ⟨"f", 0x12, 0, 1, 0x10078, 4⟩] ∧
    (tiny.elf tinyFile).relocations = [⟨0x10238, 1027, 0, -0x10⟩] ∧
    (tiny.elf tinyFile).neededLibraries = ["libc.so"] :=
  LaidIn.reads laidIn_tinyFile

end Contents

end Apk2Ios
