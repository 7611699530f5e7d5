import Apk2Ios.Lib.CSource
import Apk2Ios.Shim.Phdr

/-!
# The shim: the source of the program headers

`elf_phdr_compat.c` has the program headers of the original file as the text of an initializer.
A C compiler reads from this text the table that `a2i_dl_iterate_phdr` shows.
-/

namespace Apk2Ios

open Lib CSource

/-! ### The text -/

/-- An entry of `entries`, the initializer of a program header. -/
def phdrLine (ph : ProgramHeader) : String :=
  "    \x7b" ++ toString ph.pType ++ "u, " ++ toString ph.flags ++ "u, " ++
    hex ph.offset ++ "ULL, " ++ hex ph.vaddr ++ "ULL, " ++ hex ph.vaddr ++ "ULL, " ++
    hex ph.filesz ++ "ULL, " ++ hex ph.memsz ++ "ULL, " ++ hex ph.align ++ "ULL" ++ "\x7d,"

/-- The lines of `phdrs`; without entries it is the empty string. -/
def phdrLines (elf : Elf64) : List String :=
  if elf.programHeaders = [] then [""] else elf.programHeaders.map phdrLine

/-- The lines in front of the table. -/
def phdrSourceHead : List String :=
  ["#include <dlfcn.h>", "#include <stddef.h>", "#include <stdint.h>", "#include <string.h>", "",
    "typedef struct \x7b", "    uint32_t p_type;", "    uint32_t p_flags;",
    "    uint64_t p_offset;", "    uint64_t p_vaddr;", "    uint64_t p_paddr;",
    "    uint64_t p_filesz;", "    uint64_t p_memsz;", "    uint64_t p_align;",
    "\x7d a2i_elf64_phdr;", "", "typedef struct \x7b", "    uintptr_t dlpi_addr;",
    "    const char *dlpi_name;", "    const a2i_elf64_phdr *dlpi_phdr;",
    "    uint16_t dlpi_phnum;", "    uint16_t _pad0;", "    uint32_t _pad1;",
    "    uint64_t dlpi_adds;", "    uint64_t dlpi_subs;", "    size_t dlpi_tls_modid;",
    "    void *dlpi_tls_data;", "\x7d a2i_dl_phdr_info;", ""]

/-- The first line of the table. -/
def phdrTableStart : String := "static const a2i_elf64_phdr k_original_phdrs[] = \x7b"

/-- The line behind the table. -/
def phdrTableEnd : String := "\x7d;"

/-- The lines behind the table. -/
def phdrSourceTail : List String :=
  ["", "int a2i_dl_iterate_phdr(", "    int (*callback)(a2i_dl_phdr_info *, size_t, void *),",
    "    void *data", ") \x7b", "    if (callback == NULL) \x7b", "        return 0;",
    "    \x7d", "", "    Dl_info image = \x7b0\x7d;",
    "    void *caller = __builtin_return_address(0);",
    "    if (dladdr(caller, &image) == 0 || image.dli_fbase == NULL) \x7b", "        return 0;",
    "    \x7d", "", "    a2i_dl_phdr_info info;", "    memset(&info, 0, sizeof(info));",
    "    info.dlpi_addr = (uintptr_t)image.dli_fbase + 0x10000ULL;",
    "    info.dlpi_name = image.dli_fname ? image.dli_fname : \x22\x22;",
    "    info.dlpi_phdr = k_original_phdrs;", "    info.dlpi_phnum = (uint16_t)(",
    "        sizeof(k_original_phdrs) / sizeof(k_original_phdrs[0])", "    );", "",
    "    return callback(&info, sizeof(info), data);", "\x7d", ""]

/-- `_elf_phdr_compat_source(elf)`, line by line. -/
def elfPhdrCompatSource (elf : Elf64) : List String :=
  phdrSourceHead ++ phdrTableStart :: (phdrLines elf ++ phdrTableEnd :: phdrSourceTail)

/-! ### Reading the text -/

/-- The fields of `a2i_elf64_phdr` in their order, two of 32 bits and six of 64. -/
def phdrOfConstants : List ℕ → Option A2iElf64Phdr
  | [pType, pFlags, pOffset, pVaddr, pPaddr, pFilesz, pMemsz, pAlign] =>
    some ⟨pType % 2 ^ 32, pFlags % 2 ^ 32, pOffset % 2 ^ 64, pVaddr % 2 ^ 64, pPaddr % 2 ^ 64,
      pFilesz % 2 ^ 64, pMemsz % 2 ^ 64, pAlign % 2 ^ 64⟩
  | _ => none

/-- A line of the table: blanks, the initializer of a program header, a comma. -/
def readPhdr (line : String) : Option A2iElf64Phdr :=
  let cs := line.toList.dropWhile (· = ' ')
  if cs.getLast? = some ',' then (readInitializer cs.dropLast).bind phdrOfConstants else none

/-- `k_original_phdrs` as a compiler reads it; empty lines do not count. -/
def readOriginalPhdrs (source : List String) : Option (List A2iElf64Phdr) :=
  match source.dropWhile (· ≠ phdrTableStart) with
  | [] => none
  | _ :: rest => ((rest.takeWhile (· ≠ phdrTableEnd)).filter (· ≠ "")).mapM readPhdr

/-! ### The constants -/

section

variable {n : ℕ}

/-- A decimal constant with the suffix `u`. -/
def decimalConstant (n : ℕ) : List Char := Nat.toDigits 10 n ++ ['u']

/-- A hexadecimal constant with the suffix `ULL`. -/
def hexConstant (n : ℕ) : List Char := ('0' :: 'x' :: Nat.toDigits 16 n) ++ ['U', 'L', 'L']

lemma toList_hex (n : ℕ) : (hex n).toList = '0' :: 'x' :: Nat.toDigits 16 n := by simp [hex]

lemma readConstant_decimal (hn : n < 2 ^ 64) : readConstant (decimalConstant n) = some n :=
  readConstant_append (isSuffixChar_toDigits (by decide) (by decide) n) (by decide) (by decide)
    (readBody_decimal n) hn

lemma readConstant_hex (hn : n < 2 ^ 64) : readConstant (hexConstant n) = some n := by
  refine readConstant_append ?_ (by decide) (by decide) (readBody_hexadecimal n) hn
  rw [List.forall_mem_cons, List.forall_mem_cons]
  exact ⟨rfl, rfl, isSuffixChar_toDigits (by decide) (by decide) n⟩

/-- No digit is a comma or a blank. -/
lemma notMem_toDigits {base : ℕ} (hbase : 1 < base) (hle : base ≤ 16) (n : ℕ) {c : Char}
    (hc : digitValue c = 36) : c ∉ Nat.toDigits base n := by
  intro hmem
  have hlt := digitValue_lt_of_mem_toDigits hbase hle n c hmem
  omega

lemma comma_notMem_decimal (n : ℕ) : ',' ∉ decimalConstant n := by
  have hdigits : ',' ∉ Nat.toDigits 10 n := notMem_toDigits (by decide) (by decide) n (by rfl)
  simp [decimalConstant, hdigits]

lemma comma_notMem_hex (n : ℕ) : ',' ∉ hexConstant n := by
  have hdigits : ',' ∉ Nat.toDigits 16 n := notMem_toDigits (by decide) (by decide) n (by rfl)
  simp [hexConstant, hdigits]

end

/-! ### The lines -/

section

variable {ph : ProgramHeader}

/-- The constants of a line, with the blanks in front of them. -/
def phdrConstants (ph : ProgramHeader) : List (List Char) :=
  decimalConstant ph.pType :: (' ' :: decimalConstant ph.flags) ::
    [ph.offset, ph.vaddr, ph.vaddr, ph.filesz, ph.memsz, ph.align].map fun n => ' ' :: hexConstant n

lemma toList_phdrLine (ph : ProgramHeader) :
    (phdrLine ph).toList = List.replicate 4 ' ' ++
      (('\x7b' :: ([','].intercalate (phdrConstants ph) ++ ['\x7d'])) ++ [',']) := by
  have hstart : "    \x7b".toList = [' ', ' ', ' ', ' ', '\x7b'] := by decide +kernel
  have hu : "u, ".toList = ['u', ',', ' '] := by decide +kernel
  have hull : "ULL, ".toList = ['U', 'L', 'L', ',', ' '] := by decide +kernel
  have hlast : "ULL".toList = ['U', 'L', 'L'] := by decide +kernel
  have hend : "\x7d,".toList = ['\x7d', ','] := by decide +kernel
  -- `simp` and `rw` would compute with the literals
  unfold phdrLine
  generalize "    \x7b" = start, "u, " = u, "ULL, " = ull, "ULL" = last, "\x7d," = tail
    at hstart hu hull hlast hend ⊢
  simp [hstart, hu, hull, hlast, hend, toList_hex, phdrConstants, decimalConstant, hexConstant]

lemma comma_notMem_phdrConstants (ph : ProgramHeader) : ∀ c ∈ phdrConstants ph, ',' ∉ c := by
  simp [phdrConstants, comma_notMem_decimal, comma_notMem_hex]

lemma dropWhile_decimal (n : ℕ) : (decimalConstant n).dropWhile (· = ' ') = decimalConstant n := by
  have hblank : ' ' ∉ decimalConstant n := by
    have hdigits : ' ' ∉ Nat.toDigits 10 n := notMem_toDigits (by decide) (by decide) n (by rfl)
    simp [decimalConstant, hdigits]
  rw [List.dropWhile_eq_self_iff]
  intro hlen
  exact fun h => hblank (of_decide_eq_true h ▸ List.getElem_mem hlen)

lemma dropWhile_blank_hex (n : ℕ) :
    (' ' :: hexConstant n).dropWhile (· = ' ') = hexConstant n := by
  rfl

/-- The constants have at most 64 bits. -/
lemma readInitializer_phdrConstants (h : Elf64.ProgramHeader.InRange ph) :
    readInitializer ('\x7b' :: ([','].intercalate (phdrConstants ph) ++ ['\x7d'])) =
      some [ph.pType, ph.flags, ph.offset, ph.vaddr, ph.vaddr, ph.filesz, ph.memsz, ph.align] := by
  refine readInitializer_intercalate (List.cons_ne_nil _ _) (comma_notMem_phdrConstants ph) ?_
  obtain ⟨hpType, hflags, hoffset, hvaddr, hfilesz, hmemsz, halign⟩ := h
  have hpType' : ph.pType < 2 ^ 64 := by omega
  have hflags' : ph.flags < 2 ^ 64 := by omega
  have hblank : (' ' :: decimalConstant ph.flags).dropWhile (· = ' ') =
      decimalConstant ph.flags := dropWhile_decimal _
  simp only [phdrConstants, List.map_cons, List.map_nil, List.mapM_cons, List.mapM_nil,
    dropWhile_decimal, hblank, dropWhile_blank_hex, readConstant_decimal hpType',
    readConstant_decimal hflags', readConstant_hex hoffset, readConstant_hex hvaddr,
    readConstant_hex hfilesz, readConstant_hex hmemsz, readConstant_hex halign]
  rfl

/-- A line is read as the entry that it is written from. -/
lemma readPhdr_phdrLine (h : Elf64.ProgramHeader.InRange ph) :
    readPhdr (phdrLine ph) = some (phdrEntry ph) := by
  have hdrop : (phdrLine ph).toList.dropWhile (· = ' ') =
      ('\x7b' :: ([','].intercalate (phdrConstants ph) ++ ['\x7d'])) ++ [','] := by
    rw [toList_phdrLine]
    rfl
  rw [readPhdr, hdrop, if_pos List.getLast?_concat, List.dropLast_concat,
    readInitializer_phdrConstants h, Option.bind_some, phdrOfConstants, phdrEntry,
    Nat.mod_eq_of_lt h.pType, Nat.mod_eq_of_lt h.flags, Nat.mod_eq_of_lt h.offset,
    Nat.mod_eq_of_lt h.vaddr, Nat.mod_eq_of_lt h.filesz, Nat.mod_eq_of_lt h.memsz,
    Nat.mod_eq_of_lt h.align]

/-- The line of a program header starts with a blank. -/
lemma phdrLine_ne {s : String} (hs : s.toList.head? ≠ some ' ') (ph : ProgramHeader) :
    phdrLine ph ≠ s := by
  rintro rfl
  exact hs (by rw [toList_phdrLine]; rfl)

end

/-! ### The table -/

section

variable {elf : Elf64}

lemma filter_phdrLines (elf : Elf64) :
    (phdrLines elf).filter (· ≠ "") = elf.programHeaders.map phdrLine := by
  rw [phdrLines]
  split_ifs with hnil
  · rw [hnil]
    rfl
  · refine List.filter_eq_self.mpr fun line hline => ?_
    obtain ⟨ph, -, rfl⟩ := List.mem_map.mp hline
    exact decide_eq_true (phdrLine_ne (by decide) ph)

/-- The table ends behind the last program header. -/
lemma takeWhile_phdrLines (elf : Elf64) :
    (phdrLines elf ++ phdrTableEnd :: phdrSourceTail).takeWhile (· ≠ phdrTableEnd) =
      phdrLines elf := by
  have hlines : ∀ line ∈ phdrLines elf, decide (line ≠ phdrTableEnd) = true := by
    intro line hline
    rw [phdrLines] at hline
    split_ifs at hline
    · rw [List.mem_singleton.mp hline]
      decide +kernel
    · obtain ⟨ph, -, rfl⟩ := List.mem_map.mp hline
      exact decide_eq_true (phdrLine_ne (by decide) ph)
  rw [List.takeWhile_append_of_pos hlines, List.takeWhile_cons_of_neg (by simp), List.append_nil]

/-- The first line of the table stands only in front of it. -/
lemma dropWhile_elfPhdrCompatSource (elf : Elf64) :
    (elfPhdrCompatSource elf).dropWhile (· ≠ phdrTableStart) =
      phdrTableStart :: (phdrLines elf ++ phdrTableEnd :: phdrSourceTail) := by
  have hhead : ∀ line ∈ phdrSourceHead, decide (line ≠ phdrTableStart) = true := by
    decide +kernel
  rw [elfPhdrCompatSource, List.dropWhile_append_of_pos hhead,
    List.dropWhile_cons_of_neg (by simp)]

/-- The table is read back from the text. -/
lemma readOriginalPhdrs_elfPhdrCompatSource
    (h : ∀ ph ∈ elf.programHeaders, Elf64.ProgramHeader.InRange ph) :
    readOriginalPhdrs (elfPhdrCompatSource elf) = some (kOriginalPhdrs elf) := by
  have hread : ∀ ph ∈ elf.programHeaders, (readPhdr ∘ phdrLine) ph = some (phdrEntry ph) := by
    intro ph hph
    rw [Function.comp_apply, readPhdr_phdrLine (h ph hph)]
  rw [readOriginalPhdrs, dropWhile_elfPhdrCompatSource]
  show ((List.takeWhile _ _).filter _).mapM readPhdr = _
  rw [takeWhile_phdrLines, filter_phdrLines, List.mapM_map, mapM_eq_some_map hread]
  rfl

/-- **The compiled source shows the file's headers.** The table that a compiler reads from the
text has the program headers of the file in their order, the virtual address in place of the
physical one, and this table with its length is what `a2i_dl_iterate_phdr` reports. -/
theorem elfPhdrCompatSource_reports {data : Bytes} (h : Elf64.parse data = .ok elf)
    (image : DlInfo) (hbase : image.dliFbase ≠ 0) :
    ∃ table, readOriginalPhdrs (elfPhdrCompatSource elf) = some table ∧
      List.Forall₂ (fun entry ph => entry.pPaddr = ph.vaddr ∧
        (⟨entry.pType, entry.pFlags, entry.pOffset, entry.pVaddr, entry.pFilesz, entry.pMemsz,
          entry.pAlign⟩ : ProgramHeader) = ph) table elf.programHeaders ∧
      ∀ callback, a2iDlIteratePhdr elf (some image) (some callback) =
        callback ⟨(image.dliFbase + 0x10000) % 2 ^ 64, image.dliFname.getD "", table,
          table.length, 0, 0, 0, 0⟩ := by
  obtain ⟨-, hcount, hrange⟩ := Elf64.parse_eq_ok h
  have hlen : (kOriginalPhdrs elf).length < 2 ^ 16 := by rwa [kOriginalPhdrs, List.length_map]
  refine ⟨kOriginalPhdrs elf, readOriginalPhdrs_elfPhdrCompatSource hrange, ?_, fun callback => ?_⟩
  · rw [kOriginalPhdrs, List.forall₂_map_left_iff]
    exact List.forall₂_same.mpr fun ph _ => ⟨rfl, rfl⟩
  · rw [a2iDlIteratePhdr]
    simp only [hbase, if_false, dlPhdrInfo, Nat.mod_eq_of_lt hlen]

end

/-- The small library in an image that `dladdr` finds at `0x100000000`. -/
theorem elfPhdrCompatSource_reports_smallFile :
    ∃ table, readOriginalPhdrs (elfPhdrCompatSource Elf64.smallElf) = some table ∧
      List.Forall₂ (fun entry ph => entry.pPaddr = ph.vaddr ∧
        (⟨entry.pType, entry.pFlags, entry.pOffset, entry.pVaddr, entry.pFilesz, entry.pMemsz,
          entry.pAlign⟩ : ProgramHeader) = ph) table Elf64.smallElf.programHeaders ∧
      ∀ callback, a2iDlIteratePhdr Elf64.smallElf (some ⟨none, 0x100000000⟩) (some callback) =
        callback ⟨0x100010000, "", table, table.length, 0, 0, 0, 0⟩ :=
  elfPhdrCompatSource_reports Elf64.parse_smallFile ⟨none, 0x100000000⟩ (by decide)

end Apk2Ios
