import Apk2Ios.Elf

/-!
# The shim: program headers at run time

`elf_phdr_compat.c` is generated from the program headers of the original file.  Its
`a2i_dl_iterate_phdr` shows the translated image to an unwinder as if it were loaded by the
Android linker.
-/

namespace Apk2Ios

open Lib

/-- `a2i_elf64_phdr`. -/
structure A2iElf64Phdr where
  pType : ℕ
  pFlags : ℕ
  pOffset : ℕ
  pVaddr : ℕ
  pPaddr : ℕ
  pFilesz : ℕ
  pMemsz : ℕ
  pAlign : ℕ
deriving DecidableEq, Repr

/-- `a2i_dl_phdr_info`.  The fields that `memset` clears and nothing writes are zero. -/
structure A2iDlPhdrInfo where
  dlpiAddr : ℕ
  dlpiName : String
  dlpiPhdr : List A2iElf64Phdr
  dlpiPhnum : ℕ
  dlpiAdds : ℕ := 0
  dlpiSubs : ℕ := 0
  dlpiTlsModid : ℕ := 0
  dlpiTlsData : ℕ := 0
deriving DecidableEq, Repr

/-- What `dladdr` writes to `Dl_info`: the name of the image, which can be `NULL`, and the
address of its Mach-O header. -/
structure DlInfo where
  dliFname : Option String
  dliFbase : ℕ

/-- The initializer of a program header; the virtual address is written twice. -/
def phdrEntry (ph : ProgramHeader) : A2iElf64Phdr :=
  ⟨ph.pType, ph.flags, ph.offset, ph.vaddr, ph.vaddr, ph.filesz, ph.memsz, ph.align⟩

/-- `k_original_phdrs`. -/
def kOriginalPhdrs (elf : Elf64) : List A2iElf64Phdr := elf.programHeaders.map phdrEntry

/-- The variable `info` of `a2i_dl_iterate_phdr`. -/
def dlPhdrInfo (elf : Elf64) (image : DlInfo) : A2iDlPhdrInfo where
  dlpiAddr := (image.dliFbase + 0x10000) % 2 ^ 64
  dlpiName := image.dliFname.getD ""
  dlpiPhdr := kOriginalPhdrs elf
  dlpiPhnum := (kOriginalPhdrs elf).length % 2 ^ 16

/-- `a2i_dl_iterate_phdr(callback, data)`, from what `dladdr` finds for the caller. -/
def a2iDlIteratePhdr (elf : Elf64) (dladdr : Option DlInfo)
    (callback : Option (A2iDlPhdrInfo → ℤ)) : ℤ :=
  match callback, dladdr with
  | none, _ => 0
  | some _, none => 0
  | some callback, some image =>
    if image.dliFbase = 0 then 0 else callback (dlPhdrInfo elf image)

/-! ### Searching the headers -/

/-- The header is a `PT_LOAD` that contains the address `pc`:
`pc - (dlpi_addr + p_vaddr) < p_memsz` in `uintptr_t`. -/
def A2iElf64Phdr.ContainsPc (loadBase pc : ℕ) (ph : A2iElf64Phdr) : Prop :=
  ph.pType = ptLoad ∧ (pc + (2 ^ 64 - (loadBase + ph.pVaddr) % 2 ^ 64)) % 2 ^ 64 < ph.pMemsz

instance (loadBase pc : ℕ) : DecidablePred (A2iElf64Phdr.ContainsPc loadBase pc) :=
  fun _ => inferInstanceAs (Decidable (_ ∧ _))

/-- The reported `PT_LOAD`s that contain an address. -/
def A2iDlPhdrInfo.findLoads (info : A2iDlPhdrInfo) (pc : ℕ) : List A2iElf64Phdr :=
  (info.dlpiPhdr.take info.dlpiPhnum).filter fun ph => ph.ContainsPc info.dlpiAddr pc

section

variable {elf : Elf64} {image : DlInfo} {ph : ProgramHeader} {i : ℕ}

/-- All headers of a parsed file are reported. -/
lemma take_dlpiPhnum (h : elf.programHeaders.length < 2 ^ 16) :
    (dlPhdrInfo elf image).dlpiPhdr.take (dlPhdrInfo elf image).dlpiPhnum =
      elf.programHeaders.map phdrEntry := by
  have hlen : (kOriginalPhdrs elf).length = elf.programHeaders.length := List.length_map _
  rw [dlPhdrInfo, hlen, Nat.mod_eq_of_lt h, ← hlen]
  exact List.take_length

/-- An address without wraparound is in the header of the `PT_LOAD`s that contain it. -/
lemma containsPc_iff {base v : ℕ} (hv : 0x10000 + v < 2 ^ 64) (hvaddr : ph.vaddr < 2 ^ 64)
    (hend : 0x10000 + ph.vaddr + ph.memsz ≤ 2 ^ 64) :
    (phdrEntry ph).ContainsPc ((base + 0x10000) % 2 ^ 64) ((base + 0x10000 + v) % 2 ^ 64) ↔
      ph.pType = ptLoad ∧ v ∈ ph.memory := by
  rw [A2iElf64Phdr.ContainsPc, ProgramHeader.memory, Set.mem_Ico]
  simp only [phdrEntry]
  refine and_congr_right fun _ => ?_
  omega

/-- **The search finds one header** when the `PT_LOAD`s take different memory. -/
theorem findLoads_eq_singleton (hcount : elf.programHeaders.length < 2 ^ 16)
    (hends : ∀ ph ∈ elf.loads, 0x10000 + ph.vaddr + ph.memsz ≤ 2 ^ 64)
    (hdisj : elf.MemoryDisjoint) (hph : elf.loads[i]? = some ph) {v : ℕ} (hv : v ∈ ph.memory) :
    (dlPhdrInfo elf image).findLoads ((image.dliFbase + 0x10000 + v) % 2 ^ 64) =
      [phdrEntry ph] := by
  have hmem := List.mem_of_getElem? hph
  have hcontains : ∀ q ∈ elf.loads, (phdrEntry q).ContainsPc
      ((image.dliFbase + 0x10000) % 2 ^ 64) ((image.dliFbase + 0x10000 + v) % 2 ^ 64) ↔
        v ∈ q.memory := by
    intro q hq
    have hend := hends ph hmem
    have hend' := hends q hq
    have hv' := hv
    rw [ProgramHeader.memory, Set.mem_Ico] at hv'
    rw [containsPc_iff (by omega) (by omega) hend']
    exact and_iff_right (by simpa using (List.mem_filter.mp hq).2)
  -- the search looks at all headers, and passes over those that are no `PT_LOAD`
  have hfilter : (elf.programHeaders.filter fun q => (phdrEntry q).ContainsPc
      ((image.dliFbase + 0x10000) % 2 ^ 64) ((image.dliFbase + 0x10000 + v) % 2 ^ 64)) =
      elf.loads.filter fun q => (phdrEntry q).ContainsPc
        ((image.dliFbase + 0x10000) % 2 ^ 64) ((image.dliFbase + 0x10000 + v) % 2 ^ 64) := by
    rw [Elf64.loads, List.filter_filter]
    refine List.filter_congr fun q _ => ?_
    rw [← Bool.decide_and, decide_eq_decide]
    exact (and_iff_left_of_imp fun h => h.1).symm
  rw [A2iDlPhdrInfo.findLoads, take_dlpiPhnum hcount, List.filter_map]
  refine (congrArg (List.map phdrEntry) (hfilter.trans ?_)).trans (List.map_singleton ..)
  refine filter_eq_singleton hph (decide_eq_true ((hcontains ph hmem).mpr hv)) ?_
  refine hdisj.imp_of_mem fun {p q} hp hq hpq => ?_
  rw [decide_eq_true_eq, decide_eq_true_eq, hcontains p hp, hcontains q hq]
  exact fun h => Set.disjoint_left.mp hpq h.1 h.2

end

end Apk2Ios
