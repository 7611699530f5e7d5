import Apk2Ios.Phase4.Link
import Apk2Ios.Shim.Defines
import Apk2Ios.Shim.Stubs

/-!
# Calls of imported functions

The translated library, the generated shim and the dynamic linker of the target together.  Code
of the library that calls an import through the pointer of its relocation arrives at the function
of the host under the same name, or, for an unsupported import, at `a2i_unimplemented` with the
name of the import.
-/

namespace Apk2Ios

open Lib MachO Arm64

/-- The relocation makes its word the address of a symbol of another library: nothing is added,
neither an addend nor, for `ABS64`, the word of the library itself. -/
def Relocation.PointsTo (elf : Elf64) (rel : Relocation) (name : String) : Prop :=
  ∃ symbol, rel.fixup? elf.dynamicSymbols = some (.external symbol) ∧ symbol.name = name ∧
    rel.addend = 0 ∧ (rel.type = rAarch64Abs64 → (elf.mapped 0).word rel.offset = 0)

/-- The shim of a library in memory: its two generated objects are loaded, and the linker finds
the labels of their stubs. -/
structure ShimLoaded (elf : Elf64) (P : Program) (m : Memory) (exports : ℤ → Bytes → ℕ) : Prop where
  direct : ∀ {o : Object}, Arm64.assemble ((directAssembly
    (directNames (importRecords elf))).map AsmLine.text) = some o → ∃ base, o.LoadedAt P m base
  trap : ∀ {o : Object}, Arm64.assemble ((trapAssembly
    (trapNames (importRecords elf))).map AsmLine.text) = some o → ∃ base, o.LoadedAt P m base
  exports : ∀ name ∈ stubNames elf,
    exports 1 (utf8 (shimLabel name)) = (P.place (shimLabel name)).toNat

section

variable {elf : Elf64} {name : String} {P : Program} {s : State} {m : Memory}
  {exports : ℤ → Bytes → ℕ}

lemma mem_directSymbols (hname : name ∈ directNames (importRecords elf)) :
    name ∈ directSymbols := by
  obtain ⟨x, hx, rfl⟩ := List.mem_map.mp hname
  obtain ⟨hrecord, hcategory⟩ := List.mem_filter.mp hx
  obtain ⟨name, elfType, -, rfl⟩ := mem_importRecords.mp hrecord
  have hdirect : categoryOf name elfType = .direct := of_decide_eq_true hcategory
  show name ∈ directSymbols
  rw [categoryOf] at hdirect
  split_ifs at hdirect with _ _ _ _ _ _ _ _ _ h
  exact h.1

/-- The shim defines no function under the name of a host function that a stub jumps to. -/
lemma asmName_notMem_globals {accepts : String → Bool} (haccepts : AcceptsNames accepts)
    (inputElf : String) (hname : name ∈ directNames (importRecords elf)) :
    asmName name ∉ (generateShimScaffold inputElf elf).globals accepts := by
  have hdirect := mem_directSymbols hname
  intro hmem
  obtain ⟨other, hother⟩ : ∃ other, asmName name = shimLabel other := by
    have hstubs : AcceptsStubs accepts elf := by
      by_contra hno
      rw [globals_of_refused haccepts inputElf hno] at hmem
      exact List.not_mem_nil hmem
    rcases List.mem_append.mp ((globals_perm haccepts inputElf hstubs).mem_iff.mp hmem) with
      hstub | hfixed
    · obtain ⟨other, -, h⟩ := List.mem_map.mp hstub
      exact ⟨other, h.symm⟩
    · obtain ⟨other, -, h⟩ := List.mem_map.mp (fixedGlobals_perm.mem_iff.mp hfixed)
      exact ⟨other, h.symm⟩
  have hprefix : "a2i_".toList <+: name.toList := by
    have hchars := congrArg String.toList hother
    rw [shimLabel_eq, asmName, String.toList_append, String.toList_append] at hchars
    exact ⟨other.toList, (List.cons.inj hchars).2.symm⟩
  have hnone : ∀ n ∈ directSymbols, ¬ "a2i_".toList <+: n.toList := by decide +kernel
  exact hnone name hdirect hprefix

/-- Code that jumps to the stub of an import. -/
lemma ShimLoaded.run (h : ShimLoaded elf P s.memory exports)
    (hid : ∀ name ∈ stubNames elf, IsIdentifier name) (hpc : s.pc = P.place (shimLabel name)) :
    (name ∈ directNames (importRecords elf) →
      P.run 1 s = some { s with pc := P.place (asmName name) }) ∧
    (name ∈ trapNames (importRecords elf) →
      ∃ a, s.memory.HasCString a.toNat (utf8 name) ∧ P.run 3 s = some { s with
        x := Function.update s.x 0 a
        pc := P.place (asmName "a2i_unimplemented") }) := by
  obtain ⟨hiddirect, hidtrap⟩ := List.forall_mem_append.mp hid
  have hnodup : (stubNames elf).Nodup := nodup_stubNames
  obtain ⟨hdirect, htrap, -⟩ := List.nodup_append.mp hnodup
  constructor
  · intro hname
    obtain ⟨o, ho⟩ := exists_assemble_directAssembly hiddirect hdirect
    obtain ⟨base, hload⟩ := h.direct ho
    refine run_direct ?_
    rw [hpc]
    exact hload.has (block_directAssembly hiddirect ho hname)
  · intro hname
    obtain ⟨o, ho⟩ := exists_assemble_trapAssembly hidtrap htrap
    obtain ⟨base, hload⟩ := h.trap ho
    obtain ⟨index, hblock, hstring⟩ := block_trapAssembly hidtrap ho hname
    refine ⟨P.place (nameLabel index), hload.strings _ hstring, run_trap ?_⟩
    rw [hpc]
    exact hload.has hblock

/-- The word of a relocation that the linker has made the address of a symbol. -/
lemma Elf64.word_linked_pointsTo {bias : ℕ} {resolve : String → ℕ} {rel : Relocation}
    (h : elf.linked bias resolve = some m) (hlink : Phase3Translator.Linkable elf)
    (hrel : rel ∈ elf.relocations) (hpoints : rel.PointsTo elf name) :
    m.word (bias + rel.offset) = resolve name % 2 ^ 64 := by
  obtain ⟨symbol, hfix, rfl, haddend, habs⟩ := hpoints
  obtain ⟨ph, hph, hholds⟩ := hlink.words rel hrel
  have hold : (elf.mapped bias).word (bias + rel.offset) = (elf.mapped 0).word rel.offset := by
    have hzero : (elf.mapped 0).word (0 + rel.offset) = _ :=
      Elf64.word_mapped hlink.disjoint hlink.inFile hlink.size hph hholds
    rw [Nat.zero_add] at hzero
    rw [Elf64.word_mapped hlink.disjoint hlink.inFile hlink.size hph hholds, hzero]
  rw [Elf64.word_linked h hlink.apart hrel (Elf64.link?_external hfix), hold]
  show bionicWord _ _ _ _ % 2 ^ 64 = _
  rw [bionicWord, haddend]
  by_cases htype : rel.type = rAarch64Abs64
  · simp only [decide_eq_true htype, habs htype, if_true]
    omega
  · simp only [decide_eq_false htype, Bool.false_eq_true, if_false]
    omega

/-- The word of a relocation lies in a `PT_LOAD`. -/
lemma Elf64.window_subset_addresses {bias : ℕ} {rel : Relocation} (hwords : elf.WordsFileBacked)
    (hsize : elf.FileszLeMemsz) (hrel : rel ∈ elf.relocations) {i : ℕ} (hi : i < 8) :
    bias + rel.offset + i ∈ elf.addresses bias := by
  obtain ⟨ph, hph, hholds⟩ := hwords rel hrel
  have hle := hsize ph hph
  rw [ProgramHeader.HoldsWord] at hholds
  refine ⟨ph, hph, rel.offset + i, ⟨by omega, by omega⟩, by omega⟩

end

namespace Phase4Translator

variable {T : Phase4Translator} {args : TranslateArgs}

/-- **Calls of imports arrive.**  The file of Phase 4 is linked at any slide against a shim that
has been generated for the library and loaded anywhere.  Code that jumps through the word of a
relocation which points to an import is, after one step, at the host function of the same name,
which no function of the shim hides, when the import is direct; and, after three steps, at
`a2i_unimplemented` with the address of the name of the import in `x0` when it is unsupported.
Nothing else has changed. -/
theorem calls_arrive {st : RelocState} {out : Phase4Output}
    (hst : T.toPhase3Translator.fixups args = .ok st) (hout : T.translate args = .ok out)
    (hshim : args.shimPrefix = "_a2i_") (hbase : T.params.pageSize ∣ T.params.imageBase)
    (hlink : Phase3Translator.Linkable T.elf) (hpages : T.elf.PagesDisjoint T.params)
    (hclear : AddendsClear (sortedBy Binding.location st.bindings))
    (hid : ∀ name ∈ stubNames T.elf, IsIdentifier name) (slide : ℕ) {P : Program} {s : State}
    {exports : ℤ → Bytes → ℕ} (hloaded : ShimLoaded T.elf P s.memory exports) :
    ∃ m, linkFile out.file slide exports = some m ∧
      ∀ rel ∈ T.elf.relocations, ∀ name, rel.PointsTo T.elf name →
        let s' := { s with pc := BitVec.ofNat 64 (m.word (slide + T.slide + rel.offset)) }
        (name ∈ directNames (importRecords T.elf) →
          P.run 1 s' = some { s with pc := P.place (asmName name) } ∧
          ∀ accepts inputElf, AcceptsNames accepts →
            asmName name ∉ (generateShimScaffold inputElf T.elf).globals accepts) ∧
        (name ∈ trapNames (importRecords T.elf) →
          ∃ a, s.memory.HasCString a.toNat (utf8 name) ∧ P.run 3 s' = some { s with
            x := Function.update s.x 0 a
            pc := P.place (asmName "a2i_unimplemented") }) := by
  obtain ⟨t, hfits, rfl⟩ := translate_eq_ok.mp hout
  obtain rfl : t.base.st = st := Except.ok.inj (t.base.fixups.symm.trans hst)
  have hnul : NulFree args.shimPrefix := by
    rw [hshim]
    decide
  obtain ⟨m, m', hm, hm', heq⟩ :=
    ((hfits.loads hnul hbase hlink hpages).linksAlike_iff hlink slide exports).mpr hclear
  refine ⟨m, hm, fun rel hrel name hpoints => ?_⟩
  intro s'
  -- the word in the linked file is that of the Android linker, the address of the shim's label
  have hword : m.word (slide + T.slide + rel.offset) =
      exports 1 (utf8 (shimLabel name)) % 2 ^ 64 := by
    have hsame : m.word (slide + T.slide + rel.offset) = m'.word (slide + T.slide + rel.offset) :=
      Memory.word_eq_iff.mpr fun i hi =>
        heq (Elf64.window_subset_addresses hlink.words hlink.size hrel hi)
    rw [hsame, Elf64.word_linked_pointsTo hm' hlink hrel hpoints, hshim, shimLabel_eq]
  have hpc : name ∈ stubNames T.elf → s'.pc = P.place (shimLabel name) := by
    intro hname
    show BitVec.ofNat 64 (m.word (slide + T.slide + rel.offset)) = _
    rw [hword, hloaded.exports name hname, Nat.mod_eq_of_lt (P.place _).isLt,
      BitVec.ofNat_toNat, BitVec.setWidth_eq]
  have hrun : ShimLoaded T.elf P s'.memory exports := hloaded
  constructor
  · intro hname
    exact ⟨(hrun.run hid (hpc (List.mem_append_left _ hname))).1 hname,
      fun accepts inputElf haccepts => asmName_notMem_globals haccepts inputElf hname⟩
  · intro hname
    exact (hrun.run hid (hpc (List.mem_append_right _ hname))).2 hname

/-- The translator of the library with an import. -/
def importing : Phase4Translator := ⟨Phase3Translator.importing, 1000⟩

lemma linkable_importing : Phase3Translator.Linkable importing.elf :=
  ⟨by decide +kernel, by decide +kernel, by decide +kernel, by decide +kernel, by decide +kernel⟩

lemma exists_output_importing : ∃ out st, importing.translate {} = .ok out ∧
    importing.toPhase3Translator.fixups {} = .ok st ∧
    st.bindings = [Phase3Translator.importBinding] := by
  obtain ⟨t, hbindings, hle, hbase⟩ := Phase3Translator.exists_translation_importing
  have htrie : buildExportTrie importing.calls importing.exports = .ok [0x00, 0x00] := by
    decide +kernel
  have hle' : (⟨t, hbase, _, htrie⟩ : importing.Translation {}).linkedit =
      importing.addExports (importing.toPhase3Translator.linkedit importing.dataEnd 2 15) 2 :=
    congrArg (fun le => importing.addExports le 2) hle
  have hfits : (⟨t, hbase, _, htrie⟩ : importing.Translation {}).Fits :=
    Translation.fits_of_linkedit hle' (by decide +kernel) rfl (by decide +kernel)
      (by decide +kernel) (by decide +kernel) (by decide +kernel) (by decide +kernel)
  exact ⟨_, t.st, translate_eq_ok.mpr ⟨_, hfits, rfl⟩, t.fixups, hbindings⟩

/-- The stub of `f` at `0x2000`, and its name at `0x3010`. -/
def importProgram : Program where
  fetch a :=
    if a = 0x2000 then some (.adrp 0 "L_a2i_name_0")
    else if a = 0x2004 then some (.addPageoff 0 0 "L_a2i_name_0")
    else if a = 0x2008 then some (.b "_a2i_unimplemented")
    else none
  place s :=
    if s = "_a2i_f" then 0x2000
    else if s = "L_a2i_name_0" then 0x3010
    else 0x5000

/-- At the address in the pointer to `f`. -/
def importState : State where
  x _ := 7
  sp := 0x8000
  d _ := 0
  memory a := if a = 0x3010 then 0x66 else 0
  pc := 0x2000

lemma shimLoaded_importElf :
    ShimLoaded Elf64.importElf importProgram importState.memory fun _ _ => 0x2000 where
  direct := by
    intro o ho
    have ho' : Arm64.assemble ((directAssembly (directNames (importRecords Elf64.importElf))).map
        AsmLine.text) = some {} := by
      rw [importRecords_importElf]
      decide +kernel
    obtain rfl := Option.some.inj (ho.symm.trans ho')
    exact ⟨0, by decide, by decide, by decide⟩
  trap := by
    intro o ho
    have ho' : Arm64.assemble ((trapAssembly (trapNames (importRecords Elf64.importElf))).map
        AsmLine.text) = some ⟨[.adrp 0 "L_a2i_name_0", .addPageoff 0 0 "L_a2i_name_0",
          .b "_a2i_unimplemented"], [("_a2i_f", 0)], [("L_a2i_name_0", "f")]⟩ := by
      rw [importRecords_importElf]
      decide +kernel
    obtain rfl := Option.some.inj (ho.symm.trans ho')
    exact ⟨0x2000, by decide, by decide, by decide +kernel⟩
  exports := by
    rw [stubNames, importRecords_importElf]
    decide

/-- The import `f` at slide `0x4000000`, called through its pointer. -/
theorem calls_arrive_importing : ∃ out m a, importing.translate {} = .ok out ∧
    linkFile out.file 0x4000000 (fun _ _ => 0x2000) = some m ∧
    importState.memory.HasCString a.toNat (utf8 "f") ∧
    importProgram.run 3 { importState with pc := BitVec.ofNat 64 (m.word 0x40200B8) } =
      some { importState with x := Function.update importState.x 0 a, pc := 0x5000 } := by
  obtain ⟨out, st, hout, hst, hbindings⟩ := exists_output_importing
  have hclear : AddendsClear (sortedBy Binding.location st.bindings) := by
    rw [hbindings]
    decide +kernel
  have hid : ∀ name ∈ stubNames importing.elf, IsIdentifier name := by
    rw [show importing.elf = Elf64.importElf from rfl, stubNames, importRecords_importElf]
    decide
  obtain ⟨m, hm, hcalls⟩ := calls_arrive hst hout rfl (Nat.dvd_zero _) linkable_importing
    (by decide +kernel) hclear hid 0x4000000 shimLoaded_importElf
  have hrel : (⟨0x100B8, 1026, 1, 0⟩ : Relocation) ∈ importing.elf.relocations := by
    rw [show importing.elf = Elf64.importElf from rfl, Elf64.relocations_importElf]
    exact List.mem_singleton_self _
  have hpoints : (⟨0x100B8, 1026, 1, 0⟩ : Relocation).PointsTo importing.elf "f" := by
    rw [Relocation.PointsTo, show importing.elf = Elf64.importElf from rfl,
      Elf64.dynamicSymbols_importElf]
    exact ⟨_, rfl, rfl, rfl, fun h => absurd h (by decide)⟩
  have htrap : "f" ∈ trapNames (importRecords importing.elf) := by
    rw [show importing.elf = Elf64.importElf from rfl, importRecords_importElf]
    decide
  obtain ⟨a, hname, hrun⟩ := (hcalls _ hrel "f" hpoints).2 htrap
  exact ⟨out, m, a, hout, hm, hname, hrun⟩

end Phase4Translator

end Apk2Ios
