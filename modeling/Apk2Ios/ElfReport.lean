import Apk2Ios.Phase3.Accounting
import Apk2Ios.Phase4.Outcome

/-!
# The report on a library

`report` of `elf.py` describes a library before it is translated.  Its verdict agrees with the
translators: they do not translate what it does not call a candidate, and they do not refuse a
candidate for its machine, its type or the type of a relocation.
-/

namespace Apk2Ios

open Lib MachO

/-- `ANDROID_IMPORT_PREFIXES`. -/
def androidImportPrefixes : List String :=
  ["__android_", "ANativeWindow_", "ALooper_", "AInput", "AAsset", "AMotionEvent_", "AKeyEvent_",
    "android_"]

/-- `AARCH64_RELOCS.values()`. -/
def aarch64Relocs : List String :=
  ["R_AARCH64_ABS64", "R_AARCH64_GLOB_DAT", "R_AARCH64_JUMP_SLOT", "R_AARCH64_RELATIVE"]

/-- The dictionary of `report`.  The entry `elf64` is always true. -/
structure ElfReport where
  source : String
  machine : ℕ
  isAarch64 : Bool
  type : ℕ
  isSharedObject : Bool
  entry : String
  programHeaders : ℕ
  sections : ℕ
  needed : List String
  undefinedImportCount : ℕ
  androidSpecificImportCount : ℕ
  androidSpecificImports : List String
  relocations : List (String × ℕ)
  unknownRelocationTypes : List String
  phase1Candidate : Bool

namespace Elf64

variable (elf : Elf64)

/-- `undefined_symbols()`. -/
def undefinedSymbols : List String :=
  sortedSet ((elf.dynamicSymbols.filter fun s => s.shndx = shnUndef ∧ s.name ≠ "").map
    DynamicSymbol.name)

/-- `android_specific_imports()`. -/
def androidSpecificImports : List String :=
  elf.undefinedSymbols.filter fun s => androidImportPrefixes.any fun p => s.startsWith p

/-- `self.e_entry`. -/
def eEntry : ℕ := field (slice elf.data 0 64) 24 8

/-- `report()`, for the name of a source. -/
def report (source : String) : ElfReport :=
  let imports := elf.undefinedSymbols
  let androidImports := elf.androidSpecificImports
  let relocCounts := elf.relocationCounts.items
  let unknownRelocs := (relocCounts.map Prod.fst).filter fun k => k ∉ aarch64Relocs
  { source := source
    machine := elf.eMachine
    isAarch64 := elf.eMachine = emAarch64
    type := elf.eType
    isSharedObject := elf.eType = etDyn
    entry := hex elf.eEntry
    programHeaders := elf.programHeaders.length
    sections := elf.sections.length
    needed := elf.neededLibraries
    undefinedImportCount := imports.length
    androidSpecificImportCount := androidImports.length
    androidSpecificImports := androidImports
    relocations := relocCounts
    unknownRelocationTypes := unknownRelocs
    phase1Candidate := elf.eMachine = emAarch64 ∧ elf.eType = etDyn ∧ unknownRelocs = [] }

variable {elf}

/-- The names of unknown types are different from those of the supported ones. -/
lemma relocationName_mem {rType : ℕ} :
    relocationName rType ∈ aarch64Relocs ↔ rType ∈ relocationKinds := by
  constructor
  · intro h
    rw [relocationName.eq_def] at h
    split at h
    · decide
    · decide
    · decide
    · decide
    · have hhead : ∀ s ∈ aarch64Relocs, s.toList.head? = some 'R' := by decide
      have hfirst := hhead _ h
      simp at hfirst
  · intro h
    have hall : ∀ k ∈ relocationKinds, relocationName k ∈ aarch64Relocs := by decide
    exact hall rType h

/-- The verdict looks at the machine, the type and the types of the relocations. -/
lemma phase1Candidate_iff {source : String} :
    (elf.report source).phase1Candidate = true ↔
      elf.eMachine = emAarch64 ∧ elf.eType = etDyn ∧
        ∀ rel ∈ elf.relocations, rel.type ∈ relocationKinds := by
  have hkeys : ∀ name, name ∈ elf.relocationCounts.items.map Prod.fst ↔
      ∃ rel ∈ elf.relocations, relocationName rel.type = name := by
    intro name
    rw [relocationCounts_eq, Dict.sorted, ((sortedItems_perm _).map Prod.fst).mem_iff,
      (Dict.fst_items_fill_perm _ _ _).mem_iff, List.mem_dedup, List.mem_map]
  rw [report, decide_eq_true_eq, List.filter_eq_nil_iff]
  refine and_congr_right fun _ => and_congr_right fun _ => ?_
  simp only [decide_eq_true_eq, not_not, hkeys, forall_exists_index, and_imp,
    forall_apply_eq_imp_iff₂, relocationName_mem]

end Elf64

/-! ### Refusals -/

/-- The exceptions for a machine, a type or a relocation type that is not supported. -/
def PyError.Refusal : PyError → Prop
  | .translate .machine | .translate .type | .translate (.unsupported _ _) => True
  | .phase3 .machine | .phase3 .type | .phase3 (.unsupported _ _) => True
  | _ => False

/-- The computation raises no refusal. -/
def PyM.Accepts {α : Type} (x : PyM α) : Prop := x.Raises fun e => ¬ e.Refusal

/-- The exceptions of the parts are no refusals. -/
lemma accepts_buildExportTrie (calls : ℕ) (exports : Dict String ℕ) :
    (buildExportTrie calls exports).Accepts := by
  refine raises_buildExportTrie id id fun e he => ?_
  rw [raises_visit calls _ e he]
  exact id

lemma Phase2Translator.accepts_commands (T : Phase2Translator) (args : Phase2.TranslateArgs) :
    (T.commands args).Accepts :=
  ((PyM.raises_raiseIf id).bind fun _ => raises_structPack id _).bind fun _ =>
    (PyM.raises_mapM fun _ => raises_structPack id _).bind fun _ =>
      (raises_dylibCommand id _ _).bind fun _ => (raises_structPack id _).bind fun _ =>
        PyM.raises_pure _

/-- The loops refuse no relocation of a supported type. -/
lemma Relocation.failure?_ne_unsupported {readsImports : Bool} {place : ℕ → Option ℕ}
    {symbols : List DynamicSymbol} {n rType offset : ℕ} {rel : Relocation}
    (h : rel.type ∈ relocationKinds) :
    rel.failure? readsImports place symbols n ≠ some (.unsupported rType offset) := by
  have hkind : rel.type = rAarch64Relative ∨
      rel.type ∈ [rAarch64Abs64, rAarch64GlobDat, rAarch64JumpSlot] := by
    simpa [relocationKinds] using h
  rw [failure?]
  cases place rel.offset with
  | none => simp
  | some dst =>
    by_cases hrel : rel.type = rAarch64Relative
    · simp only [if_pos hrel]
      split_ifs <;> simp
    · have hother := hkind.resolve_left hrel
      simp only [if_neg hrel, if_neg (not_not.mpr hother)]
      cases symbols[rel.symbolIndex]? with
      | none => simp
      | some symbol =>
        dsimp only
        split_ifs <;> simp

lemma not_refusal_outside (reads : Bool) (off : ℕ) : ¬ (outside reads off).Refusal := by
  rw [outside]
  split_ifs <;> exact id

/-- A failure that is not about the type of the relocation. -/
lemma Failure.not_refusal {f : Failure} (h : ∀ rType offset, f ≠ .unsupported rType offset) :
    ¬ f.phase2.Refusal ∧ ¬ f.phase3.Refusal := by
  cases f with
  | unsupported rType offset => exact absurd rfl (h rType offset)
  | short reads dst => exact ⟨not_refusal_outside reads dst, not_refusal_outside reads dst⟩
  | _ => exact ⟨id, id⟩

section

variable {elf : Elf64} {source : String}

lemma Phase2Translator.accepts_translate {T : Phase2Translator} (args : Phase2.TranslateArgs)
    (hkinds : ∀ rel ∈ T.elf.relocations, rel.type ∈ relocationKinds) :
    (T.translate args).Accepts := by
  have hfixups : T.fixups.Accepts := by
    intro e he
    obtain ⟨f, hf, rfl⟩ := foldlM_eq_error_iff.mp he
    obtain ⟨rel, hrel, hfailure⟩ := List.exists_of_findSome?_eq_some hf
    exact (Failure.not_refusal fun _ _ h =>
      Relocation.failure?_ne_unsupported (hkinds rel hrel) (h ▸ hfailure)).1
  exact (PyM.raises_raiseIf id).bind fun _ => hfixups.bind fun _ =>
    (T.accepts_commands args).bind fun _ => (raises_emitCommands id id _ _ _ _).bind fun _ =>
      PyM.raises_pure _

lemma Phase3Translator.accepts_translate {T : Phase3Translator} (args : TranslateArgs)
    (hkinds : ∀ rel ∈ T.elf.relocations, rel.type ∈ relocationKinds) :
    (T.translate args).Accepts := by
  have hfixups : (T.fixups args).Accepts := by
    intro e he
    obtain ⟨f, hf, rfl⟩ := relocateAll_eq_error_iff.mp he
    obtain ⟨rel, hrel, hfailure⟩ := List.exists_of_findSome?_eq_some hf
    exact (Failure.not_refusal fun _ _ h =>
      Relocation.failure?_ne_unsupported (hkinds rel hrel) (h ▸ hfailure)).2
  exact (PyM.raises_raiseIf id).bind fun _ => hfixups.bind fun _ =>
    (raises_rebaseStream id _).bind fun _ => (raises_bindStream id id _).bind fun _ =>
      (raises_imageCommands id _ _ _).bind fun _ => (raises_emitCommands id id _ _ _ _).bind fun _ =>
        PyM.raises_pure _

lemma Phase4Translator.accepts_translate {T : Phase4Translator} (args : TranslateArgs)
    (hkinds : ∀ rel ∈ T.elf.relocations, rel.type ∈ relocationKinds) :
    (T.translate args).Accepts :=
  (Phase3Translator.accepts_translate args hkinds).bind fun _ =>
    (accepts_buildExportTrie _ _).bind fun _ => (raises_commandSegments id _ _).bind fun _ =>
      (raises_imageCommands id _ _ _).bind fun _ => (raises_structPack id _).bind fun _ =>
        (raises_emitCommands id id _ _ _ _).bind fun _ => PyM.raises_pure _

/-- The constructors refuse the machine and the type of no candidate. -/
lemma accepts_init (hmachine : elf.eMachine = emAarch64) (htype : elf.eType = etDyn) :
    (∀ p, (Phase2Translator.init elf p).Accepts) ∧ ∀ p, (Phase3Translator.init elf p).Accepts := by
  constructor
  · intro p
    have hloads : (mapLoads p elf.loads).Accepts :=
      (PyM.raises_raiseIf id).bind fun _ => PyM.raises_pure _
    rw [Phase2Translator.init, dif_pos hmachine, dif_pos htype]
    split
    · rename_i e heq
      exact PyM.raises_error (hloads e heq)
    · exact PyM.raises_ok _
  · intro p
    have hloads : (layoutSegments p elf.loads).Accepts := by
      cases elf.loads with
      | nil => exact PyM.raises_error id
      | cons first rest => exact PyM.raises_ite (PyM.raises_error id) (PyM.raises_ok _)
    rw [Phase3Translator.init, dif_pos hmachine, dif_pos htype]
    split
    · rename_i e heq
      exact PyM.raises_error (hloads e heq)
    · exact PyM.raises_ok _

/-- A relocation of another type stops the loops, or one before it does. -/
lemma exists_findSome?_failure {readsImports : Bool} {place : ℕ → Option ℕ}
    {symbols : List DynamicSymbol} {n : ℕ} {rels : List Relocation} {rel : Relocation}
    (hrel : rel ∈ rels) (h : rel.type ∉ relocationKinds) :
    ∃ f, rels.findSome? (Relocation.failure? readsImports place symbols n) = some f := by
  refine Option.ne_none_iff_exists'.mp fun hnone => ?_
  have hfailure := List.findSome?_eq_none_iff.mp hnone rel hrel
  have hrelative : rel.type ≠ rAarch64Relative := fun heq => h (by simp [relocationKinds, heq])
  have hother : rel.type ∉ [rAarch64Abs64, rAarch64GlobDat, rAarch64JumpSlot] := fun hmem =>
    h (List.mem_cons_of_mem _ hmem)
  rw [Relocation.failure?] at hfailure
  cases hplace : place rel.offset with
  | none => simp [hplace] at hfailure
  | some dst =>
    simp only [hplace, if_neg hrelative, if_pos hother] at hfailure
    cases hfailure

lemma Phase2Translator.kinds_of_fixups {T : Phase2Translator} {st : Phase2State}
    (h : T.fixups = .ok st) : ∀ rel ∈ T.elf.relocations, rel.type ∈ relocationKinds := by
  by_contra! ⟨rel, hrel, htype⟩
  obtain ⟨f, hf⟩ := exists_findSome?_failure hrel htype
  have herror : T.fixups = .error f.phase2 := foldlM_eq_error_iff.mpr ⟨f, hf, rfl⟩
  simp [h] at herror

lemma Phase3Translator.kinds_of_fixups {T : Phase3Translator} {args : TranslateArgs}
    {st : RelocState} (h : T.fixups args = .ok st) :
    ∀ rel ∈ T.elf.relocations, rel.type ∈ relocationKinds := by
  by_contra! ⟨rel, hrel, htype⟩
  obtain ⟨f, hf⟩ := exists_findSome?_failure hrel htype
  have herror : T.fixups args = .error f.phase3 := relocateAll_eq_error_iff.mpr ⟨f, hf, rfl⟩
  simp [h] at herror

/-- **The verdict of the report agrees with the translators.**  No phase refuses a candidate for
its machine, its type or a type of its relocations, whatever the parameters, and no phase
translates a library that is not a candidate. -/
theorem report_agrees (elf : Elf64) (source : String) :
    ((elf.report source).phase1Candidate = true →
      (∀ p args, (Phase2Translator.init elf p >>= fun T => T.translate args).Accepts) ∧
      (∀ p args, (Phase3Translator.init elf p >>= fun T => T.translate args).Accepts) ∧
      ∀ p calls args, (Phase4Translator.init elf p calls >>= fun T => T.translate args).Accepts) ∧
    ((elf.report source).phase1Candidate = false →
      (∀ p args out, (Phase2Translator.init elf p >>= fun T => T.translate args) ≠ .ok out) ∧
      (∀ p args out, (Phase3Translator.init elf p >>= fun T => T.translate args) ≠ .ok out) ∧
      ∀ p calls args out,
        (Phase4Translator.init elf p calls >>= fun T => T.translate args) ≠ .ok out) := by
  constructor
  · intro hcandidate
    obtain ⟨hmachine, htype, hkinds⟩ := Elf64.phase1Candidate_iff.mp hcandidate
    obtain ⟨hinit2, hinit3⟩ := accepts_init hmachine htype
    refine ⟨fun p args => ?_, fun p args => ?_, fun p calls args => ?_⟩
    · refine (hinit2 p).bind_of_ok fun T hT => T.accepts_translate args ?_
      rwa [(Phase2Translator.init_eq_ok.mp hT).1]
    · refine (hinit3 p).bind_of_ok fun T hT => T.accepts_translate args ?_
      rwa [(Phase3Translator.init_eq_ok.mp hT).1]
    -- Phase 4 makes the translator of Phase 3 and adds no check of the library
    · have hinit4 : (Phase4Translator.init elf p calls).Accepts :=
        (hinit3 p).bind fun _ => PyM.raises_pure _
      refine hinit4.bind_of_ok fun T hT => T.accepts_translate args ?_
      obtain ⟨base, hbase, hT⟩ := PyM.bind_eq_ok.mp hT
      obtain rfl := PyM.pure_eq_ok.mp hT
      rwa [(Phase3Translator.init_eq_ok.mp hbase).1]
  -- a phase that returns has passed all three checks, so the library is a candidate
  · intro hno
    have hnot : ¬ (elf.eMachine = emAarch64 ∧ elf.eType = etDyn ∧
        ∀ rel ∈ elf.relocations, rel.type ∈ relocationKinds) := fun h => by
      have hyes : (elf.report source).phase1Candidate = true := Elf64.phase1Candidate_iff.mpr h
      simp [hno] at hyes
    have hno3 : ∀ p args out,
        (Phase3Translator.init elf p >>= fun T => T.translate args) ≠ .ok out := by
      intro p args out h
      obtain ⟨T, hT, hout⟩ := PyM.bind_eq_ok.mp h
      obtain ⟨-, -, hout⟩ := PyM.bind_eq_ok.mp hout
      obtain ⟨st, hst, -⟩ := PyM.bind_eq_ok.mp hout
      obtain ⟨rfl, -⟩ := Phase3Translator.init_eq_ok.mp hT
      exact hnot ⟨T.machine, T.type, T.kinds_of_fixups hst⟩
    refine ⟨fun p args out h => ?_, hno3, fun p calls args out h => ?_⟩
    · obtain ⟨T, hT, hout⟩ := PyM.bind_eq_ok.mp h
      obtain ⟨-, -, hout⟩ := PyM.bind_eq_ok.mp hout
      obtain ⟨st, hst, -⟩ := PyM.bind_eq_ok.mp hout
      obtain ⟨rfl, -⟩ := Phase2Translator.init_eq_ok.mp hT
      exact hnot ⟨T.machine, T.type, T.kinds_of_fixups hst⟩
    · obtain ⟨T, hT, hout⟩ := PyM.bind_eq_ok.mp h
      obtain ⟨base, hbase, hT⟩ := PyM.bind_eq_ok.mp hT
      obtain rfl := PyM.pure_eq_ok.mp hT
      obtain ⟨out3, hout3, -⟩ := PyM.bind_eq_ok.mp hout
      exact hno3 p args out3 (PyM.bind_eq_ok.mpr ⟨base, hbase, hout3⟩)

end

end Apk2Ios
