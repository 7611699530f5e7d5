import Apk2Ios.Phase3.Fixups

/-!
# Phase 3: the numbers of the report

`relocation_counts` of `elf.py` counts the relocations of a file by kind, in a loop of its own.
The counters of a translation, the lengths of its two tables and the rows of its report all
count the same relocations.
-/

namespace Apk2Ios

open Lib MachO

/-! ### `relocation_counts` -/

/-- `AARCH64_RELOCS.get(r_type, f"AARCH64_RELOC_{r_type}")`. -/
def relocationName (rType : ℕ) : String :=
  match rType with
  | 257 => "R_AARCH64_ABS64"
  | 1025 => "R_AARCH64_GLOB_DAT"
  | 1026 => "R_AARCH64_JUMP_SLOT"
  | 1027 => "R_AARCH64_RELATIVE"
  | n => "AARCH64_RELOC_" ++ toString n

namespace Elf64

variable (elf : Elf64)

/-- `counts[name] += 1` of a `Counter`, for the relocation at `off`. -/
def countRelocation (counts : Dict String ℕ) (off : ℕ) : Dict String ℕ :=
  let rInfo := field (slice elf.data off 24) 8 8
  let name := relocationName (rInfo &&& 0xFFFFFFFF)
  counts.set name ((counts.get? name).getD 0 + 1)

/-- `relocation_counts()`. -/
def relocationCounts : Dict String ℕ :=
  let counts : Dict String ℕ := elf.sections.foldl (fun counts sec =>
    if sec.shType ≠ shtRela then counts
    else (elf.entryOffsets sec 24).foldl elf.countRelocation counts) .empty
  counts.sorted

/-- The count of a kind; a kind that does not occur has no entry. -/
def relocationCount (name : String) : ℕ := (elf.relocationCounts.get? name).getD 0

lemma countRelocation_eq :
    elf.countRelocation = fun counts off =>
      counts.set (relocationName (elf.relocationAt off).type)
        ((counts.get? (relocationName (elf.relocationAt off).type)).getD 0 + 1) := by
  funext counts off
  have hmask : field (slice elf.data off 24) 8 8 &&& 0xFFFFFFFF = (elf.relocationAt off).type :=
    Nat.and_two_pow_sub_one_eq_mod _ 32
  rw [countRelocation, hmask]

/-- The loop counts the relocations that the translators iterate over. -/
lemma relocationCounts_eq :
    elf.relocationCounts =
      (Dict.fill (fun rel => relocationName rel.type) (fun _ o => o.getD 0 + 1)
        elf.relocations).sorted := by
  have hsections : ∀ (secs : List SectionHeader) (counts : Dict String ℕ),
      secs.foldl (fun counts sec =>
          if sec.shType ≠ shtRela then counts
          else (elf.entryOffsets sec 24).foldl elf.countRelocation counts) counts =
        (secs.flatMap fun sec => if sec.shType = shtRela then
          (elf.entryOffsets sec 24).map elf.relocationAt else []).foldl
          (fun d rel => d.set (relocationName rel.type)
            ((d.get? (relocationName rel.type)).getD 0 + 1)) counts := by
    intro secs
    induction secs with
    | nil => exact fun _ => rfl
    | cons sec secs ih =>
      intro counts
      rw [List.foldl_cons, ih, List.flatMap_cons, List.foldl_append]
      by_cases hsec : sec.shType = shtRela
      · simp only [hsec, ne_eq, not_true_eq_false, if_false, if_true, List.foldl_map,
          countRelocation_eq]
      · simp only [hsec, ne_eq, not_false_eq_true, if_true, if_false, List.foldl_nil]
  rw [relocationCounts, hsections]
  rfl

/-- The count of a kind is the number of its relocations. -/
lemma relocationCount_eq (name : String) :
    elf.relocationCount name =
      (elf.relocations.map fun rel => relocationName rel.type).count name := by
  have hstep : ∀ (_ : Relocation) (o : Option ℕ), id (o.getD 0 + 1) = o.elim 0 id + 1 := by
    rintro - (_ | n) <;> rfl
  have hget : ∀ o : Option ℕ, o.getD 0 = o.elim 0 id := by
    rintro (_ | n) <;> rfl
  rw [relocationCount, relocationCounts_eq, Dict.get?_sorted, hget]
  exact Dict.measure_get?_fill hstep elf.relocations name

/-- Every counted kind is the kind of a relocation. -/
lemma exists_of_mem_relocationCounts {name : String}
    (h : name ∈ elf.relocationCounts.items.map Prod.fst) :
    ∃ rel ∈ elf.relocations, relocationName rel.type = name := by
  rw [relocationCounts_eq, Dict.sorted, ((sortedItems_perm _).map Prod.fst).mem_iff,
    (Dict.fst_items_fill_perm _ _ _).mem_iff, List.mem_dedup] at h
  exact List.mem_map.mp h

end Elf64

/-! ### The counters -/

/-- The types the translators support. -/
def relocationKinds : List ℕ :=
  [rAarch64Relative, rAarch64Abs64, rAarch64GlobDat, rAarch64JumpSlot]

lemma relocationName_eq_iff {rType k : ℕ} (h : rType ∈ relocationKinds)
    (hk : k ∈ relocationKinds) : relocationName rType = relocationName k ↔ rType = k := by
  have hall : ∀ rType ∈ relocationKinds, ∀ k ∈ relocationKinds,
      (relocationName rType = relocationName k ↔ rType = k) := by decide
  exact hall rType h k hk

/-- All patched words. -/
def Patched.total (p : Patched) : ℕ :=
  p.relative + p.internalAbs64 + p.internalGlobDat + p.internalJumpSlot

lemma Patched.total_count (p : Patched) (type : ℕ) : (p.count type).total = p.total + 1 := by
  rw [Patched.count]
  split
  · simp only [Patched.total]
    omega
  split
  · simp only [Patched.total]
    omega
  split <;> simp only [Patched.total] <;> omega

lemma Patched.total_foldl_count (types : List ℕ) (p : Patched) :
    (types.foldl Patched.count p).total = p.total + types.length := by
  induction types generalizing p with
  | nil => rfl
  | cons type types ih =>
    rw [List.foldl_cons, ih, Patched.total_count, List.length_cons]
    omega

/-- Each counter counts its own type. -/
lemma Patched.foldl_count (types : List ℕ) (p : Patched) (h : ∀ t ∈ types, t ∈ relocationKinds) :
    types.foldl Patched.count p =
      ⟨p.relative + types.count rAarch64Relative, p.internalAbs64 + types.count rAarch64Abs64,
        p.internalGlobDat + types.count rAarch64GlobDat,
        p.internalJumpSlot + types.count rAarch64JumpSlot⟩ := by
  induction types generalizing p with
  | nil => rfl
  | cons type types ih =>
    rw [List.foldl_cons, ih _ fun t ht => h t (List.mem_cons_of_mem type ht)]
    have hkind := h type List.mem_cons_self
    simp only [relocationKinds, List.mem_cons, List.not_mem_nil, or_false] at hkind
    rcases hkind with rfl | rfl | rfl | rfl <;>
      simp [Patched.count, rAarch64Relative, rAarch64Abs64, rAarch64GlobDat,
        rAarch64JumpSlot] <;> omega

/-! ### The relocations of a translation -/

section

variable {symbols : List DynamicSymbol} {rels : List Relocation} {rel : Relocation}

lemma Relocation.type_mem_relocationKinds {fixup : Fixup} (h : rel.fixup? symbols = some fixup) :
    rel.type ∈ relocationKinds := by
  rw [Relocation.fixup?] at h
  split at h
  · rename_i hrel
    rw [hrel]
    exact List.mem_cons_self
  split at h
  · cases h
  · rename_i htype
    exact List.mem_cons_of_mem _ (not_not.mp htype)

/-- A relocation is resolved inside the file or bound. -/
lemma count_type_eq (h : ∀ rel ∈ rels, ∃ fixup, rel.fixup? symbols = some fixup) (k : ℕ) :
    (rels.map Relocation.type).count k =
      (rels.filterMap (Relocation.internal? symbols)).count k +
        ((rels.filterMap (Relocation.external? symbols)).map fun p => p.1.type).count k := by
  induction rels with
  | nil => rfl
  | cons rel rels ih =>
    obtain ⟨fixup, hfix⟩ := h rel List.mem_cons_self
    rw [List.map_cons, List.count_cons, ih fun r hr => h r (List.mem_cons_of_mem rel hr)]
    cases fixup with
    | internal target additive =>
      have hint : rel.internal? symbols = some rel.type := by rw [Relocation.internal?, hfix]
      have hext : rel.external? symbols = none := by rw [Relocation.external?, hfix]
      rw [List.filterMap_cons_some hint, List.filterMap_cons_none hext, List.count_cons]
      omega
    | external symbol =>
      have hint : rel.internal? symbols = none := by rw [Relocation.internal?, hfix]
      have hext : rel.external? symbols = some (rel, symbol) := by
        rw [Relocation.external?, hfix]
      rw [List.filterMap_cons_none hint, List.filterMap_cons_some hext, List.map_cons,
        List.count_cons, Nat.add_assoc]

/-- Only internal relocations are relative. -/
lemma count_relative_external :
    ((rels.filterMap (Relocation.external? symbols)).map fun p => p.1.type).count
      rAarch64Relative = 0 := by
  refine List.count_eq_zero.mpr fun hmem => ?_
  obtain ⟨p, hp, htype⟩ := List.mem_map.mp hmem
  obtain ⟨rel, -, hext⟩ := List.mem_filterMap.mp hp
  obtain ⟨hfix, rfl⟩ := Relocation.external?_eq_some.mp hext
  rw [Relocation.fixup?_relative htype] at hfix
  exact nomatch hfix

end

/-! ### The rows of the report -/

/-- The row of a symbol after one more binding. -/
def countBinding (item : Binding) (row : Option ShimImport) : ShimImport :=
  let entry := row.getD ⟨item.symbol, item.shimSymbol, typeName item.symbolType, 0⟩
  { entry with relocationCount := entry.relocationCount + 1 }

section

variable (bindings : List Binding)

lemma bySymbol_eq : bySymbol bindings = Dict.fill Binding.symbol countBinding bindings := rfl

/-- The rows, in another order, are the values of the dictionary. -/
lemma shimImports_perm :
    (shimImports bindings).Perm ((bySymbol bindings).items.map Prod.snd) := by
  have hvalues : ((bySymbol bindings).items.map Prod.fst).filterMap (bySymbol bindings).get? =
      (bySymbol bindings).items.map Prod.snd := by
    rw [List.filterMap_map, ← List.filterMap_eq_map]
    exact List.filterMap_congr fun p hp => (Dict.mem_items_iff _).mp hp
  have hkeys : (sortedSet ((bySymbol bindings).items.map Prod.fst)).Perm
      ((bySymbol bindings).items.map Prod.fst) := by
    rw [sortedSet, (bySymbol bindings).nodup.dedup]
    exact List.perm_insertionSort _ _
  rw [shimImports, ← hvalues]
  exact hkeys.filterMap _

/-- Every binding is counted in one row. -/
lemma sum_relocationCount_shimImports :
    ((shimImports bindings).map ShimImport.relocationCount).sum = bindings.length := by
  have hstep : ∀ item row, (countBinding item row).relocationCount =
      row.elim 0 ShimImport.relocationCount + 1 := by
    rintro item (_ | row) <;> rfl
  rw [((shimImports_perm bindings).map _).sum_eq, List.map_map, bySymbol_eq]
  exact Dict.sum_measure_fill hstep bindings

/-- There is one row for each symbol. -/
lemma length_shimImports :
    (shimImports bindings).length = (bindings.map Binding.symbol).dedup.length := by
  rw [(shimImports_perm bindings).length_eq, List.length_map, bySymbol_eq,
    ← (Dict.fst_items_fill_perm Binding.symbol countBinding bindings).length_eq, List.length_map]

/-- Different symbols have different names in the shim. -/
lemma length_shimSymbols (shimPrefix : String)
    (h : ∀ b ∈ bindings, b.shimSymbol = shimPrefix ++ b.symbol) :
    (shimSymbols bindings).length = (shimImports bindings).length := by
  have hinj : Function.Injective (shimPrefix ++ ·) := fun a b hab =>
    (String.append_right_inj shimPrefix).mp hab
  have hmap : bindings.map Binding.shimSymbol =
      (bindings.map Binding.symbol).map (shimPrefix ++ ·) := by
    rw [List.map_map]
    exact List.map_congr_left h
  rw [shimSymbols, sortedSet, List.length_insertionSort, hmap, List.dedup_map_of_injective hinj,
    List.length_map, length_shimImports]

end

/-! ### The accounts of a translation -/

/-- The counts of the file, the counters, the decoded rebases and the rows agree. -/
structure Accounts (elf : Elf64) (bindings : List Binding) (report : Phase3Report)
    (file : Bytes) : Prop where
  kinds : ∀ name ∈ elf.relocationCounts.items.map Prod.fst,
    name ∈ relocationKinds.map relocationName
  relative : elf.relocationCount "R_AARCH64_RELATIVE" = report.patched.relative
  abs64 : elf.relocationCount "R_AARCH64_ABS64" =
    report.patched.internalAbs64 + (bindings.map Binding.type).count rAarch64Abs64
  globDat : elf.relocationCount "R_AARCH64_GLOB_DAT" =
    report.patched.internalGlobDat + (bindings.map Binding.type).count rAarch64GlobDat
  jumpSlot : elf.relocationCount "R_AARCH64_JUMP_SLOT" =
    report.patched.internalJumpSlot + (bindings.map Binding.type).count rAarch64JumpSlot
  rebaseCount : report.rebaseCount = report.patched.total
  rebases : ∃ rebases, rebasesOf file = some rebases ∧ rebases.length = report.rebaseCount
  bindCount : report.bindCount = (report.shimImports.map ShimImport.relocationCount).sum
  shimSymbolCount : report.shimSymbolCount = report.shimImports.length

lemma length_carriedBinds (ordinal addend : ℕ) (items : List Binding) :
    (carriedBinds ordinal addend items).length = items.length := by
  induction items generalizing addend with
  | nil => rfl
  | cons b items ih => rw [carriedBinds, List.length_cons, ih, List.length_cons]

namespace Phase3Translator

variable {T : Phase3Translator} {args : TranslateArgs}

namespace Translation

variable (t : T.Translation args)

lemma type_bindings : t.st.bindings.map Binding.type =
    (T.elf.relocations.filterMap (Relocation.external? T.elf.dynamicSymbols)).map
      fun p => p.1.type := by
  obtain ⟨new, hnew, hforall⟩ := t.relocated.bindings
  simp only [List.nil_append] at hnew
  rw [hnew]
  exact (map_eq_map_of_forall₂ hforall fun p b h => h.type.symm).symm

lemma patched_eq : t.st.patched =
    ⟨(T.elf.relocations.filterMap (Relocation.internal? T.elf.dynamicSymbols)).count
        rAarch64Relative,
      (T.elf.relocations.filterMap (Relocation.internal? T.elf.dynamicSymbols)).count
        rAarch64Abs64,
      (T.elf.relocations.filterMap (Relocation.internal? T.elf.dynamicSymbols)).count
        rAarch64GlobDat,
      (T.elf.relocations.filterMap (Relocation.internal? T.elf.dynamicSymbols)).count
        rAarch64JumpSlot⟩ := by
  rw [t.relocated.patched, Patched.foldl_count]
  · simp
  · intro type htype
    obtain ⟨rel, -, hint⟩ := List.mem_filterMap.mp htype
    obtain ⟨⟨target, additive, hfix⟩, rfl⟩ := Relocation.internal?_eq_some.mp hint
    exact Relocation.type_mem_relocationKinds hfix

/-- The count of a supported kind. -/
lemma relocationCount_eq {k : ℕ} (hk : k ∈ relocationKinds) :
    T.elf.relocationCount (relocationName k) =
      (T.elf.relocations.filterMap (Relocation.internal? T.elf.dynamicSymbols)).count k +
        (t.st.bindings.map Binding.type).count k := by
  have hfixup : ∀ rel ∈ T.elf.relocations,
      ∃ fixup, rel.fixup? T.elf.dynamicSymbols = some fixup :=
    fun rel hrel => (t.relocated.located rel hrel).1
  rw [Elf64.relocationCount_eq, t.type_bindings, ← count_type_eq hfixup, List.count,
    List.count, List.countP_map, List.countP_map]
  refine List.countP_congr fun rel hrel => ?_
  obtain ⟨fixup, hfix⟩ := hfixup rel hrel
  simpa using relocationName_eq_iff (Relocation.type_mem_relocationKinds hfix) hk

/-- Every internal relocation is listed for rebasing. -/
lemma length_rebases : t.st.rebases.length =
    (T.elf.relocations.filterMap (Relocation.internal? T.elf.dynamicSymbols)).length := by
  rw [t.relocated.rebases, List.nil_append, List.length_filterMap_eq_countP,
    List.length_filterMap_eq_countP]
  refine List.countP_congr fun rel hrel => ?_
  obtain ⟨-, loc, hloc, -⟩ := t.relocated.located rel hrel
  rw [rebase?, hloc]
  cases rel.internal? T.elf.dynamicSymbols <;> rfl

end Translation

/-- **Accounting.**  The counts of the file are, kind by kind, the patched words and the
bindings of a translation that returns.  The rebases that a loader decodes from the file and
the rows of the report are as many, and so are the binds when the prefix of the shim is a
C string. -/
theorem accounts_translate {out : Phase3Output} (h : T.translate args = .ok out) :
    ∃ st, T.fixups args = .ok st ∧ Accounts T.elf st.bindings out.report out.file ∧
      (NulFree args.shimPrefix →
        ∃ binds, bindsOf out.file = some binds ∧ binds.length = out.report.bindCount) := by
  obtain ⟨t, hfits, rfl⟩ := translate_eq_ok.mp h
  have hpatched := t.patched_eq
  -- a relative relocation has no symbol, so none of them is a binding
  have hrelative : (t.st.bindings.map Binding.type).count rAarch64Relative = 0 := by
    rw [t.type_bindings]
    exact count_relative_external
  refine ⟨t.st, t.fixups, ⟨?_, ?_, ?_, ?_, ?_, ?_, ?_, ?_, ?_⟩, fun hshim => ?_⟩
  · intro name hname
    obtain ⟨rel, hrel, rfl⟩ := T.elf.exists_of_mem_relocationCounts hname
    obtain ⟨fixup, hfix⟩ := (t.relocated.located rel hrel).1
    exact List.mem_map_of_mem (Relocation.type_mem_relocationKinds hfix)
  · show T.elf.relocationCount (relocationName rAarch64Relative) = t.st.patched.relative
    rw [t.relocationCount_eq (by decide), hrelative, hpatched, Nat.add_zero]
  · show T.elf.relocationCount (relocationName rAarch64Abs64) = t.st.patched.internalAbs64 + _
    rw [t.relocationCount_eq (by decide), hpatched]
  · show T.elf.relocationCount (relocationName rAarch64GlobDat) =
      t.st.patched.internalGlobDat + _
    rw [t.relocationCount_eq (by decide), hpatched]
  · show T.elf.relocationCount (relocationName rAarch64JumpSlot) =
      t.st.patched.internalJumpSlot + _
    rw [t.relocationCount_eq (by decide), hpatched]
  · show t.st.rebases.length = t.st.patched.total
    rw [t.length_rebases, t.relocated.patched, Patched.total_foldl_count]
    exact (Nat.zero_add _).symm
  · refine ⟨_, hfits.carries.rebases, ?_⟩
    rw [List.length_map, (sortedBy_perm id t.st.rebases).length_eq]
    rfl
  · exact (sum_relocationCount_shimImports t.st.bindings).symm
  · refine length_shimSymbols t.st.bindings args.shimPrefix fun b hb => ?_
    obtain ⟨new, hnew, hforall⟩ := t.relocated.bindings
    rw [hnew, List.nil_append] at hb
    obtain ⟨p, -, hbinds⟩ := exists_of_mem_forall₂ hforall hb
    rw [hbinds.shimSymbol, hbinds.symbol]
  · refine ⟨_, hfits.bindsOf hshim, ?_⟩
    rw [length_carriedBinds, (sortedBy_perm _ _).length_eq]
    rfl

theorem accounts_translate_small : ∃ out st, small.translate {} = .ok out ∧
    small.fixups {} = .ok st ∧ Accounts Elf64.smallElf st.bindings out.report out.file := by
  obtain ⟨out, hout⟩ := exists_output_small
  obtain ⟨st, hst, haccounts, -⟩ := accounts_translate hout
  exact ⟨out, st, hout, hst, haccounts⟩

end Phase3Translator

end Apk2Ios
