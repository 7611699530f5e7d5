import Apk2Ios.Bionic
import Apk2Ios.Phase3.Layout
import Apk2Ios.Phase3.Streams

/-!
# Phase 3: the relocation loop

One step of the loop either patches the word of a relocation and lists it for rebasing, or
lists it for binding.  The run of the loop is the sequence of word updates that the Android
linker would make, with the bias of the unslid image.
-/

namespace Apk2Ios

open Lib

/-- The variables of the loop. -/
structure RelocState where
  image : Bytes
  rebases : List (ℕ × ℕ) := []
  bindings : List Binding := []
  patched : Patched := {}

/-- The pair of a location that goes into a table. -/
def Location.pair (loc : Location) : ℕ × ℕ := (loc.segmentIndex, loc.segmentOffset)

namespace Phase3Translator

variable (T : Phase3Translator)

/-! ### One relocation -/

def relocateRelative (st : RelocState) (loc : Location) (rel : Relocation) : PyM RelocState := do
  let image ← packInto st.image loc.outputOffset (wrap64 (T.slide + rel.addend))
  return { st with
    image := image
    rebases := st.rebases ++ [loc.pair]
    patched := { st.patched with relative := st.patched.relative + 1 } }

/-- A relocation against an undefined symbol.  The existing word counts for `ABS64`. -/
def relocateExternal (shimPrefix : String) (st : RelocState) (loc : Location) (rel : Relocation)
    (symbol : DynamicSymbol) : PyM RelocState := do
  let existing ← unpackFrom 8 st.image loc.outputOffset
  let addend := if rel.type = rAarch64Abs64 then rel.addend + leNat existing else rel.addend
  return { st with
    bindings := st.bindings ++ [{
      offset := rel.offset
      type := rel.type
      symbol := symbol.name
      shimSymbol := shimPrefix ++ symbol.name
      symbolType := symbol.info &&& 0x0F
      segmentIndex := loc.segmentIndex
      segmentOffset := loc.segmentOffset
      addend := addend }] }

def relocateInternal (st : RelocState) (loc : Location) (rel : Relocation)
    (symbol : DynamicSymbol) : PyM RelocState := do
  let p ← internalValue T.slide st.image st.patched loc.outputOffset rel symbol
  let image ← packInto st.image loc.outputOffset (wrap64 p.1)
  return { st with
    image := image
    rebases := st.rebases ++ [loc.pair]
    patched := p.2 }

/-- The body of the loop over the relocations. -/
def relocate (symbols : List DynamicSymbol) (shimPrefix : String) (st : RelocState)
    (rel : Relocation) : PyM RelocState := do
  let loc ← T.location rel.offset
  if rel.type = rAarch64Relative then T.relocateRelative st loc rel
  else if rel.type ∉ [rAarch64Abs64, rAarch64GlobDat, rAarch64JumpSlot] then
    .error (.phase3 (.unsupported rel.type rel.offset))
  else
    match symbols[rel.symbolIndex]? with
    | none => .error (.phase3 (.symbolIndex rel.symbolIndex))
    | some symbol =>
      if symbol.shndx = shnUndef then relocateExternal shimPrefix st loc rel symbol
      else T.relocateInternal st loc rel symbol

/-- The loop over the relocations. -/
def relocateAll (symbols : List DynamicSymbol) (shimPrefix : String) (st : RelocState)
    (rels : List Relocation) : PyM RelocState :=
  rels.foldlM (T.relocate symbols shimPrefix) st

/-! ### What a step does -/

/-- The state after patching a word with a value relative to the slide. -/
def patch (st : RelocState) (loc : Location) (rel : Relocation) (target : ℤ)
    (additive : Bool) : RelocState :=
  { st with
    image := WordUpdate.apply ⟨loc.outputOffset, bionicWord T.slide target additive⟩ st.image
    rebases := st.rebases ++ [loc.pair]
    patched := st.patched.count rel.type }

/-- The binding of a relocation: where it is and what it is bound to. -/
structure BindsTo (shimPrefix : String) (p : Relocation × DynamicSymbol) (b : Binding) :
    Prop where
  offset : b.offset = p.1.offset
  type : b.type = p.1.type
  symbol : b.symbol = p.2.name
  shimSymbol : b.shimSymbol = shimPrefix ++ p.2.name
  symbolType : b.symbolType = p.2.info &&& 0x0F
  location : ∃ loc, T.location p.1.offset = .ok loc ∧ b.location = loc.pair

variable {T} {symbols : List DynamicSymbol} {shimPrefix : String} {st st' : RelocState}
  {loc : Location} {rel : Relocation} {symbol : DynamicSymbol}

lemma relocateRelative_eq_ok (htype : rel.type = rAarch64Relative) :
    T.relocateRelative st loc rel = .ok st' ↔
      loc.outputOffset + 8 ≤ st.image.length ∧ st' = T.patch st loc rel rel.addend false := by
  simp only [relocateRelative, PyM.bind_eq_ok, packInto_eq_ok, PyM.pure_eq_ok, patch,
    apply_bionicWord, Patched.count, if_pos htype, Bool.false_eq_true, if_false, add_zero]
  constructor
  · rintro ⟨_, ⟨h, rfl⟩, rfl⟩
    exact ⟨h, rfl⟩
  · rintro ⟨h, rfl⟩
    exact ⟨_, ⟨h, rfl⟩, rfl⟩

lemma relocateExternal_eq_ok :
    relocateExternal shimPrefix st loc rel symbol = .ok st' ↔
      loc.outputOffset + 8 ≤ st.image.length ∧ ∃ b : Binding,
        st' = { st with bindings := st.bindings ++ [b] } ∧
        b = ⟨rel.offset, rel.type, symbol.name, shimPrefix ++ symbol.name, symbol.info &&& 0x0F,
          loc.segmentIndex, loc.segmentOffset, rel.addend +
            if rel.type = rAarch64Abs64 then (word st.image loc.outputOffset : ℤ) else 0⟩ := by
  have haddend : ∀ w : ℤ, (if rel.type = rAarch64Abs64 then rel.addend + w else rel.addend) =
      rel.addend + if rel.type = rAarch64Abs64 then w else 0 := by
    intro w
    split <;> omega
  simp only [relocateExternal, PyM.bind_eq_ok, unpackFrom_eq_ok, PyM.pure_eq_ok, haddend]
  constructor
  · rintro ⟨_, ⟨h, rfl⟩, rfl⟩
    exact ⟨h, _, rfl, rfl⟩
  · rintro ⟨h, _, rfl, rfl⟩
    exact ⟨_, ⟨h, rfl⟩, rfl⟩

lemma relocateInternal_eq_ok (htype : rel.type ≠ rAarch64Relative) :
    T.relocateInternal st loc rel symbol = .ok st' ↔
      loc.outputOffset + 8 ≤ st.image.length ∧
        st' = T.patch st loc rel (symbol.value + rel.addend) (rel.type = rAarch64Abs64) := by
  simp only [relocateInternal, PyM.bind_eq_ok, internalValue_eq_ok htype, packInto_eq_ok,
    PyM.pure_eq_ok, patch, apply_bionicWord, decide_eq_true_eq]
  constructor
  · rintro ⟨_, ⟨-, rfl⟩, _, ⟨h, rfl⟩, rfl⟩
    exact ⟨h, rfl⟩
  · rintro ⟨h, rfl⟩
    exact ⟨_, ⟨fun _ => h, rfl⟩, _, ⟨h, rfl⟩, rfl⟩

/-- **What one step does**: it finds the word inside the image, and patches it or lists a
binding, as the meaning of the relocation says. -/
theorem relocate_eq_ok :
    T.relocate symbols shimPrefix st rel = .ok st' ↔
      ∃ loc, T.location rel.offset = .ok loc ∧ loc.outputOffset + 8 ≤ st.image.length ∧
        ((∃ target additive, rel.fixup? symbols = some (.internal target additive) ∧
            st' = T.patch st loc rel target additive) ∨
          ∃ symbol, rel.fixup? symbols = some (.external symbol) ∧
            relocateExternal shimPrefix st loc rel symbol = .ok st') := by
  rw [relocate, PyM.bind_eq_ok]
  refine exists_congr fun loc => and_congr_right fun hloc => ?_
  -- the branches of the loop body are those of `fixup?`: relative, by symbol, unsupported
  by_cases hrel : rel.type = rAarch64Relative
  · rw [if_pos hrel, relocateRelative_eq_ok hrel, Relocation.fixup?_relative hrel]
    simp
  · rw [if_neg hrel, Relocation.fixup?, if_neg hrel]
    by_cases htype : rel.type ∉ [rAarch64Abs64, rAarch64GlobDat, rAarch64JumpSlot]
    · rw [if_pos htype, if_pos htype]
      simp only [reduceCtorEq, false_and, and_false, exists_false, or_self]
    · rw [if_neg htype, if_neg htype]
      cases hsym : symbols[rel.symbolIndex]? with
      | none => simp
      | some symbol =>
        by_cases hundef : symbol.shndx = shnUndef
        · simp only [hundef, if_true, Option.map_some, Option.some.injEq, Fixup.external.injEq,
            reduceCtorEq, false_and, exists_false, false_or, exists_eq_left']
          exact (and_iff_right_of_imp fun h => (relocateExternal_eq_ok.mp h).1).symm
        · simp only [if_neg hundef, Option.map_some, Option.some.injEq, Fixup.internal.injEq,
            relocateInternal_eq_ok hrel, reduceCtorEq, false_and, exists_false, or_false]
          refine and_congr_right fun _ => ⟨fun h => ⟨_, _, ⟨rfl, rfl⟩, h⟩, ?_⟩
          rintro ⟨_, _, ⟨rfl, rfl⟩, h⟩
          exact h

/-! ### What a run does -/

/-- The relocation has a meaning and its word is found inside an image of `n` bytes. -/
def Located (T : Phase3Translator) (symbols : List DynamicSymbol) (n : ℕ) (rel : Relocation) :
    Prop :=
  (∃ fixup, rel.fixup? symbols = some fixup) ∧
    ∃ loc, T.location rel.offset = .ok loc ∧ loc.outputOffset + 8 ≤ n

/-- The location that an internal relocation adds to the rebases. -/
def rebase? (T : Phase3Translator) (symbols : List DynamicSymbol) (rel : Relocation) :
    Option (ℕ × ℕ) :=
  match rel.internal? symbols, T.location rel.offset with
  | some _, .ok loc => some loc.pair
  | _, _ => none

/-- The state after a run, in terms of the relocations. -/
structure Relocated (T : Phase3Translator) (symbols : List DynamicSymbol) (shimPrefix : String)
    (rels : List Relocation) (st st' : RelocState) : Prop where
  located : ∀ rel ∈ rels, Located T symbols st.image.length rel
  image : st'.image = applyUpdates (wordUpdates T.slide symbols T.pieces rels) st.image
  length_image : st'.image.length = st.image.length
  rebases : st'.rebases = st.rebases ++ rels.filterMap (T.rebase? symbols)
  bindings : ∃ new, st'.bindings = st.bindings ++ new ∧
    List.Forall₂ (T.BindsTo shimPrefix) (rels.filterMap (Relocation.external? symbols)) new
  patched : st'.patched =
    (rels.filterMap (Relocation.internal? symbols)).foldl Patched.count st.patched

/-- A step is a run of one relocation. -/
lemma relocated_single (h : T.relocate symbols shimPrefix st rel = .ok st') :
    Relocated T symbols shimPrefix [rel] st st' := by
  obtain ⟨loc, hloc, hle, hcase⟩ := relocate_eq_ok.mp h
  have hpos := locate_of_location hloc
  rcases hcase with ⟨target, additive, hfix, rfl⟩ | ⟨symbol, hfix, hext⟩
  · have hupdate : rel.update? T.slide symbols T.pieces =
        some ⟨loc.outputOffset, bionicWord T.slide target additive⟩ :=
      Relocation.update?_eq_some.mpr ⟨target, additive, hfix, hpos, rfl⟩
    refine ⟨?_, ?_, WordUpdate.length_apply hle, ?_, ⟨[], ?_, ?_⟩, ?_⟩
    · simpa using ⟨⟨_, hfix⟩, loc, hloc, hle⟩
    · simp [wordUpdates, hupdate, patch]
    · simp [rebase?, Relocation.internal?, hfix, hloc, patch]
    · simp [patch]
    · simp [Relocation.external?, hfix]
    · simp [Relocation.internal?, hfix, patch]
  · have hupdate : rel.update? T.slide symbols T.pieces = none := by
      simp [Relocation.update?, hfix]
    obtain ⟨-, b, rfl, hb⟩ := relocateExternal_eq_ok.mp hext
    refine ⟨?_, ?_, rfl, ?_, ⟨[b], rfl, ?_⟩, ?_⟩
    · simpa using ⟨⟨_, hfix⟩, loc, hloc, hle⟩
    · simp [wordUpdates, hupdate]
    · simp [rebase?, Relocation.internal?, hfix]
    · have hbinds : T.BindsTo shimPrefix (rel, symbol) b := by
        subst hb
        exact ⟨rfl, rfl, rfl, rfl, rfl, loc, hloc, rfl⟩
      simpa [Relocation.external?, hfix] using hbinds
    · simp [Relocation.internal?, hfix]

/-- Runs follow one another. -/
lemma Relocated.append {rels rels' : List Relocation} {st₁ : RelocState}
    (h : Relocated T symbols shimPrefix rels st st₁)
    (h' : Relocated T symbols shimPrefix rels' st₁ st') :
    Relocated T symbols shimPrefix (rels ++ rels') st st' := by
  obtain ⟨new, hnew, hforall⟩ := h.bindings
  obtain ⟨new', hnew', hforall'⟩ := h'.bindings
  refine ⟨?_, ?_, h'.length_image.trans h.length_image, ?_, ⟨new ++ new', ?_, ?_⟩, ?_⟩
  · intro rel hrel
    rcases List.mem_append.mp hrel with hrel | hrel
    · exact h.located rel hrel
    · rw [← h.length_image]
      exact h'.located rel hrel
  · rw [wordUpdates, List.filterMap_append, applyUpdates_append, h'.image, h.image]
    rfl
  · rw [h'.rebases, h.rebases, List.filterMap_append, List.append_assoc]
  · rw [hnew', hnew, List.append_assoc]
  · rw [List.filterMap_append]
    exact List.rel_append hforall hforall'
  · rw [h'.patched, h.patched, List.filterMap_append, List.foldl_append]

/-- **What the relocation loop does.** -/
theorem relocated_of_relocateAll {rels : List Relocation}
    (h : T.relocateAll symbols shimPrefix st rels = .ok st') :
    Relocated T symbols shimPrefix rels st st' := by
  induction rels generalizing st with
  | nil =>
    obtain rfl := PyM.pure_eq_ok.mp h
    exact ⟨by simp, rfl, rfl, by simp, ⟨[], by simp⟩, rfl⟩
  | cons rel rels ih =>
    rw [relocateAll, List.foldlM_cons, PyM.bind_eq_ok] at h
    obtain ⟨st₁, hstep, hrest⟩ := h
    exact (relocated_single hstep).append (ih hrest)

/-- Every word of a run lies inside the image: the loop has found it there. -/
lemma Relocated.inside {rels : List Relocation} (h : Relocated T symbols shimPrefix rels st st') :
    Inside (wordUpdates T.slide symbols T.pieces rels) st.image := by
  intro u hu
  obtain ⟨rel, hrel, hupdate⟩ := mem_wordUpdates.mp hu
  obtain ⟨-, -, -, hpos, -⟩ := Relocation.update?_eq_some.mp hupdate
  obtain ⟨-, loc, hloc, hle⟩ := h.located rel hrel
  rwa [Option.some.inj (hpos.symm.trans (locate_of_location hloc))]

/-- A step returns when its word is located. -/
lemma exists_relocate (shimPrefix : String) (h : Located T symbols st.image.length rel) :
    ∃ st', T.relocate symbols shimPrefix st rel = .ok st' := by
  obtain ⟨⟨fixup, hfix⟩, loc, hloc, hle⟩ := h
  cases fixup with
  | internal target additive =>
    exact ⟨_, relocate_eq_ok.mpr ⟨loc, hloc, hle, .inl ⟨target, additive, hfix, rfl⟩⟩⟩
  | external symbol =>
    exact ⟨_, relocate_eq_ok.mpr ⟨loc, hloc, hle, .inr ⟨symbol, hfix,
      relocateExternal_eq_ok.mpr ⟨hle, _, rfl, rfl⟩⟩⟩⟩

/-- **The loop returns exactly when every relocation has a meaning and a word inside the
image.** -/
theorem relocateAll_isOk_iff (shimPrefix : String) (st : RelocState) {rels : List Relocation} :
    (∃ st', T.relocateAll symbols shimPrefix st rels = .ok st') ↔
      ∀ rel ∈ rels, Located T symbols st.image.length rel := by
  constructor
  · rintro ⟨st', h⟩
    exact (relocated_of_relocateAll h).located
  · intro h
    induction rels generalizing st with
    | nil => exact ⟨st, rfl⟩
    | cons rel rels ih =>
      obtain ⟨st₁, hstep⟩ := exists_relocate shimPrefix (h rel List.mem_cons_self)
      have hlen := (relocated_single hstep).length_image
      obtain ⟨st', hrest⟩ := ih st₁ fun r hr => by
        rw [hlen]
        exact h r (List.mem_cons_of_mem rel hr)
      refine ⟨st', ?_⟩
      rw [relocateAll, List.foldlM_cons, PyM.bind_eq_ok]
      exact ⟨st₁, hstep, hrest⟩

end Phase3Translator

end Apk2Ios
