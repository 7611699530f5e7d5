import Apk2Ios.Phase3.Translate
import Apk2Ios.Phase2.Translate

/-!
# What stops the relocation loops

The loops of Phase 2 and Phase 3 look at the relocations in the order of the file and stop at
the first one that they can not place or do not know.  Which one that is does not depend on what
the loop has written so far.
-/

namespace Apk2Ios

open Lib

/-- Why a relocation stops a loop. -/
inductive Failure where
  | target (vaddr : ℕ)
  | unsupported (rType offset : ℕ)
  | symbolIndex (index : ℕ)
  /-- The word at `dst` runs past the end of the image; the loop reads it first or writes it. -/
  | short (reads : Bool) (dst : ℕ)
deriving DecidableEq, Repr

namespace Failure

/-- The exception of Phase 2. -/
def phase2 : Failure → PyError
  | target vaddr => .translate (.target vaddr)
  | unsupported rType offset => .translate (.unsupported rType offset)
  | symbolIndex index => .translate (.symbolIndex index)
  | short reads dst => outside reads dst

/-- The exception of Phase 3. -/
def phase3 : Failure → PyError
  | target vaddr => .phase3 (.target vaddr)
  | unsupported rType offset => .phase3 (.unsupported rType offset)
  | symbolIndex index => .phase3 (.symbolIndex index)
  | short reads dst => outside reads dst

end Failure

/-- What is wrong with a relocation whose words are found by `place` in an image of `n` bytes.
Phase 3 reads the words of the imports, Phase 2 does not. -/
def Relocation.failure? (readsImports : Bool) (place : ℕ → Option ℕ) (symbols : List DynamicSymbol)
    (n : ℕ) (rel : Relocation) : Option Failure :=
  match place rel.offset with
  | none => some (.target rel.offset)
  | some dst =>
    let short (reads : Bool) := if n < dst + 8 then some (.short reads dst) else none
    if rel.type = rAarch64Relative then short false
    else if rel.type ∉ [rAarch64Abs64, rAarch64GlobDat, rAarch64JumpSlot] then
      some (.unsupported rel.type rel.offset)
    else
      match symbols[rel.symbolIndex]? with
      | none => some (.symbolIndex rel.symbolIndex)
      | some symbol =>
        if symbol.shndx = shnUndef then if readsImports then short true else none
        -- `ABS64` adds the existing word
        else short (rel.type = rAarch64Abs64)

lemma packInto_error {buf : Bytes} {off value : ℕ} (h : buf.length < off + 8) :
    packInto buf off value = .error (outside false off) := by
  rw [packInto, if_neg (by omega)]

lemma unpackFrom_error {size off : ℕ} {buf : Bytes} (h : buf.length < off + size) :
    unpackFrom size buf off = .error (outside true off) := by
  rw [unpackFrom, if_neg (by omega)]

/-- A value that can not be written: either it can not be computed, or the write fails. -/
lemma internalValue_error {β : Type} {slide dst : ℕ} {image : Bytes} {patched : Patched}
    {rel : Relocation} {symbol : DynamicSymbol} {f : ℤ × Patched → PyM β}
    (h : image.length < dst + 8) (hf : ∀ p, f p = .error (outside false dst)) :
    (internalValue slide image patched dst rel symbol >>= f) =
      .error (outside (rel.type = rAarch64Abs64) dst) := by
  rw [internalValue]
  by_cases habs : rel.type = rAarch64Abs64
  · rw [if_pos habs, unpackFrom_error h, decide_eq_true habs]
    rfl
  · rw [if_neg habs, decide_eq_false habs]
    split
    · exact hf _
    · exact hf _

/-! ### Phase 3 -/

namespace Phase3Translator

variable {T : Phase3Translator} {symbols : List DynamicSymbol} {shimPrefix : String}
  {st : RelocState} {rel : Relocation} {n : ℕ}

lemma locationFrom_error {vaddr index : ℕ} {segs : List ImageSegment} {e : PyError}
    (h : T.locationFrom vaddr index segs = .error e) : e = .phase3 (.target vaddr) := by
  induction segs generalizing index with
  | nil =>
    rw [locationFrom, Except.error.injEq] at h
    exact h.symm
  | cons seg segs ih =>
    rw [locationFrom] at h
    split at h
    · simp at h
    · exact ih h

/-- An address without a location is in no piece. -/
lemma locate_of_error {vaddr : ℕ} {e : PyError} (h : T.location vaddr = .error e) :
    locate T.pieces vaddr = none ∧ e = .phase3 (.target vaddr) := by
  refine ⟨?_, locationFrom_error h⟩
  cases hfind : findPiece T.pieces vaddr with
  | none => rw [locate, hfind, Option.map_none]
  | some p =>
    obtain ⟨loc, hloc⟩ := exists_location hfind
    rw [h] at hloc
    simp at hloc

lemma relocate_of_failure {f : Failure}
    (h : rel.failure? true (locate T.pieces) symbols st.image.length = some f) :
    T.relocate symbols shimPrefix st rel = .error f.phase3 := by
  rw [Relocation.failure?] at h
  rw [relocate]
  cases hloc : T.location rel.offset with
  | error e =>
    obtain ⟨hnone, rfl⟩ := locate_of_error hloc
    rw [hnone] at h
    obtain rfl := Option.some.inj h
    rfl
  | ok loc =>
    rw [locate_of_location hloc] at h
    dsimp only at h ⊢
    rw [PyM.ok_bind]
    by_cases hrel : rel.type = rAarch64Relative
    · rw [if_pos hrel] at h ⊢
      obtain ⟨hshort, rfl⟩ : st.image.length < loc.outputOffset + 8 ∧
          .short false loc.outputOffset = f := by simpa using h
      rw [relocateRelative, packInto_error hshort]
      rfl
    · rw [if_neg hrel] at h ⊢
      by_cases htype : rel.type ∉ [rAarch64Abs64, rAarch64GlobDat, rAarch64JumpSlot]
      · rw [if_pos htype] at h ⊢
        obtain rfl := Option.some.inj h
        rfl
      · rw [if_neg htype] at h ⊢
        cases hsym : symbols[rel.symbolIndex]? with
        | none =>
          rw [hsym] at h
          obtain rfl := Option.some.inj h
          rfl
        | some symbol =>
          rw [hsym] at h
          dsimp only at h ⊢
          by_cases hundef : symbol.shndx = shnUndef
          · rw [if_pos hundef] at h ⊢
            obtain ⟨hshort, rfl⟩ : st.image.length < loc.outputOffset + 8 ∧
                .short true loc.outputOffset = f := by simpa using h
            rw [relocateExternal, unpackFrom_error hshort]
            rfl
          · rw [if_neg hundef] at h ⊢
            obtain ⟨hshort, rfl⟩ : st.image.length < loc.outputOffset + 8 ∧
                .short (rel.type = rAarch64Abs64) loc.outputOffset = f := by simpa using h
            refine internalValue_error hshort fun p => ?_
            rw [packInto_error hshort]
            rfl

lemma located_of_failure?_none
    (h : rel.failure? true (locate T.pieces) symbols n = none) : Located T symbols n rel := by
  rw [Relocation.failure?] at h
  cases hloc : T.location rel.offset with
  | error e =>
    obtain ⟨hnone, -⟩ := locate_of_error hloc
    simp [hnone] at h
  | ok loc =>
    rw [locate_of_location hloc] at h
    dsimp only at h
    rw [Located, Relocation.fixup?]
    by_cases hrel : rel.type = rAarch64Relative
    · rw [if_pos hrel] at h ⊢
      exact ⟨⟨_, rfl⟩, loc, hloc, by simpa using h⟩
    · rw [if_neg hrel] at h ⊢
      by_cases htype : rel.type ∉ [rAarch64Abs64, rAarch64GlobDat, rAarch64JumpSlot]
      · simp [htype] at h
      · rw [if_neg htype] at h ⊢
        cases hsym : symbols[rel.symbolIndex]? with
        | none => simp [hsym] at h
        | some symbol =>
          rw [hsym] at h
          have hlong : loc.outputOffset + 8 ≤ n := by
            by_cases hundef : symbol.shndx = shnUndef
            · simpa [hundef] using h
            · simpa [hundef] using h
          exact ⟨⟨_, rfl⟩, loc, hloc, hlong⟩

/-- **The loop of Phase 3 stops at the first relocation with a failure**, and with its
exception. -/
lemma relocateAll_eq_error_iff {rels : List Relocation} {e : PyError} :
    T.relocateAll symbols shimPrefix st rels = .error e ↔
      ∃ f : Failure, rels.findSome? (Relocation.failure? true (locate T.pieces) symbols
        st.image.length) = some f ∧ f.phase3 = e := by
  let Inv : RelocState → Prop := fun s => s.image.length = st.image.length
  have hst : Inv st := rfl
  refine PyM.foldlM_eq_error_iff Failure.phase3 ?_ ?_ hst
  · intro s rel f (hs : s.image.length = st.image.length) hf
    exact relocate_of_failure (hs ▸ hf)
  · intro s rel (hs : s.image.length = st.image.length) hnone
    have hlocated := located_of_failure?_none hnone
    obtain ⟨s', hs'⟩ := exists_relocate shimPrefix (hs ▸ hlocated)
    exact ⟨s', hs', (relocated_single hs').length_image.trans hs⟩

end Phase3Translator

/-! ### Phase 2 -/

namespace Phase2Translator

variable {T : Phase2Translator} {symbols : List DynamicSymbol} {st : Phase2State}
  {rel : Relocation}

lemma vaddrToOutputOffset_eq {vaddr : ℕ} : T.vaddrToOutputOffset vaddr =
    match locate T.pieces vaddr with
    | none => .error (.translate (.target vaddr))
    | some dst => .ok dst := by
  cases hloc : T.vaddrToOutputOffset vaddr with
  | ok dst => rw [vaddrToOutputOffset_eq_ok.mp hloc]
  | error e =>
    cases hlocate : locate T.pieces vaddr with
    | some dst =>
      rw [vaddrToOutputOffset_eq_ok.mpr hlocate] at hloc
      simp at hloc
    | none =>
      rw [vaddrToOutputOffset] at hloc
      split at hloc
      · exact hloc.symm
      · simp at hloc

lemma relocate_of_failure {f : Failure}
    (h : rel.failure? false (locate T.pieces) symbols st.image.length = some f) :
    T.relocate symbols st rel = .error f.phase2 := by
  rw [Relocation.failure?] at h
  rw [relocate, vaddrToOutputOffset_eq]
  -- the checks in the order of the code: address, type, symbol, size of the image
  cases hloc : locate T.pieces rel.offset with
  | none =>
    rw [hloc] at h
    obtain rfl := Option.some.inj h
    rfl
  | some dst =>
    rw [hloc] at h
    dsimp only at h ⊢
    rw [PyM.ok_bind]
    by_cases hrel : rel.type = rAarch64Relative
    · rw [if_pos hrel] at h ⊢
      obtain ⟨hshort, rfl⟩ : st.image.length < dst + 8 ∧ .short false dst = f := by simpa using h
      rw [relocateRelative, packInto_error hshort]
      rfl
    · rw [if_neg hrel] at h ⊢
      by_cases htype : rel.type ∉ [rAarch64Abs64, rAarch64GlobDat, rAarch64JumpSlot]
      · rw [if_pos htype] at h ⊢
        obtain rfl := Option.some.inj h
        rfl
      · rw [if_neg htype] at h ⊢
        cases hsym : symbols[rel.symbolIndex]? with
        | none =>
          rw [hsym] at h
          obtain rfl := Option.some.inj h
          rfl
        | some symbol =>
          rw [hsym] at h
          by_cases hundef : symbol.shndx = shnUndef
          · simp [hundef] at h
          · obtain ⟨hshort, rfl⟩ : st.image.length < dst + 8 ∧
                .short (rel.type = rAarch64Abs64) dst = f := by simpa [hundef] using h
            dsimp only
            rw [if_neg hundef]
            refine internalValue_error hshort fun p => ?_
            rw [packInto_error hshort]
            rfl

lemma exists_relocate (h : rel.failure? false (locate T.pieces) symbols st.image.length = none) :
    ∃ st', T.relocate symbols st rel = .ok st' := by
  rw [Relocation.failure?] at h
  cases hloc : locate T.pieces rel.offset with
  | none => simp [hloc] at h
  | some dst =>
    rw [hloc] at h
    dsimp only at h
    by_cases hrel : rel.type = rAarch64Relative
    · rw [if_pos hrel] at h
      exact ⟨_, relocate_eq_ok.mpr ⟨dst, hloc, .inl ⟨rel.addend, false,
        Relocation.fixup?_relative hrel, by simpa using h, rfl⟩⟩⟩
    · rw [if_neg hrel] at h
      by_cases htype : rel.type ∉ [rAarch64Abs64, rAarch64GlobDat, rAarch64JumpSlot]
      · simp [htype] at h
      · rw [if_neg htype] at h
        cases hsym : symbols[rel.symbolIndex]? with
        | none => simp [hsym] at h
        | some symbol =>
          rw [hsym] at h
          have hfixup : rel.fixup? symbols = some (if symbol.shndx = shnUndef then .external symbol
              else .internal (symbol.value + rel.addend) (rel.type = rAarch64Abs64)) := by
            rw [Relocation.fixup?, if_neg hrel, if_neg htype, hsym, Option.map_some]
          by_cases hundef : symbol.shndx = shnUndef
          · rw [if_pos hundef] at hfixup
            exact ⟨_, relocate_eq_ok.mpr ⟨dst, hloc, .inr ⟨symbol, hfixup, rfl⟩⟩⟩
          · rw [if_neg hundef] at hfixup
            exact ⟨_, relocate_eq_ok.mpr ⟨dst, hloc, .inl ⟨_, _, hfixup, by simpa [hundef] using h,
              rfl⟩⟩⟩

/-- **The loop of Phase 2 stops at the first relocation with a failure**, and with its
exception. -/
lemma foldlM_eq_error_iff {rels : List Relocation} {e : PyError} :
    rels.foldlM (T.relocate symbols) st = .error e ↔
      ∃ f : Failure, rels.findSome? (Relocation.failure? false (locate T.pieces) symbols
        st.image.length) = some f ∧ f.phase2 = e := by
  let Inv : Phase2State → Prop := fun s => s.image.length = st.image.length
  have hst : Inv st := rfl
  refine PyM.foldlM_eq_error_iff Failure.phase2 ?_ ?_ hst
  · intro s rel f (hs : s.image.length = st.image.length) hf
    exact relocate_of_failure (hs ▸ hf)
  · intro s rel (hs : s.image.length = st.image.length) hnone
    obtain ⟨s', hs'⟩ := exists_relocate (hs.symm ▸ hnone)
    exact ⟨s', hs', (resolved_single hs').length_image.trans hs⟩

end Phase2Translator

/-! ### Both loops -/

/-- **Which exception stops a translation in its relocations**: that of the first relocation, in
the order of the file, whose address is in no copied piece, whose type is not supported, whose
symbol does not exist or whose word runs past the image, in this order.  Phase 2 and Phase 3
differ only in the words of imports, which Phase 2 does not read. -/
theorem fixups_eq_error_iff (T₂ : Phase2Translator) (T₃ : Phase3Translator) (args : TranslateArgs) :
    (∀ e, T₂.fixups = .error e ↔ ∃ f : Failure,
      T₂.elf.relocations.findSome? (Relocation.failure? false (locate T₂.pieces)
        T₂.elf.dynamicSymbols T₂.copied.length) = some f ∧ f.phase2 = e) ∧
    ∀ e, T₃.fixups args = .error e ↔ ∃ f : Failure,
      T₃.elf.relocations.findSome? (Relocation.failure? true (locate T₃.pieces)
        T₃.elf.dynamicSymbols T₃.copied.length) = some f ∧ f.phase3 = e :=
  ⟨fun _ => Phase2Translator.foldlM_eq_error_iff,
    fun _ => Phase3Translator.relocateAll_eq_error_iff⟩

end Apk2Ios
