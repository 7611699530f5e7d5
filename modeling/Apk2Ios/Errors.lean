import Apk2Ios.Lib.Lists

/-!
# What the translators raise

One type for the exceptions of the ELF parser and of the three translators.  An exception
keeps the values its text is built from.  The error numbers of the C shims are at the end.
-/

namespace Apk2Ios

open Lib

/-- Hexadecimal with the prefix `0x`, the format `#x`. -/
def hex (n : ℕ) : String := "0x" ++ String.ofList (Nat.toDigits 16 n)

/-- `ElfError`. -/
inductive ElfError where
  | notElf
  | notElf64
  | notLittleEndian
deriving DecidableEq, Repr

def ElfError.message : ElfError → String
  | .notElf => "not an ELF file"
  | .notElf64 => "only ELF64 is supported"
  | .notLittleEndian => "only little-endian ELF is supported"

/-- `TranslateError`, of the Phase 2 translator. -/
inductive TranslateError where
  | machine
  | type
  | noLoad
  | target (vaddr : ℕ)
  | unsupported (rType offset : ℕ)
  | symbolIndex (index : ℕ)
  | commands
deriving DecidableEq, Repr

def TranslateError.message : TranslateError → String
  | .machine => "Phase 2 supports AArch64 only"
  | .type => "Phase 2 expects an ET_DYN shared object"
  | .noLoad => "ELF has no PT_LOAD segments"
  | .target vaddr => s!"relocation target {hex vaddr} is not inside a file-backed PT_LOAD"
  | .unsupported rType offset => s!"unsupported relocation {rType} at {hex offset}"
  | .symbolIndex index => s!"bad dynamic symbol index {index}"
  | .commands => "Mach-O load commands exceed reserved header page"

/-- `Phase3Error`, raised by the Phase 3 and Phase 4 translators. -/
inductive Phase3Error where
  | machine
  | type
  | noLoad
  | firstLoad
  | target (vaddr : ℕ)
  | unsupported (rType offset : ℕ)
  | symbolIndex (index : ℕ)
  | rebaseSegment
  | shimOrdinal
  | bindSegment
  | commands
  | trieChildren
  | trieLayout
  | phase4Commands
deriving DecidableEq, Repr

def Phase3Error.message : Phase3Error → String
  | .machine => "Phase 3 supports AArch64 only"
  | .type => "Phase 3 expects an ET_DYN shared object"
  | .noLoad => "ELF has no PT_LOAD segments"
  | .firstLoad => "current Phase 3 layout expects the first PT_LOAD to be RX at vaddr 0"
  | .target vaddr => s!"relocation target {hex vaddr} is not inside a file-backed PT_LOAD"
  | .unsupported rType offset => s!"unsupported relocation {rType} at {hex offset}"
  | .symbolIndex index => s!"bad dynamic symbol index {index}"
  | .rebaseSegment => "classic dyld rebase opcode supports <= 16 segments"
  | .shimOrdinal => "immediate dylib ordinal must be in 1..15"
  | .bindSegment => "classic dyld bind opcode supports <= 16 segments"
  | .commands => "Mach-O load commands exceed header reserve"
  | .trieChildren => "export trie node has more than 255 children"
  | .trieLayout => "export trie layout failed to converge"
  | .phase4Commands => "Phase 4 load commands exceed header reserve"

/-- An exception that leaves the tools. -/
inductive PyError where
  /-- `struct.error`: a field out of range when packing, a buffer too short when
  unpacking. -/
  | struct
  /-- `OverflowError`: an offset to read from, or a size to make room for, that is no
  `ssize_t`. -/
  | overflow
  /-- `IndexError`: an offset to write to that is no `ssize_t`. -/
  | index
  /-- `RecursionError`: more nested calls than the interpreter allows. -/
  | recursion
  | elf (e : ElfError)
  | translate (e : TranslateError)
  | phase3 (e : Phase3Error)
deriving DecidableEq, Repr

/-- A computation that may raise. -/
abbrev PyM := Except PyError

/-- `if c: raise e`. -/
def raiseIf (c : Prop) [Decidable c] (e : PyError) : PyM Unit := if c then .error e else .ok ()

namespace PyM

variable {α β : Type}

/-- A bind returns exactly when both of its parts do. -/
lemma bind_eq_ok {x : PyM α} {f : α → PyM β} {b : β} :
    (x >>= f) = .ok b ↔ ∃ a, x = .ok a ∧ f a = .ok b := by
  cases x with
  | error e => simp [bind, Except.bind]
  | ok a => simp [bind, Except.bind]

@[simp] lemma pure_eq_ok {a b : α} : (pure a : PyM α) = .ok b ↔ a = b := by
  simp [pure, Except.pure]

@[simp] lemma throw_ne_ok {e : PyError} {a : α} : (throw e : PyM α) = .ok a ↔ False := by
  simp [throw, throwThe, MonadExceptOf.throw]

@[simp] lemma raiseIf_eq_ok {c : Prop} [Decidable c] {e : PyError} {u : Unit} :
    raiseIf c e = .ok u ↔ ¬ c := by
  rw [raiseIf]
  split <;> simp [*]

/-- A value that is returned behind a check. -/
lemma ite_ok_eq_ok {c : Prop} [Decidable c] {a b : α} {e : PyError} :
    (if c then (.ok a : PyM α) else .error e) = .ok b ↔ c ∧ b = a := by
  by_cases hc : c
  · rw [if_pos hc, Except.ok.injEq, and_iff_right hc, eq_comm]
  · rw [if_neg hc]
    exact iff_of_false nofun fun h => hc h.1

@[simp] lemma ok_bind {a : α} {f : α → PyM β} : ((Except.ok a : PyM α) >>= f) = f a := rfl

@[simp] lemma map_eq_ok {x : PyM α} {f : α → β} {b : β} :
    (f <$> x) = .ok b ↔ ∃ a, x = .ok a ∧ f a = b := by
  cases x with
  | error e => simp [Functor.map, Except.map]
  | ok a => simp [Functor.map, Except.map]

/-- `mapM` returns exactly when every call does. -/
lemma mapM_eq_ok {f : α → PyM β} {xs : List α} {ys : List β} :
    xs.mapM f = .ok ys ↔ List.Forall₂ (fun x y => f x = .ok y) xs ys := by
  induction xs generalizing ys with
  | nil => rw [List.mapM_nil, pure_eq_ok, List.forall₂_nil_left_iff, eq_comm]
  | cons x xs ih =>
    rw [List.mapM_cons, bind_eq_ok]
    constructor
    · rintro ⟨y, hy, h⟩
      obtain ⟨ys', hys, h⟩ := bind_eq_ok.mp h
      obtain rfl := pure_eq_ok.mp h
      exact .cons hy (ih.mp hys)
    · rintro (_ | ⟨hy, hys⟩)
      exact ⟨_, hy, bind_eq_ok.mpr ⟨_, ih.mpr hys, pure_eq_ok.mpr rfl⟩⟩

/-- A `mapM` whose calls check an element and compute from it. -/
lemma mapM_eq_ok_map {f : α → PyM β} {P : α → Prop} {g : α → β}
    (hf : ∀ a b, f a = .ok b ↔ P a ∧ g a = b) {xs : List α} {ys : List β} :
    xs.mapM f = .ok ys ↔ (∀ a ∈ xs, P a) ∧ ys = xs.map g := by
  rw [mapM_eq_ok]
  simp only [hf]
  constructor
  · intro h
    induction h with
    | nil => simp
    | cons h _ ih =>
      obtain ⟨hP, rfl⟩ := h
      simpa [hP, ih.2] using ih.1
  · rintro ⟨hP, rfl⟩
    induction xs with
    | nil => exact .nil
    | cons x xs ih =>
      exact .cons ⟨hP x List.mem_cons_self, rfl⟩ (ih fun a ha => hP a (List.mem_cons_of_mem x ha))

/-- Every result of a `mapM` comes from an element. -/
lemma exists_of_mem_mapM {f : α → PyM β} {xs : List α} {ys : List β} {y : β}
    (h : xs.mapM f = .ok ys) (hy : y ∈ ys) : ∃ x ∈ xs, f x = .ok y :=
  exists_of_mem_forall₂ (R := fun x y => f x = .ok y) (mapM_eq_ok.mp h) hy

/-- The computation raises no other exceptions. -/
def Raises (x : PyM α) (P : PyError → Prop) : Prop := ∀ e, x = .error e → P e

section

variable {P : PyError → Prop} {x : PyM α} {f : α → PyM β}

lemma raises_pure (a : α) : Raises (pure a) P := by
  intro e h
  simp [pure, Except.pure] at h

lemma raises_ok (a : α) : Raises (.ok a) P := raises_pure a

lemma raises_ite {c : Prop} [Decidable c] {y : PyM α} (hx : Raises x P) (hy : Raises y P) :
    Raises (if c then x else y) P := by
  split
  · exact hx
  · exact hy

lemma raises_error {e : PyError} (h : P e) : Raises (.error e : PyM α) P := by
  rintro _ ⟨⟩
  exact h

lemma raises_raiseIf {c : Prop} [Decidable c] {e : PyError} (h : P e) : Raises (raiseIf c e) P :=
  raises_ite (raises_error h) (raises_ok ())

lemma Raises.bind_of_ok (hx : Raises x P) (hf : ∀ a, x = .ok a → Raises (f a) P) :
    Raises (x >>= f) P := by
  intro e h
  cases x with
  | error e' =>
    obtain rfl : e' = e := by simpa [Bind.bind, Except.bind] using h
    exact hx e' rfl
  | ok a => exact hf a rfl e h

lemma Raises.bind (hx : Raises x P) (hf : ∀ a, Raises (f a) P) : Raises (x >>= f) P :=
  hx.bind_of_ok fun a _ => hf a

lemma raises_mapM {f : α → PyM β} {xs : List α} (hf : ∀ a, Raises (f a) P) :
    Raises (xs.mapM f) P := by
  induction xs with
  | nil => exact raises_pure []
  | cons x xs ih =>
    rw [List.mapM_cons]
    exact (hf x).bind fun y => ih.bind fun ys => raises_pure (y :: ys)

end

/-- **A loop raises what its first failing step raises**, when it depends on the element and on
what the other steps keep whether a step fails. -/
lemma foldlM_eq_error_iff {σ φ : Type} {step : σ → α → PyM σ} {Inv : σ → Prop}
    {failure : α → Option φ} (exception : φ → PyError)
    (hfails : ∀ s a f, Inv s → failure a = some f → step s a = .error (exception f))
    (hruns : ∀ s a, Inv s → failure a = none → ∃ s', step s a = .ok s' ∧ Inv s')
    {s : σ} (hs : Inv s) {xs : List α} {e : PyError} :
    xs.foldlM step s = .error e ↔ ∃ f, xs.findSome? failure = some f ∧ exception f = e := by
  induction xs generalizing s with
  | nil => simp [pure, Except.pure]
  | cons x xs ih =>
    rw [List.foldlM_cons, List.findSome?_cons]
    cases hx : failure x with
    | some f =>
      rw [hfails s x f hs hx]
      simp [Bind.bind, Except.bind]
    | none =>
      obtain ⟨s', hstep, hs'⟩ := hruns s x hs hx
      rw [hstep, ok_bind]
      exact ih hs'

end PyM

/-! ### Error numbers -/

/-- The error numbers the shims return or leave in `errno`; `host` stands for the others, which
come from the host. -/
inductive Errno where
  | EINVAL
  | ENOMEM
  | EFAULT
  | EAGAIN
  | EBUSY
  | ENOSYS
  | ETIMEDOUT
  | host (n : ℕ)
deriving DecidableEq, Repr

end Apk2Ios
