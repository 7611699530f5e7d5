import Mathlib.Logic.Function.Basic
import Mathlib.Logic.Relation

/-!
# Threads on a shared memory

A program is given by the atomic steps of one thread.  Any number of threads run it, in any
order.  A proof outline attaches an assertion to every point of the program; it holds in
every run when the steps of a thread establish its own assertions and keep those of the
other threads.
-/

namespace Apk2Ios.Lib

/-- The atomic steps of a program.  `thread i s p s' p'`: the thread `i`, at the point `p`,
can take the memory from `s` to `s'` and go on at `p'`.  `env s s'`: the rest of the world
can take the memory from `s` to `s'`. -/
structure Threads (ι σ π : Type*) where
  thread : ι → σ → π → σ → π → Prop
  env : σ → σ → Prop

/-- The memory, and the point at which every thread is. -/
structure Config (ι σ π : Type*) where
  memory : σ
  point : ι → π

namespace Threads

variable {ι σ π : Type*} [DecidableEq ι] {P : Threads ι σ π} {c d : Config ι σ π}

/-- One step of one thread, or of the rest of the world. -/
inductive Step (P : Threads ι σ π) : Config ι σ π → Config ι σ π → Prop
  | thread {c : Config ι σ π} (i : ι) {s' : σ} {p' : π} :
      P.thread i c.memory (c.point i) s' p' → P.Step c ⟨s', Function.update c.point i p'⟩
  | env {c : Config ι σ π} {s' : σ} : P.env c.memory s' → P.Step c ⟨s', c.point⟩

/-- The step of a thread at a known point. -/
lemma Step.at {i : ι} {p p' : π} {s' : σ} (hp : c.point i = p)
    (h : P.thread i c.memory p s' p') : P.Step c ⟨s', Function.update c.point i p'⟩ := by
  subst hp
  exact .thread i h

/-- There is a run from one state to another. -/
def Reaches (P : Threads ι σ π) : Config ι σ π → Config ι σ π → Prop :=
  Relation.ReflTransGen P.Step

/-! ### Invariants -/

/-- What every step keeps holds along every run. -/
lemma Reaches.invariant {I : Config ι σ π → Prop} (hstep : ∀ c d, P.Step c d → I c → I d)
    (h : P.Reaches c d) (hc : I c) : I d := by
  induction h with
  | refl => exact hc
  | tail _ hlast ih => exact hstep _ _ hlast ih

/-- A property of the memory and of every thread at its point. -/
def Annotated (G : σ → Prop) (A : σ → ι → π → Prop) (c : Config ι σ π) : Prop :=
  G c.memory ∧ ∀ i, A c.memory i (c.point i)

/-- A proof outline: the invariant `G` of the memory, and the assertion `A s i p` of the
thread `i` at the point `p`. -/
structure Outline (P : Threads ι σ π) (G : σ → Prop) (A : σ → ι → π → Prop) : Prop where
  own : ∀ i s p s' p', P.thread i s p s' p' → G s → A s i p → G s' ∧ A s' i p'
  others : ∀ i j s p s' p' q, i ≠ j → P.thread i s p s' p' → G s → A s i p → A s j q → A s' j q
  env : ∀ s s', P.env s s' → G s → G s' ∧ ∀ j q, A s j q → A s' j q

variable {G : σ → Prop} {A : σ → ι → π → Prop}

lemma Outline.step (h : P.Outline G A) (hstep : P.Step c d) (hc : Annotated G A c) :
    Annotated G A d := by
  rcases hstep with ⟨i, hi⟩ | he
  · obtain ⟨hG, hA⟩ := h.own i _ _ _ _ hi hc.1 (hc.2 i)
    refine ⟨hG, fun j => ?_⟩
    show A _ j (Function.update c.point i _ j)
    by_cases hij : j = i
    · subst hij
      rw [Function.update_self]
      exact hA
    · rw [Function.update_of_ne hij]
      exact h.others i j _ _ _ _ _ (Ne.symm hij) hi hc.1 (hc.2 i) (hc.2 j)
  · obtain ⟨hG, hA⟩ := h.env _ _ he hc.1
    exact ⟨hG, fun j => hA j _ (hc.2 j)⟩

/-- **A proof outline** that holds at the start of a run holds at its end. -/
theorem Outline.reaches (h : P.Outline G A) (hrun : P.Reaches c d) (hc : Annotated G A c) :
    Annotated G A d :=
  hrun.invariant (fun _ _ => h.step) hc

end Threads

end Apk2Ios.Lib
