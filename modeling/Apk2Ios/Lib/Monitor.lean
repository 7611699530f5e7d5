import Mathlib.Data.Finset.SDiff
import Mathlib.Data.Finset.Insert
import Apk2Ios.Lib.Threads

/-!
# A mutex and its condition variable

A mutex has at most one owner.  A thread that waits on the condition variable releases the
mutex and falls asleep in one step; when it is unblocked it takes the mutex again.  A signal
unblocks at least one sleeper if there is one, a broadcast unblocks all of them, and a sleeper
can wake up without either.

What only the owner of a mutex touches can be reasoned about as in a sequential program.
-/

namespace Apk2Ios.Lib

/-- The owner of a mutex, and the threads asleep on its condition variable. -/
structure Monitor (ι : Type*) where
  owner : Option ι
  sleepers : Finset ι

namespace Monitor

variable {ι : Type*} (m : Monitor ι) (i : ι) (woken : Finset ι)

/-- A new mutex and a new condition variable. -/
def init : Monitor ι := ⟨none, ∅⟩

/-- The thread takes the mutex. -/
def lock : Monitor ι := { m with owner := some i }

/-- The owner releases the mutex. -/
def unlock : Monitor ι := { m with owner := none }

/-- The sleepers a signal can unblock. -/
def Signals : Prop := woken ⊆ m.sleepers ∧ (m.sleepers.Nonempty → woken.Nonempty)

@[simp] lemma owner_init : (init : Monitor ι).owner = none := rfl

@[simp] lemma sleepers_init : (init : Monitor ι).sleepers = ∅ := rfl

@[simp] lemma owner_lock : (m.lock i).owner = some i := rfl

@[simp] lemma sleepers_lock : (m.lock i).sleepers = m.sleepers := rfl

@[simp] lemma owner_unlock : m.unlock.owner = none := rfl

@[simp] lemma sleepers_unlock : m.unlock.sleepers = m.sleepers := rfl

variable [DecidableEq ι]

/-- The owner releases the mutex and falls asleep. -/
def sleep : Monitor ι := ⟨none, insert i m.sleepers⟩

/-- Some sleepers are unblocked. -/
def wake : Monitor ι := { m with sleepers := m.sleepers \ woken }

@[simp] lemma owner_sleep : (m.sleep i).owner = none := rfl

@[simp] lemma sleepers_sleep : (m.sleep i).sleepers = insert i m.sleepers := rfl

@[simp] lemma owner_wake : (m.wake woken).owner = m.owner := rfl

@[simp] lemma sleepers_wake : (m.wake woken).sleepers = m.sleepers \ woken := rfl

/-- A broadcast leaves no sleeper. -/
lemma sleepers_wake_self : (m.wake m.sleepers).sleepers = ∅ := Finset.sdiff_self _

end Monitor

/-! ### Critical sections -/

/-- A step of the thread `i`, seen from a mutex with the protected data `data`: it stays
outside the critical section, enters it, stays in it or leaves it.  `R` holds of the data
while the mutex is free, and `K i p` is what the owner `i` knows at the point `p`. -/
inductive CriticalStep {ι σ π δ : Type*} (owner : σ → Option ι) (data : σ → δ)
    (inside : π → Prop) (R : δ → Prop) (K : ι → π → δ → Prop) (i : ι) (s : σ) (p : π) (s' : σ)
    (p' : π) : Prop
  | outside : ¬ inside p' → owner s' = owner s → data s' = data s →
      CriticalStep owner data inside R K i s p s' p'
  | enter : owner s = none → owner s' = some i → data s' = data s →
      (R (data s) → K i p' (data s)) → CriticalStep owner data inside R K i s p s' p'
  | within : inside p → owner s' = owner s → (K i p (data s) → K i p' (data s')) →
      CriticalStep owner data inside R K i s p s' p'
  | leave : inside p → ¬ inside p' → owner s' = none → (K i p (data s) → R (data s')) →
      CriticalStep owner data inside R K i s p s' p'

/-- Every thread that is inside owns the mutex and knows its assertion, and `R` holds while
nobody does. -/
def Protected {ι σ π δ : Type*} (owner : σ → Option ι) (data : σ → δ) (inside : π → Prop)
    (R : δ → Prop) (K : ι → π → δ → Prop) (c : Config ι σ π) : Prop :=
  (owner c.memory = none → R (data c.memory)) ∧
    ∀ i, inside (c.point i) → owner c.memory = some i ∧ K i (c.point i) (data c.memory)

section

variable {ι σ π δ : Type*} [DecidableEq ι] {owner : σ → Option ι}
  {data : σ → δ} {inside : π → Prop} {R : δ → Prop} {K : ι → π → δ → Prop} {c : Config ι σ π}

/-- **The rule of the critical section.**  A step of one of the four kinds keeps the data
protected. -/
theorem Protected.thread {i : ι} {s' : σ} {p' : π} (hc : Protected owner data inside R K c)
    (h : CriticalStep owner data inside R K i c.memory (c.point i) s' p') :
    Protected owner data inside R K ⟨s', Function.update c.point i p'⟩ := by
  obtain ⟨hfree, hin⟩ := hc
  refine ⟨?_, (Function.forall_update_iff c.point
    (p := fun j q => inside q → owner s' = some j ∧ K j q (data s'))).mpr ⟨?_, ?_⟩⟩
  -- a free mutex: the step is outside, or leaves and restores the data
  · show owner s' = none → R (data s')
    intro h'
    rcases h with ⟨-, ho, hd⟩ | ⟨-, ho', -⟩ | ⟨hi, ho, -⟩ | ⟨hi, -, -, hR⟩
    · exact hd ▸ hfree (ho ▸ h')
    · exact absurd (ho'.symm.trans h') (by simp)
    · exact absurd ((ho.trans (hin i hi).1).symm.trans h') (by simp)
    · exact hR (hin i hi).2
  · intro hp'
    rcases h with ⟨hout, -, -⟩ | ⟨ho, ho', hd, hK⟩ | ⟨hi, ho, hK⟩ | ⟨-, hout, -, -⟩
    · exact absurd hp' hout
    · exact ⟨ho', hd ▸ hK (hfree ho)⟩
    · exact ⟨ho.trans (hin i hi).1, hK (hin i hi).2⟩
    · exact absurd hp' hout
  · -- no other thread is inside unless the step is outside
    intro j hji hj
    obtain ⟨hown, hknow⟩ := hin j hj
    have hother : ¬ inside (c.point i) := fun hi =>
      hji (Option.some.inj (hown.symm.trans (hin i hi).1))
    rcases h with ⟨-, ho, hd⟩ | ⟨ho, -⟩ | ⟨hi, -⟩ | ⟨hi, -⟩
    · exact ⟨ho.trans hown, hd ▸ hknow⟩
    · exact absurd (ho.symm.trans hown) (by simp)
    · exact absurd hi hother
    · exact absurd hi hother

end

end Apk2Ios.Lib
