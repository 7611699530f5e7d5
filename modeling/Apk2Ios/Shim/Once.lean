import Mathlib.Data.Int.Notation
import Apk2Ios.Errors
import Apk2Ios.Lib.Threads

/-!
# The shim: one-time initialisation

`a2i_pthread_once` of `pthread_compat.c`.  Every call is a thread of the model; the once
words are in memory, by address.
-/

namespace Apk2Ios

open Lib

/-- The arguments of `a2i_pthread_once`, two pointers. -/
structure OnceCall where
  once : ℕ
  initRoutine : ℕ
deriving DecidableEq, Repr

/-- The once words, and for every word the calls that entered their routine and the calls
whose routine returned, in order. -/
structure OnceMemory (ι : Type*) where
  word : ℕ → ℤ
  entered : ℕ → List ι
  completed : ℕ → List ι

/-- The points of `a2i_pthread_once`. -/
inductive OncePoint where
  | start
  | load
  | compareExchange
  | initRoutine
  | store
  | yield
  | returned (rc : Except Errno Unit)

section

variable {ι : Type*}

/-- The atomic steps of the call `i`. -/
inductive OnceStep (call : ι → OnceCall) (i : ι) :
    OnceMemory ι → OncePoint → OnceMemory ι → OncePoint → Prop
  | einval {m} : (call i).once = 0 ∨ (call i).initRoutine = 0 →
      OnceStep call i m .start m (.returned (.error .EINVAL))
  | start {m} : (call i).once ≠ 0 → (call i).initRoutine ≠ 0 → OnceStep call i m .start m .load
  | loadDone {m} : m.word (call i).once = 2 → OnceStep call i m .load m (.returned (.ok ()))
  | loadFresh {m} : m.word (call i).once = 0 → OnceStep call i m .load m .compareExchange
  | loadOther {m} : m.word (call i).once ≠ 2 → m.word (call i).once ≠ 0 →
      OnceStep call i m .load m .yield
  | exchanged {m} : m.word (call i).once = 0 →
      OnceStep call i m .compareExchange
        { m with
          word := Function.update m.word (call i).once 1
          entered := Function.update m.entered (call i).once (m.entered (call i).once ++ [i]) }
        .initRoutine
  | exchangeFailed {m} : m.word (call i).once ≠ 0 → OnceStep call i m .compareExchange m .yield
  -- the routine takes as many steps as it likes
  | routineRuns {m} : OnceStep call i m .initRoutine m .initRoutine
  | routineReturns {m} :
      OnceStep call i m .initRoutine
        { m with
          completed := Function.update m.completed (call i).once
            (m.completed (call i).once ++ [i]) }
        .store
  | store {m} :
      OnceStep call i m .store { m with word := Function.update m.word (call i).once 2 }
        (.returned (.ok ()))
  | yield {m} : OnceStep call i m .yield m .load

/-- Any number of calls of `a2i_pthread_once`. -/
def a2iPthreadOnce (call : ι → OnceCall) : Threads ι (OnceMemory ι) OncePoint where
  thread := OnceStep call
  env _ _ := False

/-- No call has begun. -/
def onceStart (ι : Type*) (word : ℕ → ℤ) : Config ι (OnceMemory ι) OncePoint :=
  ⟨⟨word, fun _ => [], fun _ => []⟩, fun _ => .start⟩

/-! ### The proof outline -/

namespace OnceMemory

variable (m : OnceMemory ι) (a : ℕ)

/-- The call `i` runs the routine, or its routine has returned. -/
def Runs (i : ι) (completed : List ι) : Prop :=
  m.word a = 1 ∧ m.entered a = [i] ∧ m.completed a = completed

/-- The only execution of the routine is over, and the word says so. -/
def Done : Prop := m.word a = 2 ∧ ∃ i, m.entered a = [i] ∧ m.completed a = [i]

/-- The word tells how far the routine is. -/
def Inv : Prop :=
  (m.word a = 0 ∧ m.entered a = [] ∧ m.completed a = []) ∨
    (∃ i completed, m.Runs a i completed) ∨ m.Done a

end OnceMemory

/-- What a call on the once word `a` knows at every point. -/
def OnceAssertion (call : ι → OnceCall) (a : ℕ) (m : OnceMemory ι) (i : ι) (p : OncePoint) :
    Prop :=
  (call i).once = a →
    match p with
    | .initRoutine => m.Runs a i []
    | .store => m.Runs a i [i]
    | .returned (.ok ()) => m.Done a
    | _ => True

variable {call : ι → OnceCall} {a : ℕ} {i j : ι} {m m' : OnceMemory ι} {p p' q : OncePoint}

/-- What happens to the word `a`, by the point of the step. -/
lemma OnceStep.effect (h : OnceStep call i m p m' p') :
    m'.word a = m.word a ∧ m'.entered a = m.entered a ∧ m'.completed a = m.completed a ∨
      (call i).once = a ∧ m.word a = 0 ∧ p' = .initRoutine ∧ m'.word a = 1 ∧
        m'.entered a = m.entered a ++ [i] ∧ m'.completed a = m.completed a ∨
      (call i).once = a ∧ p = .initRoutine ∧ p' = .store ∧ m'.word a = m.word a ∧
        m'.entered a = m.entered a ∧ m'.completed a = m.completed a ++ [i] ∨
      (call i).once = a ∧ p = .store ∧ p' = .returned (.ok ()) ∧ m'.word a = 2 ∧
        m'.entered a = m.entered a ∧ m'.completed a = m.completed a := by
  by_cases ha : (call i).once = a
  · subst ha
    cases h with
    | exchanged hw => exact Or.inr (Or.inl ⟨rfl, hw, rfl, by simp⟩)
    | routineReturns => exact Or.inr (Or.inr (Or.inl ⟨rfl, rfl, rfl, by simp⟩))
    | store => exact Or.inr (Or.inr (Or.inr ⟨rfl, rfl, rfl, by simp⟩))
    | _ => exact Or.inl ⟨rfl, rfl, rfl⟩
  · have hne : a ≠ (call i).once := Ne.symm ha
    left
    cases h with
    | exchanged => exact ⟨Function.update_of_ne hne .., Function.update_of_ne hne .., rfl⟩
    | routineReturns => exact ⟨rfl, rfl, Function.update_of_ne hne ..⟩
    | store => exact ⟨Function.update_of_ne hne .., rfl, rfl⟩
    | _ => exact ⟨rfl, rfl, rfl⟩

/-- A step that leaves the word alone reaches a point with an assertion only from a point
where it holds. -/
lemma OnceStep.assertion_of_same (h : OnceStep call i m p m' p') (ha : (call i).once = a)
    (hinv : m.Inv a) (hA : OnceAssertion call a m i p)
    (hsame : m'.word a = m.word a ∧ m'.entered a = m.entered a ∧ m'.completed a = m.completed a) :
    OnceAssertion call a m' i p' := by
  subst ha
  intro _
  cases h with
  | loadDone hw =>
    rcases hinv with ⟨h0, -⟩ | ⟨_, _, h1, -⟩ | hdone
    · exact absurd (h0.symm.trans hw) (by decide)
    · exact absurd (h1.symm.trans hw) (by decide)
    · exact hdone
  | routineRuns => exact hA rfl
  | exchanged hw => simp [hw] at hsame
  | routineReturns => simp at hsame
  | store =>
    obtain ⟨h1, -⟩ := hA rfl
    simp [h1] at hsame
  | _ => trivial

/-- The assertions read only what is known of the word. -/
lemma OnceAssertion.congr (hA : OnceAssertion call a m j q)
    (hsame : m'.word a = m.word a ∧ m'.entered a = m.entered a ∧ m'.completed a = m.completed a) :
    OnceAssertion call a m' j q := by
  obtain ⟨h1, h2, h3⟩ := hsame
  intro ha
  have h := hA ha
  simpa only [OnceMemory.Runs, OnceMemory.Done, h1, h2, h3] using h

/-- A call that neither runs the routine nor knows of the end of it claims nothing. -/
lemma OnceAssertion.vacuous (hA : OnceAssertion call a m j q)
    (hruns : ∀ completed, ¬ m.Runs a j completed) (hdone : ¬ m.Done a) (m' : OnceMemory ι) :
    OnceAssertion call a m' j q := by
  intro ha
  have h := hA ha
  match q, h with
  | .initRoutine, h => exact absurd h (hruns _)
  | .store, h => exact absurd h (hruns _)
  | .returned (.ok ()), h => exact absurd h hdone
  | .returned (.error _), _ | .start, _ | .load, _ | .compareExchange, _ | .yield, _ => trivial

/-- While one call runs the routine, no other call claims anything. -/
lemma OnceMemory.Runs.others {completed : List ι} (h : m.Runs a i completed) (hij : i ≠ j)
    (hA : OnceAssertion call a m j q) (m' : OnceMemory ι) : OnceAssertion call a m' j q := by
  obtain ⟨hword, hentered, -⟩ := h
  refine hA.vacuous (fun _ h => hij ?_) (fun h => ?_) m'
  · simpa using hentered.symm.trans h.2.1
  · exact absurd (hword.symm.trans h.1) (by decide)

/-- The invariant and the assertions of `a2i_pthread_once`. -/
lemma onceOutline (call : ι → OnceCall) (a : ℕ) :
    (a2iPthreadOnce call).Outline (fun m => m.Inv a) (OnceAssertion call a) where
  own i m p m' p' h hG hA := by
    rcases h.effect (a := a) with
      hsame | ⟨-, hw, rfl, hw', he, hc⟩ | ⟨ha, rfl, rfl, hw, he, hc⟩ | ⟨ha, rfl, rfl, hw, he, hc⟩
    · refine ⟨?_, fun ha => h.assertion_of_same ha hG hA hsame ha⟩
      obtain ⟨h1, h2, h3⟩ := hsame
      simpa only [OnceMemory.Inv, OnceMemory.Runs, OnceMemory.Done, h1, h2, h3] using hG
    · -- the call enters the routine: nobody has entered it before
      rcases hG with ⟨-, he0, hc0⟩ | ⟨_, _, h1, -⟩ | ⟨h2, -⟩
      · rw [he0, List.nil_append] at he
        have hruns : m'.Runs a i [] := ⟨hw', he, hc.trans hc0⟩
        exact ⟨Or.inr (Or.inl ⟨i, [], hruns⟩), fun _ => hruns⟩
      · exact absurd (h1.symm.trans hw) (by decide)
      · exact absurd (h2.symm.trans hw) (by decide)
    · obtain ⟨hw1, he1, hc1⟩ := hA ha
      have hruns : m'.Runs a i [i] := ⟨hw.trans hw1, he.trans he1, by rw [hc, hc1]; rfl⟩
      exact ⟨Or.inr (Or.inl ⟨i, [i], hruns⟩), fun _ => hruns⟩
    · obtain ⟨-, he1, hc1⟩ := hA ha
      have hdone : m'.Done a := ⟨hw, i, he.trans he1, hc.trans hc1⟩
      exact ⟨Or.inr (Or.inr hdone), fun _ => hdone⟩
  others i j m p m' p' q hij h _ hAi hAj := by
    rcases h.effect (a := a) with
      hsame | ⟨-, hw, -⟩ | ⟨ha, rfl, -⟩ | ⟨ha, rfl, -⟩
    · exact hAj.congr hsame
    · refine hAj.vacuous (fun _ h => ?_) (fun h => ?_) m'
      · exact absurd (h.1.symm.trans hw) (by decide)
      · exact absurd (h.1.symm.trans hw) (by decide)
    · exact (hAi ha).others hij hAj m'
    · exact (hAi ha).others hij hAj m'
  env _ _ h := h.elim

/-! ### Every run -/

/-- The word stays, or goes from 0 to 1 or from 1 to 2. -/
def OnceMoves (w w' : ℤ) : Prop := w' = w ∨ (w = 0 ∧ w' = 1) ∨ (w = 1 ∧ w' = 2)

lemma OnceStep.moves (h : OnceStep call i m p m' p') (hA : OnceAssertion call a m i p) :
    OnceMoves (m.word a) (m'.word a) := by
  rcases h.effect (a := a) with
    ⟨hw, -⟩ | ⟨-, hw, -, hw', -⟩ | ⟨-, -, -, hw, -⟩ | ⟨ha, rfl, -, hw', -⟩
  · exact Or.inl hw
  · exact Or.inr (Or.inl ⟨hw, hw'⟩)
  · exact Or.inl hw
  · exact Or.inr (Or.inr ⟨(hA ha).1, hw'⟩)

variable [DecidableEq ι] {word : ℕ → ℤ} {c : Config ι (OnceMemory ι) OncePoint}

lemma annotated_of_reaches (hword : word a = 0)
    (h : (a2iPthreadOnce call).Reaches (onceStart ι word) c) :
    Threads.Annotated (fun m => m.Inv a) (OnceAssertion call a) c :=
  (onceOutline call a).reaches h ⟨Or.inl ⟨hword, rfl, rfl⟩, fun _ _ => trivial⟩

/-- **The routine of a once word runs once, and before anyone proceeds.**  In every state that
calls of `a2i_pthread_once` can reach from a word that is 0, at most one call has entered the
routine, every step moves the word only from 0 to 1 or from 1 to 2, and when a call has
returned 0 the only execution of the routine is over. -/
theorem pthread_once_runs_once (hword : word a = 0)
    (h : (a2iPthreadOnce call).Reaches (onceStart ι word) c) :
    (c.memory.entered a).length ≤ 1 ∧
      (∀ d, (a2iPthreadOnce call).Step c d → OnceMoves (c.memory.word a) (d.memory.word a)) ∧
      ∀ i, (call i).once = a → c.point i = .returned (.ok ()) →
        ∃ j, c.memory.entered a = [j] ∧ c.memory.completed a = [j] := by
  obtain ⟨hG, hA⟩ := annotated_of_reaches hword h
  refine ⟨?_, fun d hd => ?_, fun i ha hi => ?_⟩
  · rcases hG with ⟨-, he, -⟩ | ⟨_, _, -, he, -⟩ | ⟨-, _, he, -⟩ <;> simp [he]
  · rcases hd with ⟨i, hi⟩ | ⟨⟨⟩⟩
    exact hi.moves (hA i)
  · have hdone := hA i ha
    rw [hi] at hdone
    exact hdone.2

end

/-! ### A run -/

/-- Two calls on the once word at 8. -/
def onceCallsAt8 : Bool → OnceCall := fun _ => ⟨8, 16⟩

/-- Both calls find the word 0 and race for the exchange; the one that loses waits for the other's
routine, and both return 0. -/
theorem pthread_once_runs_once_race : ∃ c : Config Bool (OnceMemory Bool) OncePoint,
    (a2iPthreadOnce onceCallsAt8).Reaches (onceStart Bool fun _ => 0) c ∧
      c.point false = .returned (.ok ()) ∧ c.point true = .returned (.ok ()) ∧
      (c.memory.entered 8).length ≤ 1 ∧
      ∃ j, c.memory.entered 8 = [j] ∧ c.memory.completed 8 = [j] := by
  have hstart : (a2iPthreadOnce onceCallsAt8).Reaches (onceStart Bool fun _ => 0)
      (onceStart Bool fun _ => 0) := .refl
  have hone := hstart.tail (.thread false (.start (by decide) (by decide)))
  have htwo := hone.tail (.thread true (.start (by decide) (by decide)))
  have hfresh := htwo.tail (.thread false (.loadFresh rfl))
  have hrace := hfresh.tail (.thread true (.loadFresh rfl))
  have hwins := hrace.tail (.thread false (.exchanged rfl))
  have hloses := hwins.tail (.thread true (.exchangeFailed Int.one_ne_zero))
  have hagain := hloses.tail (.thread true .yield)
  have hwaits := hagain.tail (.thread true (.loadOther (by decide) Int.one_ne_zero))
  have hroutine := hwaits.tail (.thread false .routineReturns)
  have hstore := hroutine.tail (.thread false .store)
  have hlast := hstore.tail (.thread true .yield)
  have hdone := hlast.tail (.thread true (.loadDone rfl))
  obtain ⟨hlength, -, hreturned⟩ := pthread_once_runs_once (a := 8) rfl hdone
  exact ⟨_, hdone, rfl, rfl, hlength, hreturned true rfl rfl⟩

end Apk2Ios
