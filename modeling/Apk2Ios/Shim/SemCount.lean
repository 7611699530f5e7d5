import Mathlib.Algebra.Group.Int.Defs
import Apk2Ios.Lib.Histories
import Apk2Ios.Lib.Runs
import Apk2Ios.Shim.Semaphore

/-!
# The shim: what semaphores count

A semaphore counts its posts and waits.  The value of a node is an `unsigned`, which one post more
than fits takes around to 0, and `a2i_sem_getvalue` stores it as an `int`.  The history of a run
keeps what each call does to the value, and it is compared with an integer.
-/

namespace Apk2Ios

open Lib

/-! ### Effects -/

/-- What a call does: the value that it leaves in the node, or the integer that it stores. -/
inductive SemEffect where
  | post (value : ℕ)
  | wait (value : ℕ)
  | get (stored : ℤ)
deriving DecidableEq, Repr

namespace SemEffect

/-- The count after a call, one more for each post and one less for each wait. -/
def next (count : ℤ) : SemEffect → ℤ
  | post _ => count + 1
  | wait _ => count - 1
  | get _ => count

/-- The call leaves the count that it should, or stores it, and this as a number that is not
negative. -/
def Counts (count : ℤ) : SemEffect → Prop
  | post value => value = count + 1
  | wait value => value = count - 1
  | get stored => stored = count ∧ 0 ≤ stored

/-- The count that a call finds leaves room for a post, and is an `int` when it is stored. -/
def Fits (count : ℤ) : SemEffect → Prop
  | post _ => count ≠ 2 ^ 32 - 1
  | wait _ => True
  | get _ => count < 2 ^ 31

instance (count : ℤ) : (e : SemEffect) → Decidable (e.Counts count)
  | post value => inferInstanceAs (Decidable ((value : ℤ) = count + 1))
  | wait value => inferInstanceAs (Decidable ((value : ℤ) = count - 1))
  | get stored => inferInstanceAs (Decidable (stored = count ∧ 0 ≤ stored))

instance (count : ℤ) : (e : SemEffect) → Decidable (e.Fits count)
  | post _ => inferInstanceAs (Decidable (count ≠ 2 ^ 32 - 1))
  | wait _ => inferInstanceAs (Decidable True)
  | get _ => inferInstanceAs (Decidable (count < 2 ^ 31))

/-- What the code does to the value of a node. -/
def Happens (value : ℕ) : SemEffect → ℕ → Prop
  | post v, value' => v = (value + 1) % 2 ^ 32 ∧ value' = v
  | wait v, value' => value ≠ 0 ∧ v = value - 1 ∧ value' = v
  | get stored, value' => stored = Int.bmod value (2 ^ 32) ∧ value' = value

/-- What the code does to the value of a node with one call after another. -/
def Trace : ℕ → List SemEffect → ℕ → Prop
  | value, [], value' => value' = value
  | value, e :: es, value' => ∃ v, e.Happens value v ∧ Trace v es value'

lemma Trace.concat {value v value' : ℕ} {es : List SemEffect} {e : SemEffect}
    (h : Trace value es v) (he : e.Happens v value') : Trace value (es ++ [e]) value' := by
  induction es generalizing value with
  | nil =>
    obtain rfl : v = value := h
    exact ⟨value', he, rfl⟩
  | cons e' es ih =>
    obtain ⟨u, hu, h⟩ := h
    exact ⟨u, hu, ih h⟩

variable {value value' : ℕ} {e : SemEffect} {es : List SemEffect}

/-- The effect of one call is right exactly when the count fits, and then the value is the count
after it. -/
lemma Happens.counts_iff (h : e.Happens value value') (hvalue : value < 2 ^ 32) :
    value' < 2 ^ 32 ∧ (e.Counts value ↔ e.Fits value) ∧
      (e.Counts value → e.next value = value') := by
  cases e with
  | post v =>
    obtain ⟨hv, rfl⟩ := h
    refine ⟨by omega, ?_, fun hcounts ↦ Eq.symm hcounts⟩
    rw [Counts, Fits]
    omega
  | wait v =>
    obtain ⟨hpos, rfl, rfl⟩ := h
    have hsub : ((value - 1 : ℕ) : ℤ) = value - 1 := by omega
    exact ⟨by omega, iff_of_true hsub trivial, fun hcounts ↦ Eq.symm hcounts⟩
  | get stored =>
    obtain ⟨hstored, rfl⟩ := h
    refine ⟨hvalue, ?_, fun _ ↦ rfl⟩
    rw [Counts, Fits, hstored, Int.bmod_def]
    omega

/-- **A semaphore counts right exactly as long as its count fits.** -/
theorem along_counts_iff (h : Trace value es value') (hvalue : value < 2 ^ 32) :
    Runs.Along next Counts (value : ℤ) es ↔ Runs.Along next Fits (value : ℤ) es := by
  induction es generalizing value with
  | nil => exact Iff.rfl
  | cons e es ih =>
    obtain ⟨v, he, h⟩ := h
    obtain ⟨hv, hiff, hnext⟩ := he.counts_iff hvalue
    rw [Runs.Along, Runs.Along, ← hiff]
    refine and_congr_right fun hcounts ↦ ?_
    rw [hnext hcounts]
    exact ih h hv

end SemEffect

/-! ### The history of a run -/

/-- What a step does to the value of the node `n`. -/
def semEffect {ι : Type*} (n : ℕ) (_ : SemMemory ι) (p : SemPoint) (m' : SemMemory ι)
    (p' : SemPoint) : Option SemEffect :=
  match p, p' with
  | .increment k, _ => if k = n then some (.post (m'.node n).value) else none
  | .decrement k, _ => if k = n then some (.wait (m'.node n).value) else none
  | .read k, .unlock _ (some stored) => if k = n then some (.get stored) else none
  | _, _ => none

@[simp] lemma semEffect_decrement {ι : Type*} (n : ℕ) (m m' : SemMemory ι) (p' : SemPoint) :
    semEffect n m (.decrement n) m' p' = some (.wait (m'.node n).value) := if_pos rfl

@[simp] lemma semEffect_increment {ι : Type*} (n : ℕ) (m m' : SemMemory ι) (p' : SemPoint) :
    semEffect n m (.increment n) m' p' = some (.post (m'.node n).value) := if_pos rfl

@[simp] lemma semEffect_read {ι : Type*} (n k : ℕ) (m m' : SemMemory ι) (stored : ℤ) :
    semEffect n m (.read n) m' (.unlock k (some stored)) = some (.get stored) := if_pos rfl

/-- What a call that returns 0 has done. -/
def SemCall.Did : SemCall → Option ℤ → SemEffect → Prop
  | wait _, none, .wait _ => True
  | post _, none, .post _ => True
  | getvalue _ _, some value, .get stored => stored = value
  | _, _, _ => False

/-- What a call has recorded at a point. -/
def SemPoint.Records (call : SemCall) (records : List SemEffect) : SemPoint → Prop
  | setCount _ | signal _ => ∃ e, records = [e] ∧ call.Did none e
  | unlock _ value => ∃ e, records = [e] ∧ call.Did value e
  | returned (.ok value) => ∃ e, records = [e] ∧ call.Did value e
  | read _ => records = [] ∧ ∃ sem value, call = .getvalue sem value
  | _ => records = []

section

variable {ι : Type*} [DecidableEq ι] {call : ι → SemCall} {sem n v₀ : ℕ} {i : ι}
  {m m' : SemMemory ι} {p p' : SemPoint}

lemma semEffect_elsewhere (h : SemStep call i m p m' p') (hp : p.node? ≠ some n) :
    semEffect n m p m' p' = none := by
  cases h with
  | decrement | increment | read => exact if_neg fun hk ↦ hp (congrArg some hk)
  | _ => rfl

/-- A step of a call does what it records to the value of the node, and nothing else. -/
lemma SemStep.happens (h : SemStep call i m p m' p')
    (hdecrement : p = .decrement n → (m.node n).value ≠ 0) :
    (∃ e, semEffect n m p m' p' = some e ∧ e.Happens (m.node n).value (m'.node n).value) ∨
      semEffect n m p m' p' = none ∧ (m'.node n).value = (m.node n).value := by
  by_cases hp : p.node? = some n
  · cases h with
    | einval | find => exact absurd hp (by simp [SemPoint.node?])
    | decrement =>
      obtain rfl := Option.some.inj hp
      refine Or.inl ⟨_, semEffect_decrement .., hdecrement rfl, ?_, rfl⟩
      rw [SemMemory.node_modify_self]
    | increment =>
      obtain rfl := Option.some.inj hp
      refine Or.inl ⟨_, semEffect_increment .., ?_, rfl⟩
      rw [SemMemory.node_modify_self]
    | read =>
      obtain rfl := Option.some.inj hp
      exact Or.inl ⟨_, semEffect_read .., rfl, rfl⟩
    | lock | testZero | testPositive | condWait | wakeSpuriously | reacquire | setCount | signal |
      unlock =>
      obtain rfl := Option.some.inj hp
      exact Or.inr ⟨rfl, by simp⟩
  · rw [semEffect_elsewhere h hp, (h.elsewhere hp).2]
    exact Or.inr ⟨rfl, rfl⟩

variable {c₀ c : Config ι (SemMemory ι) SemPoint} {es : List (ι × SemEffect)}

/-- The history is what the code does to the value, one call after another. -/
lemma trace_of_recorded (h₀ : SemReached call sem n v₀ c₀)
    (hrun : (a2iSem call).Recorded (semEffect n) c₀ es c) :
    SemEffect.Trace (c₀.memory.node n).value (es.map Prod.snd) (c.memory.node n).value := by
  induction hrun with
  | start => rfl
  | @thread es c i m' p' hrun hstep ih =>
    have hreached := h₀.reaches hrun.reaches
    have hdecrement : c.point i = .decrement n → (c.memory.node n).value ≠ 0 := by
      intro hi
      have hknows := (hreached.protect.2 i (by rw [hi]; rfl)).2
      rw [hi] at hknows
      exact hknows.2
    rcases hstep.happens hdecrement with ⟨e, he, hhappens⟩ | ⟨he, hsame⟩
    · rw [he, List.map_append]
      exact ih.concat hhappens
    · rw [he, List.map_append]
      show SemEffect.Trace _ (es.map Prod.snd ++ []) (m'.node n).value
      rw [List.append_nil, hsame]
      exact ih
  | env _ hstep => exact hstep.elim

/-- A step of a call at its node keeps account of what the call has done. -/
lemma SemStep.records (h : SemStep call i m p m' p') (hA : SemAssertion call sem n m i p)
    (hsem : (call i).sem = sem) {records : List SemEffect} (hp : p.Records (call i) records) :
    p'.Records (call i) (records ++ (semEffect n m p m' p').toList) := by
  cases h with
  -- only a decrement, an increment and a read have an effect to record
  | einval | find | testZero | testPositive | condWait | wakeSpuriously | reacquire | signal |
    unlock =>
    rw [show Option.toList (semEffect n _ _ _ _) = [] from rfl, List.append_nil]
    exact hp
  | lock =>
    obtain rfl : records = [] := hp
    cases hcall : call i with
    | wait | post => rfl
    | getvalue a value => exact ⟨rfl, a, value, rfl⟩
  | @decrement k =>
    obtain rfl : records = [] := hp
    obtain ⟨a, hwait⟩ := hA.ofWait trivial
    obtain rfl : k = n := (hA.node k rfl).mpr hsem
    rw [semEffect_decrement, hwait]
    exact ⟨_, rfl, trivial⟩
  | @increment k =>
    obtain rfl : records = [] := hp
    obtain ⟨a, hpost⟩ := hA.ofPost trivial
    obtain rfl : k = n := (hA.node k rfl).mpr hsem
    rw [semEffect_increment, hpost]
    exact ⟨_, rfl, trivial⟩
  | setCount =>
    rw [show Option.toList (semEffect n _ _ _ _) = [] from rfl, List.append_nil]
    cases hcall : call i with
    | wait | post =>
      rw [hcall] at hp
      exact hp
    | getvalue =>
      rw [hcall] at hp
      obtain ⟨e, -, hdid⟩ := hp
      exact hdid.elim
  | @read k =>
    obtain ⟨rfl, a, value, hget⟩ := hp
    obtain rfl : k = n := (hA.node k rfl).mpr hsem
    rw [semEffect_read, hget]
    exact ⟨_, rfl, rfl⟩

/-- A call on the semaphore records what it does, and this once. -/
lemma records_of_recorded (h₀ : SemReached call sem n v₀ c₀) (hstart : ∀ i, c₀.point i = .start)
    (hrun : (a2iSem call).Recorded (semEffect n) c₀ es c) (hsem : (call i).sem = sem) :
    (c.point i).Records (call i) (Threads.recordsOf i es) := by
  induction hrun with
  | start =>
    rw [hstart i]
    rfl
  | @thread es c j m' p' hrun hstep ih =>
    show SemPoint.Records _ _ (Function.update c.point j p' i)
    by_cases hij : i = j
    · subst hij
      rw [Function.update_self, Threads.recordsOf_append_self]
      exact hstep.records ((h₀.reaches hrun.reaches).assertion i) hsem ih
    · rw [Function.update_of_ne hij, Threads.recordsOf_append_of_ne (Ne.symm hij)]
      exact ih
  | env _ hstep => exact hstep.elim

omit [DecidableEq ι] in
lemma value_of_a2iSemInit {pshared : ℤ}
    (hinit : m.a2iSemInit (some n) sem pshared v₀ = (.ok (), m')) : (m'.node n).value = v₀ := by
  rw [SemMemory.a2iSemInit] at hinit
  split at hinit
  · exact absurd (congrArg Prod.fst hinit) (by simp)
  dsimp only at hinit
  split at hinit
  · exact absurd (congrArg Prod.fst hinit) (by simp)
  · obtain rfl := (Prod.mk.inj hinit).2
    have hnode : (m.modify n fun _ ↦ ⟨Monitor.init, v₀, 0, 0⟩).node n = ⟨Monitor.init, v₀, 0, 0⟩ :=
      m.node_modify_self ..
    exact congrArg SemNode.value hnode

/-- **When a semaphore counts right.**  After a successful `a2i_sem_init`, in every run of calls on
semaphores: the calls change the count by their units and `a2i_sem_getvalue` stores it exactly as
long as no post finds the largest `unsigned` and no `a2i_sem_getvalue` a count that is not an `int`.
A call that returns 0 counts once, and one that fails does not. -/
theorem semaphore_counts_iff {pshared : ℤ} (hv₀ : v₀ < 2 ^ 32) (hfresh : ∀ a, (a, n) ∉ m.sems)
    (hinit : m.a2iSemInit (some n) sem pshared v₀ = (.ok (), m'))
    (hrun : (a2iSem call).Recorded (semEffect n) ⟨m', fun _ ↦ .start⟩ es c) :
    (Runs.Along SemEffect.next SemEffect.Counts (v₀ : ℤ) (es.map Prod.snd) ↔
      Runs.Along SemEffect.next SemEffect.Fits (v₀ : ℤ) (es.map Prod.snd)) ∧
    ∀ i, (call i).sem = sem →
      (∀ value, c.point i = .returned (.ok value) →
        ∃ e, Threads.recordsOf i es = [e] ∧ (call i).Did value e) ∧
      ∀ errno, c.point i = .returned (.error errno) → Threads.recordsOf i es = [] := by
  have hreached : SemReached call sem n v₀ ⟨m', fun _ ↦ .start⟩ :=
    semReached_of_a2iSemInit hfresh hinit
  have htrace := trace_of_recorded hreached hrun
  rw [value_of_a2iSemInit hinit] at htrace
  refine ⟨SemEffect.along_counts_iff htrace hv₀, fun i hi ↦ ?_⟩
  have hrecords := records_of_recorded hreached (fun _ ↦ rfl) hrun hi
  constructor
  · intro value hpoint
    rw [hpoint] at hrecords
    exact hrecords
  · intro errno hpoint
    rw [hpoint] at hrecords
    exact hrecords

end

/-! ### Runs -/

/-- The memory after the semaphore at 8 is initialized; its node is at 16. -/
def semMemoryAt (ι : Type) (value : ℕ) : SemMemory ι :=
  (SemMemory.a2iSemInit ⟨[], fun _ ↦ ⟨Monitor.init, 0, 0, 0⟩, fun _ ↦ 0⟩ (some 16) 8 0 value).2

/-- A wait, two posts and a call of `a2i_sem_getvalue` on the semaphore at 8. -/
def semCountedCalls (i : Fin 4) : SemCall :=
  if i = 0 then .wait 8 else if i = 3 then .getvalue 8 4 else .post 8

/-- The wait falls asleep on the value 0, and the first post wakes it; after the second post
`a2i_sem_getvalue` stores 1. -/
theorem semaphore_counts_calls : ∃ es c,
    (a2iSem semCountedCalls).Recorded (semEffect 16) ⟨semMemoryAt (Fin 4) 0, fun _ ↦ .start⟩ es c ∧
      es.map Prod.snd = [.post 1, .wait 0, .post 1, .get 1] ∧
      c.point 3 = .returned (.ok (some 1)) ∧
      Runs.Along SemEffect.next SemEffect.Counts 0 (es.map Prod.snd) ∧
      ∃ e, Threads.recordsOf 3 es = [e] ∧ (semCountedCalls 3).Did (some 1) e := by
  have hinit : SemMemory.a2iSemInit ⟨[], fun _ ↦ ⟨Monitor.init, 0, 0, 0⟩, fun _ ↦ 0⟩ (some 16) 8
      0 0 = (.ok (), semMemoryAt (Fin 4) 0) := rfl
  have hcall : ∀ i sem, semCountedCalls i ≠ .getvalue sem 0 := by
    intro i sem
    rw [semCountedCalls]
    split_ifs <;> simp
  have hstart : (a2iSem semCountedCalls).Recorded (semEffect 16)
      ⟨semMemoryAt (Fin 4) 0, fun _ ↦ .start⟩ [] ⟨semMemoryAt (Fin 4) 0, fun _ ↦ .start⟩ := .start
  have hfind := hstart.thread 0 (.find (n := 16) rfl (hcall 0))
  have hlock := hfind.thread 0 (.lock rfl)
  have htest := hlock.thread 0 (.testZero rfl)
  have hasleep := htest.thread 0 .condWait
  -- the first post
  have hfind₁ := hasleep.thread 1 (.find (n := 16) rfl (hcall 1))
  have hlock₁ := hfind₁.thread 1 (.lock rfl)
  have hincrement₁ := hlock₁.thread 1 .increment
  have hcount₁ := hincrement₁.thread 1 .setCount
  have hsignal₁ := hcount₁.thread 1 (.signal
    ⟨(by decide : ({0} : Finset (Fin 4)) ⊆ _), fun _ ↦ Finset.singleton_nonempty 0⟩)
  have hposted₁ := hsignal₁.thread 1 .unlock
  -- the wait goes on
  have hwakes := hposted₁.thread 0 (.reacquire (by decide) rfl)
  have hpositive := hwakes.thread 0 (.testPositive Nat.one_ne_zero)
  have hdecrement := hpositive.thread 0 .decrement
  have hcount := hdecrement.thread 0 .setCount
  have hwaited := hcount.thread 0 .unlock
  -- the second post
  have hfind₂ := hwaited.thread 2 (.find (n := 16) rfl (hcall 2))
  have hlock₂ := hfind₂.thread 2 (.lock rfl)
  have hincrement₂ := hlock₂.thread 2 .increment
  have hcount₂ := hincrement₂.thread 2 .setCount
  have hsignal₂ := hcount₂.thread 2 (.signal
    ⟨Finset.empty_subset _, fun h ↦ absurd h (by decide)⟩)
  have hposted₂ := hsignal₂.thread 2 .unlock
  -- the value is read
  have hfind₃ := hposted₂.thread 3 (.find (n := 16) rfl (hcall 3))
  have hlock₃ := hfind₃.thread 3 (.lock rfl)
  have hread := hlock₃.thread 3 .read
  have hgot := hread.thread 3 .unlock
  have hstored : Int.bmod (1 : ℕ) (2 ^ 32) = 1 := by decide
  have heffects := congrArg (fun v ↦ [SemEffect.post 1, .wait 0, .post 1, .get v]) hstored
  have hpoint := congrArg (fun v ↦ SemPoint.returned (.ok (some v))) hstored
  obtain ⟨hiff, hcalls⟩ :=
    semaphore_counts_iff (by decide) (fun _ ↦ List.not_mem_nil) hinit hgot
  have hfits : Runs.Along SemEffect.next SemEffect.Fits 0 [.post 1, .wait 0, .post 1, .get 1] := by
    decide
  rw [← heffects] at hfits
  exact ⟨_, _, hgot, heffects, hpoint, hiff.mpr hfits, (hcalls 3 rfl).1 (some 1) hpoint⟩

/-- A post on the semaphore at 8. -/
def semCallAt8 : Unit → SemCall := fun _ ↦ .post 8

/-- A post alone. -/
lemma recorded_post (value : ℕ) : ∃ m, (a2iSem semCallAt8).Recorded (semEffect 16)
    ⟨semMemoryAt Unit value, fun _ ↦ .start⟩ [((), .post ((value + 1) % 2 ^ 32))]
    ⟨m, fun _ ↦ .returned (.ok none)⟩ := by
  have hstart : (a2iSem semCallAt8).Recorded (semEffect 16) ⟨semMemoryAt Unit value, fun _ ↦ .start⟩ []
      ⟨semMemoryAt Unit value, fun _ ↦ .start⟩ := .start
  have hfind := hstart.tail_alone () (SemStep.find (n := 16) rfl nofun)
  have hlock := hfind.tail_alone () (SemStep.lock rfl)
  have hincrement := hlock.tail_alone () SemStep.increment
  have hcount := hincrement.tail_alone () SemStep.setCount
  have hnobody : (Monitor.init : Monitor Unit).Signals ∅ := ⟨Finset.empty_subset _, id⟩
  have hsignal := hcount.tail_alone () (SemStep.signal hnobody)
  exact ⟨_, hsignal.tail_alone () SemStep.unlock⟩

/-- A call of `a2i_sem_getvalue` on the semaphore at 8. -/
def semGetvalueAt8 : Unit → SemCall := fun _ ↦ .getvalue 8 4

/-- A call of `a2i_sem_getvalue` alone. -/
lemma recorded_getvalue (value : ℕ) : ∃ m, (a2iSem semGetvalueAt8).Recorded (semEffect 16)
    ⟨semMemoryAt Unit value, fun _ ↦ .start⟩ [((), .get (Int.bmod value (2 ^ 32)))]
    ⟨m, fun _ ↦ .returned (.ok (some (Int.bmod value (2 ^ 32))))⟩ := by
  have hstart : (a2iSem semGetvalueAt8).Recorded (semEffect 16)
      ⟨semMemoryAt Unit value, fun _ ↦ .start⟩ [] ⟨semMemoryAt Unit value, fun _ ↦ .start⟩ := .start
  have hpointer : ∀ sem, semGetvalueAt8 () ≠ .getvalue sem 0 := by
    intro sem h
    exact absurd (SemCall.getvalue.inj h).2 (by decide)
  have hfind := hstart.tail_alone () (SemStep.find (n := 16) rfl hpointer)
  have hlock := hfind.tail_alone () (SemStep.lock rfl)
  have hread := hlock.tail_alone () SemStep.read
  exact ⟨_, hread.tail_alone () SemStep.unlock⟩

/-- A post on the largest `unsigned` returns 0 and leaves 0, and `a2i_sem_getvalue` stores a count
of `2 ^ 31` as a negative number. -/
theorem semaphore_counts_extremes :
    (∃ m, (a2iSem semCallAt8).Recorded (semEffect 16)
        ⟨semMemoryAt Unit (2 ^ 32 - 1), fun _ ↦ .start⟩ [((), .post 0)]
        ⟨m, fun _ ↦ .returned (.ok none)⟩) ∧
      ¬Runs.Along SemEffect.next SemEffect.Counts (2 ^ 32 - 1) [.post 0] ∧
    (∃ m, (a2iSem semGetvalueAt8).Recorded (semEffect 16)
        ⟨semMemoryAt Unit (2 ^ 31), fun _ ↦ .start⟩ [((), .get (-2147483648))]
        ⟨m, fun _ ↦ .returned (.ok (some (-2147483648)))⟩) ∧
      ¬Runs.Along SemEffect.next SemEffect.Counts (2 ^ 31) [.get (-2147483648)] := by
  refine ⟨recorded_post (2 ^ 32 - 1), ?_, recorded_getvalue (2 ^ 31), ?_⟩
  · decide
  · decide

end Apk2Ios
