import Mathlib.Algebra.Group.Nat.Defs
import Mathlib.Data.Int.Init
import Mathlib.Data.Finset.Card
import Apk2Ios.Errors
import Apk2Ios.Lib.Monitor
import Apk2Ios.Lib.Threads

/-!
# The shim: semaphores

`a2i_sem_init`, `a2i_sem_wait`, `a2i_sem_post` and `a2i_sem_getvalue` of `posix_compat.c`.  A
semaphore of Android is emulated by a node with a mutex, a condition variable and the value;
the nodes are in a list that is searched by address.
-/

namespace Apk2Ios

open Lib

/-- `a2i_sem_node`, without its address.  The two counters at the end are not in the code:
they count the writes to `value`. -/
structure SemNode (ι : Type*) where
  monitor : Monitor ι
  value : ℕ
  increments : ℕ
  decrements : ℕ

/-- The list `g_sems` of addresses and nodes, the nodes, and the field `count` of every
`a2i_android_sem_t`. -/
structure SemMemory (ι : Type*) where
  sems : List (ℕ × ℕ)
  node : ℕ → SemNode ι
  count : ℕ → ℕ

namespace SemMemory

variable {ι : Type*} (m : SemMemory ι)

/-- `a2i_get_sem`, with the search `a2i_find_sem_locked`. -/
def getSem (sem : ℕ) : Option ℕ := if sem = 0 then none else m.sems.lookup sem

/-- Change one node. -/
def modify (n : ℕ) (f : SemNode ι → SemNode ι) : SemMemory ι :=
  { m with node := Function.update m.node n (f (m.node n)) }

/-- Change the mutex or the condition variable of a node. -/
def monitor (n : ℕ) (f : Monitor ι → Monitor ι) : SemMemory ι :=
  m.modify n fun node => { node with monitor := f node.monitor }

/-- `a2i_sem_init`, from what `calloc` returns. -/
def a2iSemInit (calloc : Option ℕ) (sem : ℕ) (pshared : ℤ) (value : ℕ) :
    Except Errno Unit × SemMemory ι :=
  if sem = 0 ∨ pshared ≠ 0 then (.error (if pshared ≠ 0 then .ENOSYS else .EINVAL), m)
  else
    match calloc with
    | none => (.error .ENOMEM, m)
    | some n =>
      let m' := m.modify n fun _ => ⟨Monitor.init, value, 0, 0⟩
      if (m.sems.lookup sem).isSome then (.error .EBUSY, m')
      else
        (.ok (), { m' with
          sems := (sem, n) :: m.sems
          count := Function.update m.count sem value })

end SemMemory

/-- The calls on semaphores; the pointer of `a2i_sem_getvalue` can be `NULL`. -/
inductive SemCall where
  | wait (sem : ℕ)
  | post (sem : ℕ)
  | getvalue (sem value : ℕ)
deriving DecidableEq, Repr

/-- The semaphore of a call. -/
def SemCall.sem : SemCall → ℕ
  | wait sem => sem
  | post sem => sem
  | getvalue sem _ => sem

/-- The points of the three functions; `n` is the local variable `node`. -/
inductive SemPoint where
  | start
  | lock (n : ℕ)
  | test (n : ℕ)
  | condWait (n : ℕ)
  | asleep (n : ℕ)
  | decrement (n : ℕ)
  | increment (n : ℕ)
  | setCount (n : ℕ)
  | signal (n : ℕ)
  | read (n : ℕ)
  | unlock (n : ℕ) (value : Option ℤ)
  | returned (rc : Except Errno (Option ℤ))

/-- The first point after the mutex is locked. -/
def SemCall.body (n : ℕ) : SemCall → SemPoint
  | wait _ => .test n
  | post _ => .increment n
  | getvalue _ _ => .read n

/-- The point after `sem->count` is set. -/
def SemCall.afterCount (n : ℕ) : SemCall → SemPoint
  | post _ => .signal n
  | _ => .unlock n none

section

variable {ι : Type*} [DecidableEq ι]

/-- The atomic steps of the call `i`.  A call that returns 0 carries the integer that
`a2i_sem_getvalue` stores. -/
inductive SemStep (call : ι → SemCall) (i : ι) :
    SemMemory ι → SemPoint → SemMemory ι → SemPoint → Prop
  | einval {m} : m.getSem (call i).sem = none ∨ (∃ sem, call i = .getvalue sem 0) →
      SemStep call i m .start m (.returned (.error .EINVAL))
  | find {m n} : m.getSem (call i).sem = some n → (∀ sem, call i ≠ .getvalue sem 0) →
      SemStep call i m .start m (.lock n)
  | lock {m n} : (m.node n).monitor.owner = none →
      SemStep call i m (.lock n) (m.monitor n (·.lock i)) ((call i).body n)
  | testZero {m n} : (m.node n).value = 0 → SemStep call i m (.test n) m (.condWait n)
  | testPositive {m n} : (m.node n).value ≠ 0 → SemStep call i m (.test n) m (.decrement n)
  | condWait {m n} : SemStep call i m (.condWait n) (m.monitor n (·.sleep i)) (.asleep n)
  | wakeSpuriously {m n} : i ∈ (m.node n).monitor.sleepers →
      SemStep call i m (.asleep n) (m.monitor n (·.wake {i})) (.asleep n)
  -- `pthread_cond_wait` returns with the mutex
  | reacquire {m n} : i ∉ (m.node n).monitor.sleepers → (m.node n).monitor.owner = none →
      SemStep call i m (.asleep n) (m.monitor n (·.lock i)) (.test n)
  | decrement {m n} :
      SemStep call i m (.decrement n)
        (m.modify n fun node =>
          { node with value := node.value - 1, decrements := node.decrements + 1 })
        (.setCount n)
  | increment {m n} :
      SemStep call i m (.increment n)
        (m.modify n fun node =>
          { node with value := (node.value + 1) % 2 ^ 32, increments := node.increments + 1 })
        (.setCount n)
  | setCount {m n} :
      SemStep call i m (.setCount n)
        { m with count := Function.update m.count (call i).sem (m.node n).value }
        ((call i).afterCount n)
  | signal {m n woken} : (m.node n).monitor.Signals woken →
      SemStep call i m (.signal n) (m.monitor n (·.wake woken)) (.unlock n none)
  | read {m n} :
      SemStep call i m (.read n) m (.unlock n (some (Int.bmod (m.node n).value (2 ^ 32))))
  | unlock {m n value} :
      SemStep call i m (.unlock n value) (m.monitor n (·.unlock)) (.returned (.ok value))

/-- Any number of calls on semaphores. -/
def a2iSem (call : ι → SemCall) : Threads ι (SemMemory ι) SemPoint where
  thread := SemStep call
  env _ _ := False

end

/-! ### Changing memory -/

namespace SemMemory

variable {ι : Type*} (m : SemMemory ι) (n k sem : ℕ) (f : SemNode ι → SemNode ι)
  (g : Monitor ι → Monitor ι)

@[simp] lemma getSem_modify : (m.modify n f).getSem sem = m.getSem sem := rfl

@[simp] lemma count_modify : (m.modify n f).count = m.count := rfl

@[simp] lemma node_modify_self : (m.modify n f).node n = f (m.node n) := Function.update_self ..

lemma node_modify_of_ne (h : k ≠ n) : (m.modify k f).node n = m.node n :=
  Function.update_of_ne h.symm ..

@[simp] lemma getSem_monitor : (m.monitor n g).getSem sem = m.getSem sem := rfl

@[simp] lemma count_monitor : (m.monitor n g).count = m.count := rfl

@[simp] lemma node_monitor_self :
    (m.monitor n g).node n = { m.node n with monitor := g (m.node n).monitor } :=
  node_modify_self ..

lemma node_monitor_of_ne (h : k ≠ n) : (m.monitor k g).node n = m.node n :=
  node_modify_of_ne _ _ _ _ h

end SemMemory

/-! ### The critical section -/

/-- What the mutex of a node protects: the value with its counters, and the count that the
Android semaphore shows. -/
structure SemData where
  value : ℕ
  increments : ℕ
  decrements : ℕ
  count : ℕ

/-- What the mutex of the node `n` of the semaphore `sem` protects. -/
def SemMemory.data {ι : Type*} (n sem : ℕ) (m : SemMemory ι) : SemData :=
  ⟨(m.node n).value, (m.node n).increments, (m.node n).decrements, m.count sem⟩

/-- The owner of the mutex of a node. -/
def SemMemory.owner {ι : Type*} (n : ℕ) (m : SemMemory ι) : Option ι := (m.node n).monitor.owner

@[simp] lemma SemMemory.owner_monitor_self {ι : Type*} (m : SemMemory ι) (n : ℕ)
    (g : Monitor ι → Monitor ι) : (m.monitor n g).owner n = (g (m.node n).monitor).owner := by
  rw [owner, node_monitor_self]

@[simp] lemma SemMemory.data_monitor {ι : Type*} (m : SemMemory ι) (n k sem : ℕ)
    (g : Monitor ι → Monitor ι) : (m.monitor k g).data n sem = m.data n sem := by
  by_cases h : k = n
  · subst h
    rw [data, node_monitor_self]
    rfl
  · rw [data, node_monitor_of_ne _ _ _ _ h]
    rfl

namespace SemData

/-- The value is the initial value with every increment and decrement, as long as the
increments do not wrap around. -/
def Conserved (v₀ : ℕ) (d : SemData) : Prop :=
  v₀ + d.increments < 2 ^ 32 → d.value + d.decrements = v₀ + d.increments

/-- The value is conserved and the Android semaphore shows it. -/
def Settled (v₀ : ℕ) (d : SemData) : Prop := d.Conserved v₀ ∧ d.count = d.value

end SemData

namespace SemPoint

/-- The local variable `node`. -/
def node? : SemPoint → Option ℕ
  | start | returned _ => none
  | lock k | test k | condWait k | asleep k | decrement k | increment k | setCount k | signal k
  | read k | unlock k _ => some k

/-- The point is in the critical section of the node. -/
def Critical (n : ℕ) : SemPoint → Prop
  | test k | condWait k | decrement k | increment k | setCount k | signal k | read k
  | unlock k _ => k = n
  | _ => False

/-- What the owner of the mutex knows at a point. -/
def Knows (v₀ : ℕ) : SemPoint → SemData → Prop
  | condWait _, d => d.Settled v₀ ∧ d.value = 0
  | decrement _, d => d.Settled v₀ ∧ d.value ≠ 0
  | setCount _, d => d.Conserved v₀
  | _, d => d.Settled v₀

end SemPoint

namespace SemCall

variable (call : SemCall) (n k v₀ : ℕ) (d : SemData)

lemma critical_body : (call.body k).Critical n ↔ k = n := by cases call <;> rfl

lemma knows_body : (call.body k).Knows v₀ d ↔ d.Settled v₀ := by cases call <;> rfl

lemma critical_afterCount : (call.afterCount k).Critical n ↔ k = n := by cases call <;> rfl

lemma knows_afterCount : (call.afterCount k).Knows v₀ d ↔ d.Settled v₀ := by
  cases call <;> rfl

end SemCall

section

variable {ι : Type*} [DecidableEq ι] {call : ι → SemCall} {sem n v₀ : ℕ} {i j : ι}
  {m m' : SemMemory ι} {p p' q : SemPoint}

/-- A step at another node leaves this one alone. -/
lemma SemStep.elsewhere (h : SemStep call i m p m' p') (hp : p.node? ≠ some n) :
    ¬ p'.Critical n ∧ m'.node n = m.node n := by
  have hne : ∀ k, p.node? = some k → k ≠ n := fun k hk hkn => hp (hk.trans (congrArg some hkn))
  cases h with
  | einval | find => exact ⟨id, rfl⟩
  | @lock k =>
    exact ⟨mt (SemCall.critical_body ..).mp (hne k rfl),
      SemMemory.node_monitor_of_ne _ _ _ _ (hne k rfl)⟩
  | @testZero k | @testPositive k | @read k => exact ⟨hne k rfl, rfl⟩
  | @condWait k | @wakeSpuriously k | @unlock k =>
    exact ⟨id, SemMemory.node_monitor_of_ne _ _ _ _ (hne k rfl)⟩
  | @reacquire k | @signal k =>
    exact ⟨hne k rfl, SemMemory.node_monitor_of_ne _ _ _ _ (hne k rfl)⟩
  | @decrement k | @increment k =>
    exact ⟨hne k rfl, SemMemory.node_modify_of_ne _ _ _ _ (hne k rfl)⟩
  | @setCount k => exact ⟨mt (SemCall.critical_afterCount ..).mp (hne k rfl), rfl⟩

/-- A call writes the count of its own semaphore only. -/
lemma SemStep.count_eq (h : SemStep call i m p m' p')
    (hsem : p.node? = none ∨ (call i).sem ≠ sem) : m'.count sem = m.count sem := by
  cases h with
  | setCount =>
    rcases hsem with hnone | hne
    · exact nomatch hnone
    · exact Function.update_of_ne hne.symm ..
  | _ => rfl

/-- Every step is outside the critical section of the node, enters it, stays in it or leaves
it, and keeps what its mutex protects. -/
lemma SemStep.critical (h : SemStep call i m p m' p')
    (hnode : ∀ k, p.node? = some k → (k = n ↔ (call i).sem = sem)) :
    CriticalStep (SemMemory.owner n) (SemMemory.data n sem) (SemPoint.Critical n)
      (SemData.Settled v₀) (fun _ => SemPoint.Knows v₀) i m p m' p' := by
  -- a step at another node leaves this one as it is, and cannot touch its count
  by_cases hp : p.node? = some n
  · have hsem : (call i).sem = sem := (hnode n hp).mp rfl
    cases h with
    | einval | find => exact absurd hp (by simp [SemPoint.node?])
    | @lock k ho =>
      obtain rfl := Option.some.inj hp
      exact .enter ho (m.owner_monitor_self ..) (m.data_monitor ..)
        (SemCall.knows_body ..).mpr
    | testZero hv =>
      obtain rfl := Option.some.inj hp
      exact .within rfl rfl fun hK => ⟨hK, hv⟩
    | testPositive hv =>
      obtain rfl := Option.some.inj hp
      exact .within rfl rfl fun hK => ⟨hK, hv⟩
    -- `pthread_cond_wait` gives the mutex back, so the sum must be restored here
    | condWait =>
      obtain rfl := Option.some.inj hp
      refine .leave rfl id (m.owner_monitor_self ..) fun hK => ?_
      rw [m.data_monitor]
      exact hK.1
    | wakeSpuriously =>
      obtain rfl := Option.some.inj hp
      exact .outside id (m.owner_monitor_self ..) (m.data_monitor ..)
    | reacquire _ ho =>
      obtain rfl := Option.some.inj hp
      exact .enter ho (m.owner_monitor_self ..) (m.data_monitor ..) id
    | decrement =>
      obtain rfl := Option.some.inj hp
      refine .within rfl (by simp [SemMemory.owner]) fun ⟨⟨hcons, _⟩, hpos⟩ hlt => ?_
      have hsum := hcons (by simpa [SemMemory.data] using hlt)
      simp only [SemMemory.data, SemMemory.node_modify_self] at hsum hpos ⊢
      omega
    -- the value wraps around at `2 ^ 32`, and is conserved only below this bound
    | increment =>
      obtain rfl := Option.some.inj hp
      refine .within rfl (by simp [SemMemory.owner]) fun ⟨hcons, _⟩ hlt => ?_
      simp only [SemData.Conserved, SemMemory.data, SemMemory.node_modify_self] at hcons hlt ⊢
      have hsum := hcons (by omega)
      rw [Nat.mod_eq_of_lt (by omega)]
      omega
    | @setCount k =>
      obtain rfl := Option.some.inj hp
      refine .within rfl rfl fun hK => (SemCall.knows_afterCount ..).mpr ⟨hK, ?_⟩
      rw [hsem]
      exact Function.update_self ..
    | signal =>
      obtain rfl := Option.some.inj hp
      refine .within rfl (m.owner_monitor_self ..) fun hK => ?_
      rw [m.data_monitor]
      exact hK
    | read =>
      obtain rfl := Option.some.inj hp
      exact .within rfl rfl id
    | unlock =>
      obtain rfl := Option.some.inj hp
      refine .leave rfl id (m.owner_monitor_self ..) fun hK => ?_
      rw [m.data_monitor]
      exact hK
  · have hother : p.node? = none ∨ (call i).sem ≠ sem := by
      cases hk : p.node? with
      | none => exact Or.inl rfl
      | some k => exact Or.inr fun hs => hp (hk.trans (congrArg some ((hnode k hk).mpr hs)))
    obtain ⟨hout, hn⟩ := h.elsewhere hp
    refine .outside hout (congrArg (·.monitor.owner) hn) ?_
    rw [SemMemory.data, hn, h.count_eq hother]
    rfl

/-! ### Sleepers -/

/-- The points of `a2i_sem_wait` only. -/
def SemPoint.OfWait : SemPoint → Prop
  | test _ | condWait _ | asleep _ | decrement _ => True
  | _ => False

/-- The points of `a2i_sem_post` only. -/
def SemPoint.OfPost : SemPoint → Prop
  | increment _ | signal _ => True
  | _ => False

/-- What is known of a call at a point, inside the critical section or not. -/
structure SemAssertion (call : ι → SemCall) (sem n : ℕ) (m : SemMemory ι) (i : ι)
    (p : SemPoint) : Prop where
  node : ∀ k, p.node? = some k → (k = n ↔ (call i).sem = sem)
  asleep : i ∈ (m.node n).monitor.sleepers → p = .asleep n
  ofWait : p.OfWait → ∃ a, call i = .wait a
  ofPost : p.OfPost → ∃ a, call i = .post a

/-- A call gets its node from the list. -/
lemma SemStep.node?_eq (h : SemStep call i m p m' p') {k : ℕ} (hk : p'.node? = some k) :
    p.node? = some k ∨ m.getSem (call i).sem = some k := by
  cases h with
  | lock | setCount => cases hc : call i <;> rw [hc] at hk <;> exact Or.inl hk
  | find hfind => exact Or.inr (hfind.trans hk)
  | _ => first | exact Or.inl hk | exact nomatch hk

lemma SemStep.ofWait (h : SemStep call i m p m' p') (hp' : p'.OfWait) :
    p.OfWait ∨ ∃ a, call i = .wait a := by
  cases h with
  | lock => cases hc : call i <;> rw [hc] at hp' <;> first | exact hp'.elim | exact Or.inr ⟨_, rfl⟩
  | setCount => cases hc : call i <;> rw [hc] at hp' <;> exact hp'.elim
  | _ => first | exact hp'.elim | exact Or.inl trivial

lemma SemStep.ofPost (h : SemStep call i m p m' p') (hp' : p'.OfPost) :
    p.OfPost ∨ ∃ a, call i = .post a := by
  cases h with
  | lock | setCount =>
    cases hc : call i <;> rw [hc] at hp' <;> first | exact hp'.elim | exact Or.inr ⟨_, rfl⟩
  | increment | signal => exact Or.inl trivial
  | _ => exact hp'.elim

/-- The list does not change. -/
lemma SemStep.getSem (h : SemStep call i m p m' p') (a : ℕ) : m'.getSem a = m.getSem a := by
  cases h <;> rfl

/-- Only the call itself becomes a sleeper, at the point where it is asleep. -/
lemma SemStep.sleepers (h : SemStep call i m p m' p')
    (hj : j ∈ (m'.node n).monitor.sleepers) :
    (j ∈ (m.node n).monitor.sleepers ∧ (p = .asleep n → j ≠ i)) ∨ j = i ∧ p' = .asleep n := by
  by_cases hp : p.node? = some n
  · cases h with
    | einval | find => exact nomatch hp
    | lock | unlock =>
      obtain rfl := Option.some.inj hp
      rw [SemMemory.node_monitor_self] at hj
      exact Or.inl ⟨hj, fun h => nomatch h⟩
    | testZero | testPositive | setCount | read =>
      obtain rfl := Option.some.inj hp
      exact Or.inl ⟨hj, fun h => nomatch h⟩
    -- the only step that puts a thread to sleep
    | condWait =>
      obtain rfl := Option.some.inj hp
      rw [SemMemory.node_monitor_self] at hj
      rcases Finset.mem_insert.mp hj with rfl | hj
      · exact Or.inr ⟨rfl, rfl⟩
      · exact Or.inl ⟨hj, fun h => nomatch h⟩
    | wakeSpuriously =>
      obtain rfl := Option.some.inj hp
      rw [SemMemory.node_monitor_self] at hj
      have hj := Finset.mem_sdiff.mp hj
      exact Or.inl ⟨hj.1, fun _ => mt Finset.mem_singleton.mpr hj.2⟩
    | reacquire hi =>
      obtain rfl := Option.some.inj hp
      rw [SemMemory.node_monitor_self] at hj
      exact Or.inl ⟨hj, fun _ hji => hi (hji ▸ hj)⟩
    | decrement | increment =>
      obtain rfl := Option.some.inj hp
      rw [SemMemory.node_modify_self] at hj
      exact Or.inl ⟨hj, fun h => nomatch h⟩
    | signal =>
      obtain rfl := Option.some.inj hp
      rw [SemMemory.node_monitor_self] at hj
      exact Or.inl ⟨(Finset.mem_sdiff.mp hj).1, fun h => nomatch h⟩
  · rw [(h.elsewhere hp).2] at hj
    exact Or.inl ⟨hj, fun h => absurd (congrArg SemPoint.node? h) hp⟩

/-- The assertions of calls on a semaphore in the list. -/
lemma semOutline (call : ι → SemCall) (sem n : ℕ) :
    (a2iSem call).Outline (fun m => ∀ a, m.getSem a = some n ↔ a = sem)
      (SemAssertion call sem n) where
  own i m p m' p' h hG hA := by
    refine ⟨fun a => h.getSem a ▸ hG a, fun k hk => ?_, fun hi => ?_, fun hp' => ?_, fun hp' => ?_⟩
    · rcases h.node?_eq hk with hk | hk
      · exact hA.node k hk
      · rw [← hG (call i).sem, hk, Option.some.injEq]
    · rcases h.sleepers hi with ⟨hi, hne⟩ | ⟨-, hp'⟩
      · exact absurd rfl (hne (hA.asleep hi))
      · exact hp'
    · exact (h.ofWait hp').elim hA.ofWait id
    · exact (h.ofPost hp').elim hA.ofPost id
  others i j m p m' p' q hij h _ _ hA := by
    refine ⟨hA.node, fun hj => ?_, hA.ofWait, hA.ofPost⟩
    rcases h.sleepers hj with ⟨hj, -⟩ | ⟨hji, -⟩
    · exact hA.asleep hj
    · exact absurd hji.symm hij
  env _ _ h := h.elim

/-! ### No post is lost -/

/-- The call is awake in `a2i_sem_wait` and has yet to test the value. -/
def SemPoint.ToTest (n : ℕ) (sleepers : Finset ι) (i : ι) : SemPoint → Prop
  | lock k | test k => k = n
  | asleep k => k = n ∧ i ∉ sleepers
  | _ => False

/-- The call is awake in `a2i_sem_wait` and has not taken its unit. -/
def SemPoint.Pending (n : ℕ) (sleepers : Finset ι) (i : ι) (p : SemPoint) : Prop :=
  p.ToTest n sleepers i ∨ p = .decrement n

/-- The call has incremented the value and has yet to signal. -/
def SemPoint.Posted (call : SemCall) (n : ℕ) : SemPoint → Prop
  | setCount k => k = n ∧ ∃ a, call = .post a
  | signal k => k = n
  | _ => False

/-- When somebody sleeps, there is a pending call for every unit, except for one that is about
to be signalled. -/
def NoLostPost (call : ι → SemCall) (n : ℕ) (c : Config ι (SemMemory ι) SemPoint) : Prop :=
  (c.memory.node n).monitor.sleepers.Nonempty → ∃ pending : Finset ι,
    (∀ i ∈ pending, (∃ a, call i = .wait a) ∧
      (c.point i).Pending n (c.memory.node n).monitor.sleepers i) ∧
    ((c.memory.node n).value ≤ pending.card ∨
      (c.memory.node n).value ≤ pending.card + 1 ∧ ∃ j, (c.point j).Posted (call j) n)

variable {c : Config ι (SemMemory ι) SemPoint}

omit [DecidableEq ι] in
lemma SemPoint.Pending.mono {s s' : Finset ι} (h : p.Pending n s i) (hs : i ∈ s' → i ∈ s) :
    p.Pending n s' i := by
  rcases h with h | h
  · left
    cases p with
    | asleep => exact ⟨h.1, mt hs h.2⟩
    | lock | test => exact h
    | _ => exact h.elim
  · exact Or.inr h

omit [DecidableEq ι] in
lemma SemPoint.Pending.node?_eq {s : Finset ι} (h : p.Pending n s i) : p.node? = some n := by
  rcases h with h | rfl
  · cases p with
    | lock | test => exact congrArg some h
    | asleep => exact congrArg some h.1
    | _ => exact h.elim
  · rfl

lemma SemPoint.Posted.node?_eq {k : SemCall} (h : p.Posted k n) : p.node? = some n := by
  cases p with
  | setCount => exact congrArg some h.1
  | signal => exact congrArg some h
  | _ => exact h.elim

lemma SemPoint.Posted.critical {k : SemCall} (h : p.Posted k n) : p.Critical n := by
  cases p with
  | setCount => exact h.1
  | signal => exact h
  | _ => exact h.elim

/-- A step that keeps the value and adds no sleeper loses no post, if its own call stays
pending or posted. -/
lemma NoLostPost.frame (hc : NoLostPost call n c) (i : ι) (m' : SemMemory ι) (p' : SemPoint)
    (hvalue : (m'.node n).value = (c.memory.node n).value)
    (hsleep : (m'.node n).monitor.sleepers ⊆ (c.memory.node n).monitor.sleepers)
    (hpending : (∃ a, call i = .wait a) →
      (c.point i).Pending n (c.memory.node n).monitor.sleepers i →
        p'.Pending n (m'.node n).monitor.sleepers i)
    (hposted : (c.point i).Posted (call i) n → p'.Posted (call i) n) :
    NoLostPost call n ⟨m', Function.update c.point i p'⟩ := by
  intro hne
  obtain ⟨pending, hmem, hle⟩ := hc (hne.mono hsleep)
  refine ⟨pending, fun j hj => ⟨(hmem j hj).1, ?_⟩, ?_⟩
  · show SemPoint.Pending n (m'.node n).monitor.sleepers j (Function.update c.point i p' j)
    by_cases hji : j = i
    · subst hji
      rw [Function.update_self]
      exact hpending (hmem j hj).1 (hmem j hj).2
    · rw [Function.update_of_ne hji]
      exact (hmem j hj).2.mono fun h => hsleep h
  · show (m'.node n).value ≤ _ ∨ (m'.node n).value ≤ _ ∧ ∃ j, _
    rw [hvalue]
    refine hle.imp_right fun ⟨hle, j, hj⟩ => ⟨hle, j, ?_⟩
    show SemPoint.Posted (call j) n (Function.update c.point i p' j)
    -- only thread `i` has moved
    by_cases hji : j = i
    · subst hji
      rw [Function.update_self]
      exact hposted hj
    · rwa [Function.update_of_ne hji]

omit [DecidableEq ι] in
/-- No unit is left to test when the value is zero. -/
lemma NoLostPost.of_value_eq_zero (h : (c.memory.node n).value = 0) : NoLostPost call n c :=
  fun _ => ⟨∅, by simp, Or.inl (by simp [h])⟩

/-- The pending calls and the value after a step that takes a unit. -/
lemma NoLostPost.decrement {k : ℕ} (hc : NoLostPost call k c)
    (hp : c.point i = .decrement k) (p' : SemPoint) (f : SemNode ι → SemNode ι)
    (hf : ∀ node, (f node).monitor = node.monitor ∧ (f node).value = node.value - 1) :
    NoLostPost call k ⟨c.memory.modify k f, Function.update c.point i p'⟩ := by
  intro hne
  simp only [SemMemory.node_modify_self, hf] at hne ⊢
  obtain ⟨pending, hmem, hle⟩ := hc hne
  refine ⟨pending.erase i, fun j hj => ?_, ?_⟩
  · obtain ⟨hji, hj⟩ := Finset.mem_erase.mp hj
    rw [Function.update_of_ne hji]
    exact hmem j hj
  · have hcard := Finset.pred_card_le_card_erase (s := pending) (a := i)
    refine hle.imp (fun h => by omega) fun ⟨h, j, hj⟩ => ⟨by omega, j, ?_⟩
    have hji : j ≠ i := by
      rintro rfl
      rw [hp] at hj
      exact hj
    rwa [Function.update_of_ne hji]

/-- The pending calls and the value after a post adds a unit. -/
lemma NoLostPost.increment {k : ℕ} (hc : NoLostPost call k c)
    (hothers : ∀ j, ¬ (c.point j).Posted (call j) k) (hp : c.point i = .increment k)
    (hpost : ∃ a, call i = .post a) (f : SemNode ι → SemNode ι)
    (hf : ∀ node, (f node).monitor = node.monitor ∧ (f node).value ≤ node.value + 1) :
    NoLostPost call k ⟨c.memory.modify k f, Function.update c.point i (.setCount k)⟩ := by
  intro hne
  simp only [SemMemory.node_modify_self, hf] at hne ⊢
  obtain ⟨pending, hmem, hle⟩ := hc hne
  refine ⟨pending, fun j hj => ?_, Or.inr ⟨?_, i, ?_⟩⟩
  · have hji : j ≠ i := by
      rintro rfl
      have hpend := (hmem j hj).2
      rw [hp] at hpend
      rcases hpend with h | h
      · exact h
      · exact nomatch h
    rw [Function.update_of_ne hji]
    exact hmem j hj
  · have hvalue := (hf (c.memory.node k)).2
    rcases hle with h | ⟨-, j, hj⟩
    · omega
    · exact absurd hj (hothers j)
  · rw [Function.update_self]
    exact ⟨rfl, hpost⟩

/-- The signal of a post makes a sleeper pending. -/
lemma NoLostPost.signal {k : ℕ} (hc : NoLostPost call k c)
    (hA : ∀ i, SemAssertion call sem k c.memory i (c.point i)) (hp : c.point i = .signal k)
    {woken : Finset ι} (hwoken : (c.memory.node k).monitor.Signals woken) :
    NoLostPost call k
      ⟨c.memory.monitor k (·.wake woken), Function.update c.point i (.unlock k none)⟩ := by
  intro hne
  simp only [SemMemory.node_monitor_self, Monitor.sleepers_wake] at hne ⊢
  have hsleep : (c.memory.node k).monitor.sleepers.Nonempty := hne.mono Finset.sdiff_subset
  obtain ⟨pending, hmem, hle⟩ := hc hsleep
  have hasleep : ∀ j ∈ woken, c.point j = .asleep k := fun j hj => (hA j).asleep (hwoken.1 hj)
  have hother : ∀ j, c.point j ≠ .signal k → j ≠ i := by
    rintro j hj rfl
    exact hj hp
  -- the woken threads were asleep, so the signal counts none of them twice
  have hdisjoint : Disjoint pending woken := by
    rw [Finset.disjoint_left]
    intro j hj hw
    have hpend := (hmem j hj).2
    rw [hasleep j hw] at hpend
    rcases hpend with h | h
    · exact h.2 (hwoken.1 hw)
    · exact nomatch h
  refine ⟨pending ∪ woken, fun j hj => ?_, Or.inl ?_⟩
  · rcases Finset.mem_union.mp hj with hj | hj
    · have hpend := (hmem j hj).2
      have hji : j ≠ i := by
        refine hother j fun h => ?_
        rw [h] at hpend
        rcases hpend with h | h
        · exact h
        · exact nomatch h
      rw [Function.update_of_ne hji]
      exact ⟨(hmem j hj).1, hpend.mono fun h => (Finset.mem_sdiff.mp h).1⟩
    · have hj' := hasleep j hj
      rw [Function.update_of_ne (hother j (by simp [hj'])), hj']
      refine ⟨(hA j).ofWait (by rw [hj']; trivial), Or.inl ⟨rfl, fun h => ?_⟩⟩
      exact (Finset.mem_sdiff.mp h).2 hj
  · have hcard := Finset.card_pos.mpr (hwoken.2 hsleep)
    rw [Finset.card_union_of_disjoint hdisjoint]
    rcases hle with h | ⟨h, -⟩ <;> omega

/-- The data of a semaphore is protected by the mutex of its node. -/
def SemProtected (sem n v₀ : ℕ) (c : Config ι (SemMemory ι) SemPoint) : Prop :=
  Protected (SemMemory.owner n) (SemMemory.data n sem) (SemPoint.Critical n)
    (SemData.Settled v₀) (fun _ => SemPoint.Knows v₀) c

lemma NoLostPost.step (hc : NoLostPost call n c)
    (hA : ∀ i, SemAssertion call sem n c.memory i (c.point i)) (hprot : SemProtected sem n v₀ c)
    (h : SemStep call i c.memory (c.point i) m' p') :
    NoLostPost call n ⟨m', Function.update c.point i p'⟩ := by
  have hframe := hc.frame i m' p'
  have hofPost := (hA i).ofPost
  generalize hpi : c.point i = p at h hframe hofPost
  by_cases hp : p.node? = some n
  · cases h with
    | einval | find => exact nomatch hp
    | lock =>
      obtain rfl := Option.some.inj hp
      refine hframe (by simp) (by simp) (fun ⟨a, ha⟩ _ => ?_) nofun
      rw [ha]
      exact Or.inl rfl
    | testZero hv =>
      obtain rfl := Option.some.inj hp
      exact .of_value_eq_zero hv
    | testPositive =>
      obtain rfl := Option.some.inj hp
      exact hframe rfl subset_rfl (fun _ _ => Or.inr rfl) nofun
    | @condWait k =>
      obtain rfl := Option.some.inj hp
      have hv := ((hprot.2 i (by rw [hpi]; rfl)).2)
      rw [hpi] at hv
      refine .of_value_eq_zero ?_
      rw [SemMemory.node_monitor_self]
      exact hv.2
    | wakeSpuriously =>
      obtain rfl := Option.some.inj hp
      refine hframe (by simp) (by simp) (fun _ _ => Or.inl ⟨rfl, by simp⟩) nofun
    | reacquire =>
      obtain rfl := Option.some.inj hp
      exact hframe (by simp) (by simp) (fun _ _ => Or.inl rfl) nofun
    | decrement =>
      obtain rfl := Option.some.inj hp
      exact hc.decrement hpi _ _ fun _ => ⟨rfl, rfl⟩
    | increment =>
      obtain rfl := Option.some.inj hp
      refine hc.increment (fun j hj => ?_) hpi (hofPost trivial) _
        fun _ => ⟨rfl, Nat.mod_le _ _⟩
      -- a second call in the critical section
      have hi := (hprot.2 i (by rw [hpi]; rfl)).1
      obtain rfl := Option.some.inj ((hprot.2 j hj.critical).1.symm.trans hi)
      rw [hpi] at hj
      exact hj
    | setCount =>
      obtain rfl := Option.some.inj hp
      refine hframe rfl subset_rfl (fun _ h => ?_) fun ⟨_, a, ha⟩ => ?_
      · rcases h with h | h
        · exact h.elim
        · exact nomatch h
      · rw [ha]
        exact rfl
    | signal hwoken =>
      obtain rfl := Option.some.inj hp
      exact hc.signal hA hpi hwoken
    | read | unlock =>
      obtain rfl := Option.some.inj hp
      refine hframe (by simp) (by simp) (fun _ h => ?_) nofun
      rcases h with h | h
      · exact h.elim
      · exact nomatch h
  · have hn := (h.elsewhere hp).2
    exact hframe (congrArg SemNode.value hn) (by rw [hn]) (fun _ h => absurd h.node?_eq hp)
      fun h => absurd h.node?_eq hp

/-! ### Every run -/

variable {c₀ : Config ι (SemMemory ι) SemPoint}

/-- What holds of a semaphore in every run after its initialization. -/
structure SemReached (call : ι → SemCall) (sem n v₀ : ℕ)
    (c : Config ι (SemMemory ι) SemPoint) : Prop where
  find : ∀ a, c.memory.getSem a = some n ↔ a = sem
  assertion : ∀ i, SemAssertion call sem n c.memory i (c.point i)
  protect : SemProtected sem n v₀ c
  noLostPost : NoLostPost call n c

lemma SemReached.reaches (h : (a2iSem call).Reaches c₀ c) (h₀ : SemReached call sem n v₀ c₀) :
    SemReached call sem n v₀ c := by
  refine h.invariant (fun c d hstep hc => ?_) h₀
  obtain ⟨hfind, hA⟩ := (semOutline call sem n).step hstep ⟨hc.find, hc.assertion⟩
  rcases hstep with ⟨i, hi⟩ | ⟨⟨⟩⟩
  exact ⟨hfind, hA, hc.protect.thread (hi.critical (hc.assertion i).node),
    hc.noLostPost.step hc.assertion hc.protect hi⟩

omit [DecidableEq ι] in
/-- A successful `a2i_sem_init` sets up the node. -/
lemma semReached_of_a2iSemInit {pshared : ℤ} (hfresh : ∀ a, (a, n) ∉ m.sems)
    (hinit : m.a2iSemInit (some n) sem pshared v₀ = (.ok (), m')) :
    SemReached call sem n v₀ ⟨m', fun _ => .start⟩ := by
  rw [SemMemory.a2iSemInit] at hinit
  split at hinit
  · exact nomatch hinit
  dsimp only at hinit
  split at hinit
  · exact nomatch hinit
  rename_i hargs hfound
  obtain rfl := (Prod.mk.inj hinit).2
  rw [not_or, not_not] at hargs
  have hnode : (m.modify n fun _ => ⟨Monitor.init, v₀, 0, 0⟩).node n = ⟨Monitor.init, v₀, 0, 0⟩ :=
    m.node_modify_self ..
  have hsleepers : ((m.modify n fun _ => ⟨Monitor.init, v₀, 0, 0⟩).node n).monitor.sleepers = ∅ :=
    congrArg (·.monitor.sleepers) hnode
  refine ⟨fun a => ?_, fun i => ⟨nofun, fun h => ?_, nofun, nofun⟩, ⟨fun _ => ?_, nofun⟩,
    fun h => ?_⟩
  · show (if a = 0 then none else List.lookup a ((sem, n) :: m.sems)) = some n ↔ a = sem
    rw [List.lookup_cons]
    constructor
    · intro h
      by_contra hne
      rw [beq_eq_false_iff_ne.mpr hne] at h
      have hlookup := (Option.ite_none_left_eq_some.mp h).2
      obtain ⟨before, after, hsems, -⟩ := List.lookup_eq_some_iff.mp hlookup
      exact hfresh a (hsems ▸ List.mem_append_right _ List.mem_cons_self)
    · rintro rfl
      rw [if_neg hargs.1, beq_self_eq_true]
  · show SemPoint.start = SemPoint.asleep n
    have h' : i ∈ ((m.modify n fun _ => ⟨Monitor.init, v₀, 0, 0⟩).node n).monitor.sleepers := h
    rw [hsleepers] at h'
    exact absurd h' (Finset.notMem_empty i)
  · show SemData.Settled v₀ ⟨_, _, _, Function.update m.count sem v₀ sem⟩
    rw [hnode, Function.update_self]
    exact ⟨fun _ => rfl, rfl⟩
  · have h' : ((m.modify n fun _ => ⟨Monitor.init, v₀, 0, 0⟩).node n).monitor.sleepers.Nonempty := h
    rw [hsleepers] at h'
    exact absurd h' Finset.not_nonempty_empty

/-- **Semaphore conservation.**  After a successful `a2i_sem_init`, in every state that calls on
semaphores can reach and as long as the posts do not wrap the value around: when the mutex of
the node is free, the value is the initial value with every increment and decrement, the
Android semaphore shows it, and if a call is asleep then at least as many calls of
`a2i_sem_wait` as the value are awake and have yet to test it.  No wait decrements a value
that is 0. -/
theorem semaphore_conservation {pshared : ℤ} (hfresh : ∀ a, (a, n) ∉ m.sems)
    (hinit : m.a2iSemInit (some n) sem pshared v₀ = (.ok (), m'))
    (hrun : (a2iSem call).Reaches ⟨m', fun _ => .start⟩ c)
    (hposts : v₀ + (c.memory.node n).increments < 2 ^ 32) :
    ((c.memory.node n).monitor.owner = none →
      (c.memory.node n).value + (c.memory.node n).decrements =
        v₀ + (c.memory.node n).increments ∧
      c.memory.count sem = (c.memory.node n).value ∧
      ((∃ i, c.point i = .asleep n ∧ i ∈ (c.memory.node n).monitor.sleepers) →
        ∃ awake : Finset ι, (c.memory.node n).value ≤ awake.card ∧
          ∀ i ∈ awake, call i = .wait sem ∧
            (c.point i).ToTest n (c.memory.node n).monitor.sleepers i)) ∧
    ∀ i, c.point i = .decrement n → (c.memory.node n).value ≠ 0 := by
  have hreached : SemReached call sem n v₀ ⟨m', fun _ => .start⟩ :=
    semReached_of_a2iSemInit hfresh hinit
  obtain ⟨-, hA, ⟨hfree, hinside⟩, hlost⟩ := hreached.reaches hrun
  refine ⟨fun ho => ?_, fun i hi => ?_⟩
  · obtain ⟨hcons, hcount⟩ := hfree ho
    -- a free mutex: no call is at a point of the critical section
    have hout : ∀ i, ¬ (c.point i).Critical n := fun i hi =>
      absurd (ho.symm.trans (hinside i hi).1) (by simp)
    refine ⟨hcons hposts, hcount, fun ⟨i, _, hi⟩ => ?_⟩
    obtain ⟨pending, hmem, hle⟩ := hlost ⟨i, hi⟩
    refine ⟨pending, ?_, fun j hj => ?_⟩
    · rcases hle with hle | ⟨-, j, hj⟩
      · exact hle
      · exact absurd hj.critical (hout j)
    · obtain ⟨⟨a, ha⟩, hpend⟩ := hmem j hj
      have hsem := ((hA j).node n hpend.node?_eq).mp rfl
      rw [ha] at hsem
      refine ⟨ha.trans (congrArg SemCall.wait hsem), hpend.resolve_right fun h => hout j ?_⟩
      rw [h]
      rfl
  · have hknows := (hinside i (by rw [hi]; rfl)).2
    rw [hi] at hknows
    exact hknows.2

end

/-! ### A run -/

/-- Two waits and a post on the semaphore at 8. -/
def semCallsAt8 (i : Fin 3) : SemCall := if i = 2 then .post 8 else .wait 8

/-- The memory after the semaphore at 8 is initialized with 0; its node is at 16. -/
def semMemoryInit : SemMemory (Fin 3) :=
  (SemMemory.a2iSemInit ⟨[], fun _ => ⟨Monitor.init, 0, 0, 0⟩, fun _ => 0⟩ (some 16) 8 0 0).2

/-- Two waits fall asleep, and a post wakes the first: then the second is asleep, the value is 1
and one call has yet to test it.  The first goes on to a decrement of a value that is not 0. -/
theorem semaphore_conservation_wakes : ∃ c d : Config (Fin 3) (SemMemory (Fin 3)) SemPoint,
    (a2iSem semCallsAt8).Reaches ⟨semMemoryInit, fun _ => .start⟩ c ∧
      (a2iSem semCallsAt8).Reaches c d ∧
      (c.point 1 = .asleep 16 ∧ c.point 2 = .returned (.ok none) ∧
        (c.memory.node 16).value = 1 ∧ c.memory.count 8 = (c.memory.node 16).value ∧
        ∃ awake : Finset (Fin 3), (c.memory.node 16).value ≤ awake.card ∧
          ∀ i ∈ awake, semCallsAt8 i = .wait 8 ∧
            (c.point i).ToTest 16 (c.memory.node 16).monitor.sleepers i) ∧
      d.point 0 = .decrement 16 ∧ (d.memory.node 16).value ≠ 0 := by
  have hinit : SemMemory.a2iSemInit ⟨[], fun _ => ⟨Monitor.init, 0, 0, 0⟩, fun _ => 0⟩ (some 16) 8
      0 0 = (.ok (), semMemoryInit) := rfl
  have hcall : ∀ i sem, semCallsAt8 i ≠ .getvalue sem 0 := by
    intro i sem
    rw [semCallsAt8]
    split <;> simp
  have hstart : (a2iSem semCallsAt8).Reaches ⟨semMemoryInit, fun _ => .start⟩
      ⟨semMemoryInit, fun _ => .start⟩ := .refl
  -- both waits find the value 0
  have hfind₀ := hstart.tail (.thread 0 (.find (n := 16) rfl (hcall 0)))
  have hlock₀ := hfind₀.tail (.thread 0 (.lock rfl))
  have htest₀ := hlock₀.tail (.thread 0 (.testZero rfl))
  have hasleep₀ := htest₀.tail (.thread 0 .condWait)
  have hfind₁ := hasleep₀.tail (.thread 1 (.find (n := 16) rfl (hcall 1)))
  have hlock₁ := hfind₁.tail (.thread 1 (.lock rfl))
  have htest₁ := hlock₁.tail (.thread 1 (.testZero rfl))
  have hasleep₁ := htest₁.tail (.thread 1 .condWait)
  -- the post wakes the first
  have hfind := hasleep₁.tail (.thread 2 (.find (n := 16) rfl (hcall 2)))
  have hlock := hfind.tail (.thread 2 (.lock rfl))
  have hincrement := hlock.tail (.thread 2 .increment)
  have hcount := hincrement.tail (.thread 2 .setCount)
  have hsignal := hcount.tail (.thread 2 (.signal
    ⟨(by decide : ({0} : Finset (Fin 3)) ⊆ _), fun _ => Finset.singleton_nonempty 0⟩))
  have hposted := hsignal.tail (.thread 2 .unlock)
  have hwakes := hposted.tail (.thread 0 (.reacquire (by decide) rfl))
  have hpositive := hwakes.tail (.thread 0 (.testPositive Nat.one_ne_zero))
  obtain ⟨-, hcounts, hawake⟩ := (semaphore_conservation (by simp) hinit hposted (by decide)).1 rfl
  refine ⟨_, _, hposted, .tail (.tail .refl (.thread 0 (.reacquire (by decide) rfl)))
    (.thread 0 (.testPositive Nat.one_ne_zero)), ⟨rfl, rfl, rfl, hcounts, ?_⟩, rfl,
    (semaphore_conservation (by simp) hinit hpositive (by decide)).2 0 rfl⟩
  exact hawake ⟨1, rfl, by decide⟩

end Apk2Ios
