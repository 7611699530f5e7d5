import Mathlib.Data.Int.Notation
import Apk2Ios.Errors
import Apk2Ios.Lib.Monitor
import Apk2Ios.Lib.Threads

/-!
# The shim: futexes

`a2i_syscall` of `runtime_compat.c`, which emulates the `futex` system call.  A futex word gets
a node with a mutex and a condition variable when it is first waited for or woken; the nodes
are in a list with a lock of its own, and stay there.
-/

namespace Apk2Ios

open Lib

/-- The arguments of `a2i_syscall`; the address and the timeout are pointers. -/
structure SyscallArgs where
  number : ℤ
  address : ℕ
  op : BitVec 32
  value : BitVec 32
  timeout : ℕ

/-- A call of `a2i_futex_wait`, with or without a timeout, or of `a2i_futex_wake`. -/
inductive FutexCall where
  | wait (address expected : ℕ) (timed : Bool)
  | wake (address : ℕ) (count : ℤ)
deriving DecidableEq, Repr

def FutexCall.address : FutexCall → ℕ
  | wait address _ _ => address
  | wake address _ => address

/-- The call that `a2i_syscall` makes, if it knows the system call and the command. -/
def SyscallArgs.call (args : SyscallArgs) : Option FutexCall :=
  -- A2I_NR_FUTEX, and the operation without A2I_FUTEX_PRIVATE_FLAG
  if args.number = 98 then
    let command := args.op &&& ~~~128#32
    if command = 0#32 then some (.wait args.address args.value.toNat (args.timeout ≠ 0))
    else if command = 1#32 then some (.wake args.address args.value.toInt)
    else none
  else none

/-- The futex words by address, the lock `g_futex_lock`, the list `g_futexes` of addresses and
nodes, and the mutex and the condition variable of every node. -/
structure FutexMemory (ι : Type*) where
  word : ℕ → ℕ
  lock : Option ι
  futexes : List (ℕ × ℕ)
  node : ℕ → Monitor ι

/-- Change the mutex or the condition variable of a node. -/
def FutexMemory.modify {ι : Type*} (m : FutexMemory ι) (n : ℕ) (f : Monitor ι → Monitor ι) :
    FutexMemory ι :=
  { m with node := Function.update m.node n (f (m.node n)) }

/-- The points of the calls; `n` is the local variable `node`. -/
inductive FutexPoint where
  | start
  | search
  | create
  | lock (n : ℕ)
  | test (n : ℕ)
  | loop (n : ℕ)
  | condWait (n : ℕ)
  | asleep (n : ℕ)
  | timedOut (n : ℕ)
  | signal (n : ℕ)
  | unlock (n : ℕ) (rc : Except Errno ℤ)
  | returned (rc : Except Errno ℤ)

/-- The first point after the mutex of the node is locked. -/
def FutexCall.body (n : ℕ) : FutexCall → FutexPoint
  | wait _ _ _ => .test n
  | wake _ _ => .signal n

section

variable {ι : Type*} [DecidableEq ι]

/-- The atomic steps of the call `i`. -/
inductive FutexStep (call : ι → Option FutexCall) (i : ι) :
    FutexMemory ι → FutexPoint → FutexMemory ι → FutexPoint → Prop
  | enosys {m} : call i = none → FutexStep call i m .start m (.returned (.error .ENOSYS))
  -- only `a2i_futex_wait` checks its address
  | efault {m expected timed} : call i = some (.wait 0 expected timed) →
      FutexStep call i m .start m (.returned (.error .EFAULT))
  | lockList {m k} : call i = some k → (∀ expected timed, k ≠ .wait 0 expected timed) →
      m.lock = none → FutexStep call i m .start { m with lock := some i } .search
  | found {m k n} : call i = some k → m.futexes.lookup k.address = some n →
      FutexStep call i m .search { m with lock := none } (.lock n)
  | missing {m k} : call i = some k → m.futexes.lookup k.address = none →
      FutexStep call i m .search m .create
  -- `calloc` returns a block that is not in use
  | created {m k n} : call i = some k → (∀ a, (a, n) ∉ m.futexes) →
      FutexStep call i m .create
        { m with
          lock := none
          futexes := (k.address, n) :: m.futexes
          node := Function.update m.node n Monitor.init }
        (.lock n)
  | enomem {m} :
      FutexStep call i m .create { m with lock := none } (.returned (.error .ENOMEM))
  | lock {m k n} : call i = some k → (m.node n).owner = none →
      FutexStep call i m (.lock n) (m.modify n (·.lock i)) (k.body n)
  | eagain {m a e t n} : call i = some (.wait a e t) → m.word a ≠ e →
      FutexStep call i m (.test n) m (.unlock n (.error .EAGAIN))
  | expected {m a e t n} : call i = some (.wait a e t) → m.word a = e →
      FutexStep call i m (.test n) m (.loop n)
  | again {m a e t n} : call i = some (.wait a e t) → m.word a = e →
      FutexStep call i m (.loop n) m (.condWait n)
  | changed {m a e t n} : call i = some (.wait a e t) → m.word a ≠ e →
      FutexStep call i m (.loop n) m (.unlock n (.ok 0))
  | condWait {m n} : FutexStep call i m (.condWait n) (m.modify n (·.sleep i)) (.asleep n)
  | wakeSpuriously {m n} : i ∈ (m.node n).sleepers →
      FutexStep call i m (.asleep n) (m.modify n (·.wake {i})) (.asleep n)
  | timeOut {m a e n} : call i = some (.wait a e true) → i ∈ (m.node n).sleepers →
      FutexStep call i m (.asleep n) (m.modify n (·.wake {i})) (.timedOut n)
  -- `pthread_cond_wait` and `pthread_cond_timedwait` return with the mutex
  | reacquire {m n} : i ∉ (m.node n).sleepers → (m.node n).owner = none →
      FutexStep call i m (.asleep n) (m.modify n (·.lock i)) (.loop n)
  | reacquireTimedOut {m n} : (m.node n).owner = none →
      FutexStep call i m (.timedOut n) (m.modify n (·.lock i)) (.unlock n (.error .ETIMEDOUT))
  | signal {m a n woken} {count : ℤ} : call i = some (.wake a count) → count ≤ 1 →
      (m.node n).Signals woken →
      FutexStep call i m (.signal n) (m.modify n (·.wake woken))
        (.unlock n (.ok (if 0 < count then count else 0)))
  | broadcast {m a n} {count : ℤ} : call i = some (.wake a count) → 1 < count →
      FutexStep call i m (.signal n) (m.modify n fun node => node.wake node.sleepers)
        (.unlock n (.ok (if 0 < count then count else 0)))
  | unlock {m n rc} :
      FutexStep call i m (.unlock n rc) (m.modify n (·.unlock)) (.returned rc)

/-- Any number of calls of `a2i_syscall`, while the program stores to futex words. -/
def a2iSyscall (args : ι → SyscallArgs) : Threads ι (FutexMemory ι) FutexPoint where
  thread := FutexStep fun i => (args i).call
  env m m' := ∃ a v, m' = { m with word := Function.update m.word a v }

/-- No call has begun and no futex is known. -/
def futexStart (ι : Type*) (word : ℕ → ℕ) : Config ι (FutexMemory ι) FutexPoint :=
  ⟨⟨word, none, [], fun _ => Monitor.init⟩, fun _ => .start⟩

end

namespace FutexPoint

/-- The local variable `node`. -/
def node? : FutexPoint → Option ℕ
  | start | search | create | returned _ => none
  | lock k | test k | loop k | condWait k | asleep k | timedOut k | signal k | unlock k _ => some k

/-- The point is in the critical section of the list. -/
def InList : FutexPoint → Prop
  | search | create => True
  | _ => False

/-- The point is in the critical section of the node. -/
def Critical (n : ℕ) : FutexPoint → Prop
  | test k | loop k | condWait k | signal k | unlock k _ => k = n
  | _ => False

/-- The points of `a2i_futex_wait` only. -/
def OfWait : FutexPoint → Prop
  | test _ | loop _ | condWait _ | asleep _ | timedOut _ => True
  | _ => False

lemma Critical.node?_eq {p : FutexPoint} {n : ℕ} (h : p.Critical n) : p.node? = some n := by
  cases p with
  | test | loop | condWait | signal | unlock => exact congrArg some h
  | _ => exact h.elim

end FutexPoint

namespace FutexMemory

variable {ι : Type*} (m : FutexMemory ι) {n k : ℕ} (f : Monitor ι → Monitor ι)

@[simp] lemma node_modify_self : (m.modify n f).node n = f (m.node n) := Function.update_self ..

lemma node_modify_of_ne (h : k ≠ n) : (m.modify k f).node n = m.node n :=
  Function.update_of_ne h.symm ..

end FutexMemory

/-! ### What holds in every run -/

section

variable {ι : Type*}

/-- Different addresses have different nodes, and what is not a node is like a new one. -/
structure FutexInv (m : FutexMemory ι) : Prop where
  inj : ∀ a b n, m.futexes.lookup a = some n → m.futexes.lookup b = some n → a = b
  fresh : ∀ n, (∀ a, (a, n) ∉ m.futexes) → m.node n = Monitor.init

/-- What is known of a call at a point. -/
structure FutexAssertion (call : ι → Option FutexCall) (m : FutexMemory ι) (i : ι)
    (p : FutexPoint) : Prop where
  node : ∀ n, p.node? = some n → ∃ k, call i = some k ∧ m.futexes.lookup k.address = some n
  asleep : ∀ n, i ∈ (m.node n).sleepers → p = .asleep n
  ofWait : p.OfWait → ∃ a e t, call i = some (.wait a e t)
  ofWake : ∀ n, p = .signal n → ∃ a count, call i = some (.wake a count)

/-- What the owner of the lock of the list knows: a new node is for an address without one. -/
def FutexPoint.KnowsList (call : ι → Option FutexCall) (i : ι) (p : FutexPoint)
    (futexes : List (ℕ × ℕ)) : Prop :=
  p = .create → ∀ k, call i = some k → futexes.lookup k.address = none

/-- What holds in every state of every run. -/
structure FutexReached (call : ι → Option FutexCall)
    (c : Config ι (FutexMemory ι) FutexPoint) : Prop where
  list : Protected FutexMemory.lock FutexMemory.futexes FutexPoint.InList (fun _ => True)
    (FutexPoint.KnowsList call) c
  inv : FutexInv c.memory
  assertion : ∀ i, FutexAssertion call c.memory i (c.point i)
  mutex : ∀ n, Protected (fun m : FutexMemory ι => (m.node n).owner) (fun _ => ())
    (FutexPoint.Critical n) (fun _ => True) (fun _ _ _ => True) c

lemma FutexMemory.mem_of_lookup {m : FutexMemory ι} {a n : ℕ}
    (h : m.futexes.lookup a = some n) : (a, n) ∈ m.futexes := by
  obtain ⟨_, _, hsplit, -⟩ := List.lookup_eq_some_iff.mp h
  rw [hsplit]
  exact List.mem_append_right _ List.mem_cons_self

variable [DecidableEq ι] {call : ι → Option FutexCall} {i j : ι} {m m' : FutexMemory ι}
  {p p' q : FutexPoint} {n : ℕ} {c d : Config ι (FutexMemory ι) FutexPoint}

/-- The critical section of the list. -/
lemma FutexStep.list (h : FutexStep call i m p m' p') :
    CriticalStep FutexMemory.lock FutexMemory.futexes FutexPoint.InList (fun _ => True)
      (FutexPoint.KnowsList call) i m p m' p' := by
  cases h with
  | lockList _ _ ho => exact .enter ho rfl rfl fun _ h => nomatch h
  | missing hk hnone =>
    refine .within trivial rfl fun _ _ k hk' => ?_
    rwa [← Option.some.inj (hk.symm.trans hk')]
  | found | created | enomem => exact .leave trivial id rfl fun _ => trivial
  | @lock call => exact .outside (by cases call <;> exact id) rfl rfl
  | _ => exact .outside id rfl rfl

/-- The step of a thread keeps what the list says of an address. -/
lemma FutexStep.lookup (h : FutexStep call i m p m' p')
    (hlist : p.KnowsList call i m.futexes) {a : ℕ} (ha : m.futexes.lookup a = some n) :
    m'.futexes.lookup a = some n := by
  cases h with
  | @created k n' hk =>
    show List.lookup a ((k.address, n') :: m.futexes) = some n
    have hne : a ≠ k.address := by
      rintro rfl
      exact absurd (ha.symm.trans (hlist rfl k hk)) (by simp)
    rwa [List.lookup_cons, beq_eq_false_iff_ne.mpr hne]
  | _ => exact ha

/-- A step on a node changes that node only, or makes a new one. -/
lemma FutexStep.node_eq (h : FutexStep call i m p m' p') (hinv : FutexInv m)
    (hp : p.node? ≠ some n) : m'.node n = m.node n := by
  have hne : ∀ k, p.node? = some k → k ≠ n := fun k hk hkn => hp (hk.trans (congrArg some hkn))
  cases h with
  | @created _ n' _ hfresh =>
    by_cases hn : n = n'
    · subst hn
      rw [hinv.fresh n hfresh]
      exact Function.update_self ..
    · exact Function.update_of_ne hn ..
  | @lock _ k | @condWait k | @wakeSpuriously k | @timeOut _ _ k | @reacquire k
  | @reacquireTimedOut k | @signal _ k | @broadcast _ k | @unlock k =>
    exact FutexMemory.node_modify_of_ne _ _ (hne k rfl)
  | _ => rfl

/-- The critical section of a node is entered at the node. -/
lemma FutexStep.node?_of_critical (h : FutexStep call i m p m' p') (hp' : p'.Critical n) :
    p.node? = some n := by
  cases h with
  | @lock k => cases k <;> exact congrArg some hp'
  | eagain | expected | again | changed | reacquire | reacquireTimedOut | signal | broadcast =>
    exact congrArg some hp'
  | _ => exact hp'.elim

/-- The critical section of a node. -/
lemma FutexStep.mutex (h : FutexStep call i m p m' p') (hinv : FutexInv m) (n : ℕ) :
    CriticalStep (fun m : FutexMemory ι => (m.node n).owner) (fun _ => ())
      (FutexPoint.Critical n) (fun _ => True) (fun _ _ _ => True) i m p m' p' := by
  by_cases hp : p.node? = some n
  · cases h with
    | enosys | efault | lockList | found | missing | created | enomem => exact nomatch hp
    | lock _ ho | reacquire _ ho | reacquireTimedOut ho =>
      obtain rfl := Option.some.inj hp
      exact .enter ho (by simp) rfl fun _ => trivial
    | eagain | expected | again | changed =>
      obtain rfl := Option.some.inj hp
      exact .within rfl rfl fun _ => trivial
    | signal | broadcast =>
      obtain rfl := Option.some.inj hp
      exact .within rfl (by simp) fun _ => trivial
    | wakeSpuriously | timeOut =>
      obtain rfl := Option.some.inj hp
      exact .outside id (by simp) rfl
    | condWait | unlock =>
      obtain rfl := Option.some.inj hp
      exact .leave rfl id (by simp) fun _ => trivial
  · exact .outside (mt h.node?_of_critical hp) (congrArg Monitor.owner (h.node_eq hinv hp)) rfl

/-- Only the call itself becomes a sleeper, when it waits on the condition variable. -/
lemma FutexStep.sleepers (h : FutexStep call i m p m' p') (hinv : FutexInv m)
    (hj : j ∈ (m'.node n).sleepers) :
    (j ∈ (m.node n).sleepers ∧ (p = .asleep n → j ≠ i)) ∨
      j = i ∧ p = .condWait n ∧ p' = .asleep n := by
  by_cases hp : p.node? = some n
  · cases h with
    | enosys | efault | lockList | found | missing | created | enomem => exact nomatch hp
    | eagain | expected | again | changed => exact Or.inl ⟨hj, nofun⟩
    | lock | unlock | reacquireTimedOut =>
      obtain rfl := Option.some.inj hp
      rw [FutexMemory.node_modify_self] at hj
      exact Or.inl ⟨hj, nofun⟩
    | reacquire hi =>
      obtain rfl := Option.some.inj hp
      rw [FutexMemory.node_modify_self] at hj
      exact Or.inl ⟨hj, fun _ hji => hi (hji ▸ hj)⟩
    -- the only step that puts a thread to sleep
    | condWait =>
      obtain rfl := Option.some.inj hp
      rw [FutexMemory.node_modify_self] at hj
      rcases Finset.mem_insert.mp hj with rfl | hj
      · exact Or.inr ⟨rfl, rfl, rfl⟩
      · exact Or.inl ⟨hj, nofun⟩
    | wakeSpuriously | timeOut =>
      obtain rfl := Option.some.inj hp
      rw [FutexMemory.node_modify_self] at hj
      have hj := Finset.mem_sdiff.mp hj
      exact Or.inl ⟨hj.1, fun _ => mt Finset.mem_singleton.mpr hj.2⟩
    | signal | broadcast =>
      obtain rfl := Option.some.inj hp
      rw [FutexMemory.node_modify_self] at hj
      exact Or.inl ⟨(Finset.mem_sdiff.mp hj).1, nofun⟩
  · rw [h.node_eq hinv hp] at hj
    exact Or.inl ⟨hj, fun h => absurd (congrArg FutexPoint.node? h) hp⟩

/-- A call keeps its node, and gets it from the list. -/
lemma FutexStep.node?_eq (h : FutexStep call i m p m' p') (hp' : p'.node? = some n) :
    p.node? = some n ∨ ∃ k, call i = some k ∧ m'.futexes.lookup k.address = some n := by
  cases h with
  | lock => cases ‹FutexCall› <;> exact Or.inl hp'
  | @found k n' hk hfound =>
    obtain rfl := Option.some.inj hp'
    exact Or.inr ⟨k, hk, hfound⟩
  | @created k n' hk =>
    obtain rfl := Option.some.inj hp'
    exact Or.inr ⟨k, hk, List.lookup_cons_self⟩
  | _ => first | exact Or.inl hp' | exact nomatch hp'

lemma FutexStep.ofWait (h : FutexStep call i m p m' p') (hp' : p'.OfWait) :
    p.OfWait ∨ ∃ a e t, call i = some (.wait a e t) := by
  cases h with
  | @lock k _ hk =>
    cases k with
    | wait => exact Or.inr ⟨_, _, _, hk⟩
    | wake => exact hp'.elim
  | expected | again | condWait | wakeSpuriously | timeOut | reacquire => exact Or.inl trivial
  | _ => exact hp'.elim

lemma FutexStep.ofWake (h : FutexStep call i m p m' p') (hp' : p' = .signal n) :
    ∃ a count, call i = some (.wake a count) := by
  cases h with
  | @lock k _ hk =>
    cases k with
    | wait => exact nomatch hp'
    | wake => exact ⟨_, _, hk⟩
  | _ => exact nomatch hp'

/-- A new node is for a new address, and other nodes are as before. -/
lemma FutexStep.inv (h : FutexStep call i m p m' p') (hinv : FutexInv m)
    (hnode : ∀ n, p.node? = some n → ∃ a, (a, n) ∈ m.futexes) : FutexInv m' := by
  have hfresh : ∀ n, (∀ a, (a, n) ∉ m'.futexes) → m'.node n = Monitor.init := by
    intro n hn
    have hold : ∀ a, (a, n) ∉ m.futexes := fun a ha => by
      refine hn a ?_
      cases h with
      | created => exact List.mem_cons_of_mem _ ha
      | _ => exact ha
    rw [h.node_eq hinv fun hp => (hnode n hp).elim hold]
    exact hinv.fresh n hold
  cases h with
  | @created k n' hk hnew =>
    refine ⟨fun a b n ha hb => ?_, hfresh⟩
    rw [List.lookup_cons] at ha hb
    by_cases hak : a = k.address <;> by_cases hbk : b = k.address
    · exact hak.trans hbk.symm
    · subst hak
      rw [beq_self_eq_true] at ha
      rw [beq_eq_false_iff_ne.mpr hbk] at hb
      cases ha
      exact absurd (FutexMemory.mem_of_lookup hb) (hnew b)
    · subst hbk
      rw [beq_self_eq_true] at hb
      rw [beq_eq_false_iff_ne.mpr hak] at ha
      cases hb
      exact absurd (FutexMemory.mem_of_lookup ha) (hnew a)
    · rw [beq_eq_false_iff_ne.mpr hak] at ha
      rw [beq_eq_false_iff_ne.mpr hbk] at hb
      exact hinv.inj a b n ha hb
  | _ => exact ⟨hinv.inj, hfresh⟩

lemma FutexReached.step {args : ι → SyscallArgs} (hstep : (a2iSyscall args).Step c d)
    (hc : FutexReached (fun i => (args i).call) c) :
    FutexReached (fun i => (args i).call) d := by
  rcases hstep with @⟨i, m', p', hi⟩ | ⟨a, v, rfl⟩
  · have hknows : (c.point i).KnowsList (fun i => (args i).call) i c.memory.futexes := fun hp =>
      (hc.list.2 i (by rw [hp]; trivial)).2 hp
    -- nodes are never removed and a step puts no other thread to sleep
    have hkeep : ∀ j q, FutexAssertion (fun i => (args i).call) c.memory j q → j ≠ i →
        FutexAssertion (fun i => (args i).call) m' j q := by
      intro j q hj hji
      refine ⟨fun n hq => ?_, fun n hn => ?_, hj.ofWait, hj.ofWake⟩
      · obtain ⟨k, hk, hn⟩ := hj.node n hq
        exact ⟨k, hk, hi.lookup hknows hn⟩
      · rcases hi.sleepers hc.inv hn with ⟨hn, -⟩ | ⟨h, -⟩
        · exact hj.asleep n hn
        · exact absurd h hji
    refine ⟨hc.list.thread hi.list, hi.inv hc.inv fun n hp => ?_,
      (Function.forall_update_iff c.point
        (p := FutexAssertion (fun i => (args i).call) m')).mpr
        ⟨?_, fun j hji => hkeep j _ (hc.assertion j) hji⟩,
      fun n => (hc.mutex n).thread (hi.mutex hc.inv n)⟩
    · obtain ⟨k, -, hn⟩ := (hc.assertion i).node n hp
      exact ⟨_, FutexMemory.mem_of_lookup hn⟩
    · refine ⟨fun n hp' => ?_, fun n hn => ?_, fun hp' => ?_, fun n hp' => hi.ofWake hp'⟩
      · rcases hi.node?_eq hp' with hp | hk
        · obtain ⟨k, hk, hn⟩ := (hc.assertion i).node n hp
          exact ⟨k, hk, hi.lookup hknows hn⟩
        · exact hk
      · rcases hi.sleepers hc.inv hn with ⟨hn, hne⟩ | ⟨-, -, hp'⟩
        · exact absurd rfl (hne ((hc.assertion i).asleep n hn))
        · exact hp'
      · exact (hi.ofWait hp').elim (hc.assertion i).ofWait id
  · exact ⟨hc.list, ⟨hc.inv.inj, hc.inv.fresh⟩,
      fun i => ⟨(hc.assertion i).node, (hc.assertion i).asleep, (hc.assertion i).ofWait,
        (hc.assertion i).ofWake⟩, hc.mutex⟩

/-- **Every state of every run** has its nodes, its sleepers and its mutexes in order. -/
theorem futexReached {args : ι → SyscallArgs} {word : ℕ → ℕ}
    (h : (a2iSyscall args).Reaches (futexStart ι word) c) :
    FutexReached (fun i => (args i).call) c := by
  refine h.invariant (fun _ _ => FutexReached.step) ?_
  exact ⟨⟨fun _ => trivial, fun _ h => h.elim⟩, ⟨nofun, fun _ _ => rfl⟩,
    fun i => ⟨nofun, fun n h => absurd h (Finset.notMem_empty i), nofun, nofun⟩,
    fun n => ⟨fun _ => trivial, fun _ h => h.elim⟩⟩

end

end Apk2Ios
