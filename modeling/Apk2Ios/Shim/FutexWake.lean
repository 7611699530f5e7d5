import Mathlib.Data.ENat.Lattice
import Mathlib.Data.Set.Card
import Apk2Ios.Shim.Futex

/-!
# The shim: what a futex wake does

A wake broadcasts or signals on the condition variable of the node, and the waiters test the
word again.  After a store no wake-up is lost.  The number of released waiters is not the one
that `FUTEX_WAKE` promises in general; it is exactly then when the waiters for another value
are as many as the count.
-/

namespace Apk2Ios

open Lib

section

variable {ι : Type*} [DecidableEq ι] {args : ι → SyscallArgs} {word : ℕ → ℕ} {i j w : ι}
  {a e n : ℕ} {count : ℤ} {m m' : FutexMemory ι} {p p' : FutexPoint}
  {c d c₁ c₂ : Config ι (FutexMemory ι) FutexPoint}

/-! ### A call and its node -/

omit [DecidableEq ι] in
lemma FutexReached.lookup {call : ι → Option FutexCall} (hc : FutexReached call c)
    {k : FutexCall} (hk : call i = some k) (hp : (c.point i).node? = some n) :
    c.memory.futexes.lookup k.address = some n := by
  obtain ⟨k', hk', hn⟩ := (hc.assertion i).node n hp
  rwa [Option.some.inj (hk.symm.trans hk')]

omit [DecidableEq ι] in
/-- Two calls in the critical sections of one address are the same call. -/
lemma FutexReached.eq_of_critical {call : ι → Option FutexCall} (hc : FutexReached call c)
    {k l : FutexCall} (hi : call i = some k) (hj : call j = some l)
    (haddress : k.address = l.address) {n n' : ℕ} (hci : (c.point i).Critical n)
    (hcj : (c.point j).Critical n') : i = j := by
  have hni := hc.lookup hi hci.node?_eq
  have hnj := hc.lookup hj hcj.node?_eq
  rw [haddress] at hni
  obtain rfl := Option.some.inj (hni.symm.trans hnj)
  exact Option.some.inj (((hc.mutex n).2 i hci).1.symm.trans ((hc.mutex n).2 j hcj).1)

/-! ### No lost wake-up -/

/-- The call has signalled, or will never do so. -/
def FutexPoint.Past : FutexPoint → Prop
  | unlock _ _ | returned _ => True
  | _ => False

/-- When the call `w` is past its wake-up, no wait for `e` is asleep or about to be. -/
def NobodyWaits (args : ι → SyscallArgs) (w : ι) (a e : ℕ)
    (c : Config ι (FutexMemory ι) FutexPoint) : Prop :=
  (c.point w).Past → ∀ i t, (args i).call = some (.wait a e t) →
    ∀ n, c.point i ≠ .condWait n ∧ i ∉ (c.memory.node n).sleepers

/-- A wake with a count of at least 2 broadcasts, unless there is no node. -/
lemma FutexStep.past_of_wake {call : ι → Option FutexCall} (h : FutexStep call w m p m' p')
    (hw : call w = some (.wake a count)) (hcount : 2 ≤ count) (hp' : p'.Past)
    (hwait : p.OfWait → ∃ a e t, call w = some (.wait a e t)) :
    p.Past ∨ p = .create ∧ m'.node = m.node ∨
      ∃ n, p = .signal n ∧ m' = m.modify n fun node => node.wake node.sleepers := by
  have hnot : ¬ p.OfWait := fun h => by
    obtain ⟨_, _, _, h⟩ := hwait h
    exact nomatch hw.symm.trans h
  cases h with
  | enosys h | efault h => exact nomatch hw.symm.trans h
  | enomem => exact Or.inr (Or.inl ⟨rfl, rfl⟩)
  | @signal _ _ _ c hk hle =>
    cases hw.symm.trans hk
    omega
  | broadcast => exact Or.inr (Or.inr ⟨_, rfl, rfl⟩)
  | unlock => exact Or.inl trivial
  | eagain | changed | reacquireTimedOut => exact absurd trivial hnot
  | @lock k => cases k <;> exact hp'.elim
  | _ => exact hp'.elim

/-- A wait is about to sleep only after it has seen its expected value. -/
lemma FutexStep.word_of_condWait {call : ι → Option FutexCall} {t : Bool}
    (h : FutexStep call i m p m' (.condWait n)) (hi : call i = some (.wait a e t)) :
    m.word a = e := by
  generalize hp' : FutexPoint.condWait n = p' at h
  cases h with
  | again hk hword =>
    cases hi.symm.trans hk
    exact hword
  | @lock k => cases k <;> exact nomatch hp'
  | _ => exact nomatch hp'

lemma NobodyWaits.step (hstep : (a2iSyscall args).Step c d)
    (hreached : FutexReached (fun i => (args i).call) c) (hc : NobodyWaits args w a e c)
    (hw : (args w).call = some (.wake a count)) (hcount : 2 ≤ count)
    (hword : c.memory.word a ≠ e) : NobodyWaits args w a e d := by
  rcases hstep with @⟨j, m', p', hj⟩ | ⟨_, _, rfl⟩
  · intro hpast i t hi
    have hiw : i ≠ w := by
      rintro rfl
      exact nomatch hw.symm.trans hi
    -- a call that does not wait does not begin to wait: its expected value is not there
    have hpoint (hold : ∀ n, c.point i ≠ .condWait n) (n : ℕ) :
        Function.update c.point j p' i ≠ .condWait n := by
      by_cases hij : i = j
      · subst hij
        rw [Function.update_self]
        rintro rfl
        exact hword (hj.word_of_condWait hi)
      · rw [Function.update_of_ne hij]
        exact hold n
    have hkeep (hold : ∀ n, c.point i ≠ .condWait n ∧ i ∉ (c.memory.node n).sleepers) (n : ℕ) :
        Function.update c.point j p' i ≠ .condWait n ∧ i ∉ (m'.node n).sleepers := by
      refine ⟨hpoint (fun n => (hold n).1) n, fun hn => ?_⟩
      rcases hj.sleepers hreached.inv hn with ⟨hn, -⟩ | ⟨rfl, hp, -⟩
      · exact (hold n).2 hn
      · exact (hold n).1 hp
    have hnode : ∀ n, (c.point i).node? = some n → c.memory.futexes.lookup a = some n :=
      fun n hn => hreached.lookup hi hn
    have hasleep : ∀ n, i ∈ (c.memory.node n).sleepers → c.memory.futexes.lookup a = some n :=
      fun n hn => hnode n (congrArg FutexPoint.node? ((hreached.assertion i).asleep n hn))
    by_cases hjw : j = w
    · subst hjw
      have hpast' : p'.Past := by
        have h : FutexPoint.Past (Function.update c.point j p' j) := hpast
        rwa [Function.update_self] at h
      rcases hj.past_of_wake hw hcount hpast' (hreached.assertion j).ofWait with
        hpast | ⟨hcreate, -⟩ | ⟨n, hsignal, rfl⟩
      · exact hkeep (hc hpast i t hi)
      · -- without a node nobody waits
        have hnone := (hreached.list.2 j (by rw [hcreate]; trivial)).2 hcreate _ hw
        refine hkeep fun n => ⟨fun h => ?_, fun h => ?_⟩
        · exact nomatch hnone.symm.trans (hnode n (congrArg FutexPoint.node? h))
        · exact nomatch hnone.symm.trans (hasleep n h)
      · have hn := hreached.lookup hw (congrArg FutexPoint.node? hsignal)
        refine fun n' => ⟨hpoint (fun k hk => ?_) n', fun h => ?_⟩
        · -- the mutex is held by the call that signals
          exact hiw (hreached.eq_of_critical hi hw rfl (by rw [hk]; rfl) (by rw [hsignal]; rfl))
        · by_cases hn' : n = n'
          · subst hn'
            rw [FutexMemory.node_modify_self, Monitor.sleepers_wake_self] at h
            exact absurd h (Finset.notMem_empty i)
          · rw [FutexMemory.node_modify_of_ne _ _ hn'] at h
            exact hn' (Option.some.inj (hn.symm.trans (hasleep n' h)))
    · have hpast' : (c.point w).Past := by
        have h : FutexPoint.Past (Function.update c.point j p' w) := hpast
        rwa [Function.update_of_ne (Ne.symm hjw)] at h
      exact hkeep (hc hpast' i t hi)
  · exact hc

/-- **No wake-up is lost after a store.**  The word is not `e` when a `FUTEX_WAKE` with a count
of at least 2 begins, and it is not set to `e` until some state after the call has returned.
In that state no wait for `e` is asleep, whenever it began. -/
theorem futex_no_lost_wake (hreach : (a2iSyscall args).Reaches (futexStart ι word) c₁)
    (hw : (args w).call = some (.wake a count)) (hcount : 2 ≤ count)
    (hbegin : c₁.point w = .start) (hword : c₁.memory.word a ≠ e)
    (hrun : Relation.ReflTransGen
      (fun c d => (a2iSyscall args).Step c d ∧ d.memory.word a ≠ e) c₁ c₂)
    {rc : Except Errno ℤ} (hreturned : c₂.point w = .returned rc) :
    ∀ i t n, (args i).call = some (.wait a e t) →
      ¬ (c₂.point i = .asleep n ∧ i ∈ (c₂.memory.node n).sleepers) := by
  have hinv : FutexReached (fun i => (args i).call) c₂ ∧ c₂.memory.word a ≠ e ∧
      NobodyWaits args w a e c₂ := by
    clear hreturned
    induction hrun with
    | refl =>
      refine ⟨futexReached hreach, hword, fun h => ?_⟩
      rw [hbegin] at h
      exact h.elim
    | tail _ hlast ih =>
      obtain ⟨hreached, hne, hwaits⟩ := ih
      exact ⟨hreached.step hlast.1, hlast.2, hwaits.step hlast.1 hreached hw hcount hne⟩
  intro i t n hi hsleep
  have hpast : (c₂.point w).Past := by
    rw [hreturned]
    trivial
  exact (hinv.2.2 hpast i t hi n).2 hsleep.2

end

/-! ### A run -/

/-- A wait for 0 at 8, and a wake there. -/
def futexArgs (count : BitVec 32) : Bool → SyscallArgs
  | false => ⟨98, 8, 0, 0, 0⟩
  | true => ⟨98, 8, 1, count, 0⟩

lemma futexArgs_wait (count : BitVec 32) :
    (futexArgs count false).call = some (.wait 8 0 false) := by
  simp [futexArgs, SyscallArgs.call]

lemma futexArgs_wake (count : BitVec 32) :
    (futexArgs count true).call = some (.wake 8 count.toInt) := by
  simp [futexArgs, SyscallArgs.call]

/-- The wait can fall asleep on a node at 16. -/
lemma reaches_asleep (count : BitVec 32) :
    ∃ c, (a2iSyscall (futexArgs count)).Reaches (futexStart Bool fun _ => 0) c ∧
      c.point true = .start ∧ c.point false = .asleep 16 ∧ c.memory.word = (fun _ => 0) ∧
      c.memory.lock = none ∧ c.memory.futexes = [(8, 16)] ∧
      c.memory.node 16 = ⟨none, {false}⟩ := by
  have hwait := futexArgs_wait count
  have hfresh : ∀ a, (a, 16) ∉ (futexStart Bool fun _ => 0).memory.futexes := fun _ => nofun
  have hstart : (a2iSyscall (futexArgs count)).Reaches (futexStart Bool fun _ => 0)
      (futexStart Bool fun _ => 0) := .refl
  have hlist := hstart.tail (.thread false (.lockList hwait nofun rfl))
  have hcreate := hlist.tail (.thread false (.missing hwait rfl))
  have hnode := hcreate.tail (.thread false (.created hwait hfresh))
  have hlock := hnode.tail (.thread false (.lock hwait rfl))
  have htest := hlock.tail (.thread false (.expected hwait rfl))
  have hloop := htest.tail (.thread false (.again hwait rfl))
  have hsleep := hloop.tail (.thread false .condWait)
  exact ⟨_, hsleep, rfl, rfl, rfl, rfl, rfl, rfl⟩

/-- Then the wake can come to its signal. -/
lemma reaches_signal (count : BitVec 32) :
    ∃ c, (a2iSyscall (futexArgs count)).Reaches (futexStart Bool fun _ => 0) c ∧
      c.point true = .signal 16 ∧ c.memory.word = (fun _ => 0) ∧
      c.memory.node 16 = ⟨some true, {false}⟩ := by
  obtain ⟨c, hreach, hbegin, -, hword, hlock, hlist, hnode⟩ := reaches_asleep count
  have hwake := futexArgs_wake count
  have hlookup : c.memory.futexes.lookup 8 = some 16 := by rw [hlist]; rfl
  have hfree : (c.memory.node 16).owner = none := by rw [hnode]
  have hsearch := hreach.tail (.at hbegin (.lockList hwake nofun hlock))
  have hfound := hsearch.tail (.at (Function.update_self ..) (.found hwake hlookup))
  have hmutex := hfound.tail (.at (Function.update_self ..) (.lock hwake hfree))
  exact ⟨_, hmutex, by simp [FutexCall.body], hword, by simp [hnode, Monitor.lock]⟩

theorem futex_no_lost_wake_run : ∃ c : Config Bool (FutexMemory Bool) FutexPoint,
    c.point true = .returned (.ok 2) ∧
      ¬ (c.point false = .asleep 16 ∧ false ∈ (c.memory.node 16).sleepers) := by
  obtain ⟨c₀, hreach, hbegin, -, hword, hlock, hlist, hnode⟩ := reaches_asleep 2
  -- the store before the wake
  let c₁ : Config Bool (FutexMemory Bool) FutexPoint :=
    ⟨{ c₀.memory with word := Function.update c₀.memory.word 8 1 }, c₀.point⟩
  have hstore : (a2iSyscall (futexArgs 2)).Reaches (futexStart Bool fun _ => 0) c₁ :=
    hreach.tail (.env ⟨8, 1, rfl⟩)
  have hne : c₁.memory.word 8 ≠ 0 := by simp [c₁]
  have hwake := futexArgs_wake 2
  have hlookup : c₁.memory.futexes.lookup 8 = some 16 := by simp [c₁, hlist]
  have hfree : (c₁.memory.node 16).owner = none := by simp [c₁, hnode]
  have hstart : Relation.ReflTransGen
      (fun c d => (a2iSyscall (futexArgs 2)).Step c d ∧ d.memory.word 8 ≠ 0) c₁ c₁ := .refl
  have hsearch := hstart.tail ⟨.at hbegin (.lockList hwake nofun hlock), hne⟩
  have hfound := hsearch.tail ⟨.at (Function.update_self ..) (.found hwake hlookup), hne⟩
  have hmutex := hfound.tail ⟨.at (Function.update_self ..) (.lock hwake hfree), hne⟩
  have hbroadcast := hmutex.tail
    ⟨.at (Function.update_self ..) (.broadcast hwake (by decide)), hne⟩
  have hreturn := hbroadcast.tail ⟨.at (Function.update_self ..) .unlock, hne⟩
  have hrun : ∃ c₂, Relation.ReflTransGen
      (fun c d => (a2iSyscall (futexArgs 2)).Step c d ∧ d.memory.word 8 ≠ 0) c₁ c₂ ∧
        c₂.point true = .returned (.ok 2) := ⟨_, hreturn, by simp⟩
  obtain ⟨c₂, hrun, hreturned⟩ := hrun
  exact ⟨c₂, hreturned, futex_no_lost_wake hstore hwake le_rfl hbegin hne hrun hreturned false
    false 16 (futexArgs_wait 2)⟩

/-! ### Which waiters a wake releases -/

section

variable {ι : Type*} [DecidableEq ι] {args : ι → SyscallArgs} {word : ℕ → ℕ} {i j w : ι}
  {a e n : ℕ} {t : Bool} {count : ℤ} {rc : Except Errno ℤ} {m m' : FutexMemory ι}
  {p p' : FutexPoint} {c d : Config ι (FutexMemory ι) FutexPoint}

/-- The calls that are blocked in `FUTEX_WAIT` on an address. -/
def BlockedOn (args : ι → SyscallArgs) (a : ℕ) (c : Config ι (FutexMemory ι) FutexPoint) :
    Set ι :=
  {i | ∃ e t n, (args i).call = some (.wait a e t) ∧ c.point i = .asleep n ∧
    i ∈ (c.memory.node n).sleepers}

/-- The blocked calls whose expected value is not there any more. -/
def StaleOn (args : ι → SyscallArgs) (a : ℕ) (c : Config ι (FutexMemory ι) FutexPoint) : Set ι :=
  {i | i ∈ BlockedOn args a c ∧
    ∀ e t, (args i).call = some (.wait a e t) → c.memory.word a ≠ e}

/-- A step that neither changes the word nor is the signal of a wake on its address. -/
def QuietStep (args : ι → SyscallArgs) (a : ℕ) (c d : Config ι (FutexMemory ι) FutexPoint) :
    Prop :=
  (a2iSyscall args).Step c d ∧ d.memory.word a = c.memory.word a ∧
    ∀ w count n, (args w).call = some (.wake a count) → c.point w = .signal n →
      d.point w = .signal n

/-- The call returns 0 without any further wake or any change of the word: until one of these
it does not wait again, it returns nothing else, and it can return. -/
structure ReturnsZero (args : ι → SyscallArgs) (a : ℕ) (i : ι)
    (c : Config ι (FutexMemory ι) FutexPoint) : Prop where
  awake : ∀ d, Relation.ReflTransGen (QuietStep args a) c d →
    ∀ n, d.point i ≠ .condWait n ∧ i ∉ (d.memory.node n).sleepers
  result : ∀ d rc, Relation.ReflTransGen (QuietStep args a) c d → d.point i = .returned rc →
    rc = .ok 0
  returns : ∃ d, Relation.ReflTransGen (QuietStep args a) c d ∧ d.point i = .returned (.ok 0)

lemma FutexStep.word_eq {call : ι → Option FutexCall} (h : FutexStep call i m p m' p') :
    m'.word = m.word := by
  cases h <;> rfl

lemma QuietStep.at (hp : c.point j = p) (hsignal : ∀ n, p ≠ .signal n)
    (h : FutexStep (fun i => (args i).call) j c.memory p m' p') :
    QuietStep args a c ⟨m', Function.update c.point j p'⟩ := by
  refine ⟨.at hp h, congrFun h.word_eq a, fun w count n _ hw => ?_⟩
  have hwj : w ≠ j := by
    rintro rfl
    exact hsignal n (hp.symm.trans hw)
  exact (Function.update_of_ne hwj ..).trans hw

/-- The call has been unblocked and is on its way out of the wait. -/
def Leaving (i : ι) (c : Config ι (FutexMemory ι) FutexPoint) : Prop :=
  (∃ n, c.point i = .asleep n ∧ i ∉ (c.memory.node n).sleepers) ∨ (∃ n, c.point i = .loop n) ∨
    (∃ n, c.point i = .unlock n (.ok 0)) ∨ c.point i = .returned (.ok 0)

lemma FutexStep.leaving {call : ι → Option FutexCall} (h : FutexStep call i m p m' p')
    (hi : call i = some (.wait a e t)) (hword : m.word a ≠ e)
    (hp : (∃ n, p = .asleep n ∧ i ∉ (m.node n).sleepers) ∨ (∃ n, p = .loop n) ∨
      (∃ n, p = .unlock n (.ok 0)) ∨ p = .returned (.ok 0)) :
    (∃ n, p' = .loop n) ∨ (∃ n, p' = .unlock n (.ok 0)) ∨ p' = .returned (.ok 0) := by
  rcases hp with ⟨n, rfl, hn⟩ | ⟨n, rfl⟩ | ⟨n, rfl⟩ | rfl
  · cases h with
    | wakeSpuriously hn' | timeOut _ hn' => exact absurd hn' hn
    | reacquire => exact Or.inl ⟨n, rfl⟩
  · cases h with
    | again hk hword' =>
      cases hi.symm.trans hk
      exact absurd hword' hword
    | changed => exact Or.inr (Or.inl ⟨n, rfl⟩)
  · cases h with
    | unlock => exact Or.inr (Or.inr rfl)
  · cases h

lemma Leaving.step (hstep : (a2iSyscall args).Step c d)
    (hreached : FutexReached (fun i => (args i).call) c)
    (hi : (args i).call = some (.wait a e t)) (hword : c.memory.word a ≠ e) (hc : Leaving i c) :
    Leaving i d := by
  rcases hstep with @⟨j, m', p', hj⟩ | ⟨_, _, rfl⟩
  · by_cases hij : i = j
    · subst hij
      have h := hj.leaving hi hword hc
      rw [Leaving]
      dsimp only
      rw [Function.update_self]
      exact Or.inr h
    · rw [Leaving] at hc ⊢
      dsimp only
      rw [Function.update_of_ne hij]
      refine hc.imp_left fun ⟨n, hp, hn⟩ => ⟨n, hp, fun hn' => ?_⟩
      rcases hj.sleepers hreached.inv hn' with ⟨h, -⟩ | ⟨h, -⟩
      · exact hn h
      · exact hij h
  · exact hc

lemma Leaving.run (hrun : Relation.ReflTransGen (QuietStep args a) c d)
    (hreached : FutexReached (fun i => (args i).call) c)
    (hi : (args i).call = some (.wait a e t)) (hword : c.memory.word a ≠ e) (hc : Leaving i c) :
    FutexReached (fun i => (args i).call) d ∧ d.memory.word a ≠ e ∧ Leaving i d := by
  induction hrun with
  | refl => exact ⟨hreached, hword, hc⟩
  | tail _ hlast ih =>
    obtain ⟨hreached, hword, hleave⟩ := ih
    exact ⟨hreached.step hlast.1, hlast.2.1.symm ▸ hword, hleave.step hlast.1 hreached hi hword⟩

omit [DecidableEq ι] in
/-- A call that is leaving does not wait. -/
lemma Leaving.awake {call : ι → Option FutexCall} (hreached : FutexReached call c)
    (h : Leaving i c) (n : ℕ) : c.point i ≠ .condWait n ∧ i ∉ (c.memory.node n).sleepers := by
  have hasleep := (hreached.assertion i).asleep n
  rcases h with ⟨k, hk, hn⟩ | ⟨k, hk⟩ | ⟨k, hk⟩ | hk <;> rw [hk] at hasleep ⊢
  · refine ⟨nofun, fun h => hn ?_⟩
    obtain rfl := FutexPoint.asleep.inj (hasleep h)
    exact h
  all_goals exact ⟨nofun, fun h => nomatch hasleep h⟩

/-- When the mutex is released, an unblocked call goes back to the test of the word. -/
lemma exists_quiet_loop (hw : d.point w = .unlock n rc) (hi : d.point i = .asleep n)
    (hn : i ∉ (d.memory.node n).sleepers) :
    ∃ d', Relation.ReflTransGen (QuietStep args a) d d' ∧ d'.point i = .loop n ∧
      d'.memory.word = d.memory.word := by
  have hiw : i ≠ w := by
    rintro rfl
    exact nomatch hi.symm.trans hw
  have hunlock : QuietStep args a d _ := .at hw nofun .unlock
  have hreacquire : QuietStep args a
      ⟨d.memory.modify n (·.unlock), Function.update d.point w (.returned rc)⟩ _ :=
    .at ((Function.update_of_ne hiw ..).trans hi) nofun (.reacquire (by simpa) (by simp))
  exact ⟨_, (Relation.ReflTransGen.single hunlock).tail hreacquire, Function.update_self .., rfl⟩

/-- Right after the wake, a blocked call returns 0 without further help when it was unblocked
and its expected value is not there any more. -/
lemma returnsZero_iff (hreached : FutexReached (fun i => (args i).call) d)
    (hw : d.point w = .unlock n rc) (hcall : (args i).call = some (.wait a e t))
    (hi : d.point i = .asleep n) :
    ReturnsZero args a i d ↔ i ∉ (d.memory.node n).sleepers ∧ d.memory.word a ≠ e := by
  constructor
  · intro h
    have hn := (h.awake d .refl n).2
    refine ⟨hn, fun hword => ?_⟩
    -- the call would see its expected value and wait again
    obtain ⟨d', hrun, hloop, hsame⟩ := exists_quiet_loop hw hi hn
    have hagain : QuietStep args a d' _ :=
      .at hloop nofun (.again hcall ((congrFun hsame a).trans hword))
    exact (h.awake _ (hrun.tail hagain) n).1 (Function.update_self ..)
  · rintro ⟨hn, hword⟩
    have hleave : Leaving i d := Or.inl ⟨n, hi, hn⟩
    refine ⟨fun d' hrun => ?_, fun d' rc' hrun hd' => ?_, ?_⟩
    · obtain ⟨hreached', -, hleave'⟩ := hleave.run hrun hreached hcall hword
      exact hleave'.awake hreached'
    · obtain ⟨-, -, hleave'⟩ := hleave.run hrun hreached hcall hword
      rw [Leaving, hd'] at hleave'
      rcases hleave' with ⟨_, h, -⟩ | ⟨_, h⟩ | ⟨_, h⟩ | h
      · exact nomatch h
      · exact nomatch h
      · exact nomatch h
      · exact FutexPoint.returned.inj h
    · obtain ⟨d', hrun, hloop, hsame⟩ := exists_quiet_loop hw hi hn
      have hchanged : QuietStep args a d' _ :=
        .at hloop nofun (.changed hcall (fun h => hword ((congrFun hsame a).symm.trans h)))
      exact ⟨_, (hrun.tail hchanged).tail (.at (Function.update_self ..) nofun .unlock),
        Function.update_self ..⟩

/-! ### The contract of a wake -/

/-- The blocked calls that a step lets return. -/
def ReleasedOn (args : ι → SyscallArgs) (a : ℕ) (c d : Config ι (FutexMemory ι) FutexPoint) :
    Set ι :=
  {i | i ∈ BlockedOn args a c ∧ ReturnsZero args a i d}

/-- What `FUTEX_WAKE` promises for a step that wakes at most `count` waiters and returns `rc`:
it releases as many blocked calls as there are, up to the count, it says how many, and the
calls on other addresses stay blocked. -/
structure WakeContract (args : ι → SyscallArgs) (a : ℕ) (count : ℤ)
    (c d : Config ι (FutexMemory ι) FutexPoint) (rc : Except Errno ℤ) : Prop where
  released : (ReleasedOn args a c d).encard = min (count.toNat : ℕ∞) (BlockedOn args a c).encard
  result : ∃ k : ℕ, rc = .ok (k : ℤ) ∧ (ReleasedOn args a c d).encard = k
  others : ∀ b, b ≠ a → BlockedOn args b d = BlockedOn args b c

/-- The step that decides what a wake returns: it signals, or it has no memory for a node. -/
def WakeStep (args : ι → SyscallArgs) (w : ι) (rc : Except Errno ℤ)
    (c d : Config ι (FutexMemory ι) FutexPoint) : Prop :=
  (a2iSyscall args).Step c d ∧
    ((∃ n, c.point w = .signal n ∧ d.point w = .unlock n rc) ∨
      c.point w = .create ∧ d.point w = .returned rc)

/-- The address has a node, and: no stale call is blocked if the count is 0; exactly one call
is blocked and it is stale if the count is 1; as many stale calls as the count are blocked if
it is larger. -/
structure WakeHolds (args : ι → SyscallArgs) (a : ℕ) (count : ℤ)
    (c : Config ι (FutexMemory ι) FutexPoint) : Prop where
  node : c.memory.futexes.lookup a ≠ none
  zero : count = 0 → StaleOn args a c = ∅
  one : count = 1 → (BlockedOn args a c).encard = 1 ∧ StaleOn args a c = BlockedOn args a c
  many : 2 ≤ count → (StaleOn args a c).encard = count.toNat

/-- The steps that decide what a wake returns at its signal. -/
lemma wakeStep_iff (hw : (args w).call = some (.wake a count)) (hn : c.point w = .signal n) :
    WakeStep args w rc c d ↔ rc = .ok (if 0 < count then count else 0) ∧
      ∃ woken, (count ≤ 1 ∧ (c.memory.node n).Signals woken ∨
          1 < count ∧ woken = (c.memory.node n).sleepers) ∧
        d = ⟨c.memory.modify n (·.wake woken), Function.update c.point w (.unlock n rc)⟩ := by
  constructor
  · rintro ⟨hstep, hpoint⟩
    rw [hn] at hpoint
    obtain ⟨k, hk, hd⟩ := hpoint.resolve_right fun h => nomatch h.1
    obtain rfl := FutexPoint.signal.inj hk
    rcases hstep with @⟨j, m', p', hj⟩ | ⟨_, _, rfl⟩
    -- a step of another thread leaves the waking one at its signal
    · by_cases hjw : j = w
      · subst hjw
        dsimp only at hd
        rw [Function.update_self] at hd
        subst hd
        rw [hn] at hj
        cases hj with
        | signal hk hle hsig =>
          cases hw.symm.trans hk
          exact ⟨rfl, _, Or.inl ⟨hle, hsig⟩, rfl⟩
        | broadcast hk hlt =>
          cases hw.symm.trans hk
          exact ⟨rfl, _, Or.inr ⟨hlt, rfl⟩, rfl⟩
      · dsimp only at hd
        rw [Function.update_of_ne (Ne.symm hjw), hn] at hd
        exact nomatch hd
    · exact nomatch hn.symm.trans hd
  · rintro ⟨rfl, woken, hwoken, rfl⟩
    refine ⟨?_, Or.inl ⟨n, hn, Function.update_self ..⟩⟩
    rcases hwoken with ⟨hle, hsig⟩ | ⟨hlt, rfl⟩
    · exact .at hn (.signal hw hle hsig)
    · exact .at hn (.broadcast hw hlt)

omit [DecidableEq ι] in
/-- While a wake holds the mutex of the node, the blocked calls are its sleepers. -/
lemma blockedOn_eq_sleepers (hreached : FutexReached (fun i => (args i).call) c)
    (hw : (args w).call = some (.wake a count)) (hn : (c.point w).node? = some n) :
    BlockedOn args a c = (c.memory.node n).sleepers := by
  have hlookup := hreached.lookup hw hn
  ext i
  constructor
  · rintro ⟨e, t, k, hi, hk, hsleep⟩
    have hlookup' := hreached.lookup hi (congrArg FutexPoint.node? hk)
    obtain rfl := Option.some.inj (hlookup.symm.trans hlookup')
    exact hsleep
  · intro hi
    have hpoint := (hreached.assertion i).asleep n hi
    obtain ⟨b, e, t, hb⟩ := (hreached.assertion i).ofWait (by rw [hpoint]; trivial)
    have hlookup' := hreached.lookup hb (congrArg FutexPoint.node? hpoint)
    obtain rfl := hreached.inv.inj b a n hlookup' hlookup
    exact ⟨e, t, n, hb, hpoint, hi⟩

section

variable {woken : Finset ι} (hreached : FutexReached (fun i => (args i).call) c)
  (hw : (args w).call = some (.wake a count)) (hn : c.point w = .signal n)
include hreached hw hn

/-- A wake releases the stale calls it unblocks. -/
lemma releasedOn_eq
    (hstep : (a2iSyscall args).Step c
      ⟨c.memory.modify n (·.wake woken), Function.update c.point w (.unlock n rc)⟩) :
    ReleasedOn args a c
      ⟨c.memory.modify n (·.wake woken), Function.update c.point w (.unlock n rc)⟩ =
        ↑woken ∩ StaleOn args a c := by
  have hblocked := blockedOn_eq_sleepers hreached hw (congrArg FutexPoint.node? hn)
  ext i
  show (i ∈ BlockedOn args a c ∧ _) ↔ i ∈ woken ∧ i ∈ BlockedOn args a c ∧ _
  rw [and_left_comm]
  refine and_congr_right fun hi => ?_
  obtain ⟨e, t, k, hcall, hpoint, hsleep⟩ := id hi
  rw [hblocked] at hi
  obtain rfl := FutexPoint.asleep.inj (hpoint.symm.trans ((hreached.assertion i).asleep n hi))
  have hiw : i ≠ w := by
    rintro rfl
    exact nomatch hn.symm.trans hpoint
  rw [returnsZero_iff (hreached.step hstep) (Function.update_self ..) hcall
    ((Function.update_of_ne hiw ..).trans hpoint)]
  refine and_congr ?_ ⟨fun h e' t' hcall' => ?_, fun h => h e t hcall⟩
  · have hi := Finset.mem_coe.mp hi
    simp only [FutexMemory.node_modify_self, Monitor.sleepers_wake, Finset.mem_sdiff, hi, true_and,
      not_not]
  · cases hcall.symm.trans hcall'
    exact h

/-- Nothing happens to the calls that are blocked on other addresses. -/
lemma blockedOn_of_ne {b : ℕ} (hb : b ≠ a) :
    BlockedOn args b ⟨c.memory.modify n (·.wake woken), Function.update c.point w (.unlock n rc)⟩ =
      BlockedOn args b c := by
  have hlookup := hreached.lookup hw (congrArg FutexPoint.node? hn)
  ext i
  refine exists_congr fun e => exists_congr fun t => exists_congr fun k => and_congr_right
    fun hcall => ?_
  have hiw : i ≠ w := by
    rintro rfl
    exact nomatch hw.symm.trans hcall
  dsimp only
  rw [Function.update_of_ne hiw]
  refine and_congr_right fun hpoint => ?_
  have hkn : n ≠ k := by
    rintro rfl
    exact hb (hreached.inv.inj b a n (hreached.lookup hcall (congrArg FutexPoint.node? hpoint))
      hlookup)
  rw [FutexMemory.node_modify_of_ne _ _ hkn]

/-- The contract of a wake, by the stale calls among those it unblocks. -/
lemma wakeContract_iff (hcount : 0 ≤ count) (hrc : rc = .ok (if 0 < count then count else 0))
    (hwoken : woken ⊆ (c.memory.node n).sleepers)
    (hstep : (a2iSyscall args).Step c
      ⟨c.memory.modify n (·.wake woken), Function.update c.point w (.unlock n rc)⟩) :
    WakeContract args a count c
      ⟨c.memory.modify n (·.wake woken), Function.update c.point w (.unlock n rc)⟩ rc ↔
        ((woken : Set ι) ∩ StaleOn args a c).encard = count.toNat := by
  have hreleased := releasedOn_eq hreached hw hn hstep
  have hresult : (if 0 < count then count else 0) = (count.toNat : ℤ) := by
    split <;> omega
  constructor
  · rintro ⟨-, ⟨k, hk, hcard⟩, -⟩
    rw [hrc, hresult, Except.ok.injEq, Nat.cast_inj] at hk
    rw [← hreleased, hcard, hk]
  · intro hcard
    have hle : (count.toNat : ℕ∞) ≤ (BlockedOn args a c).encard := by
      rw [← hcard, blockedOn_eq_sleepers hreached hw (congrArg FutexPoint.node? hn)]
      exact Set.encard_le_encard fun i hi => Finset.mem_coe.mpr (hwoken hi.1)
    refine ⟨?_, ⟨count.toNat, ?_, ?_⟩, fun b hb => blockedOn_of_ne hreached hw hn hb⟩
    · rw [hreleased, hcard, min_eq_left hle]
    · rw [hrc, hresult]
    · rw [hreleased, hcard]

end

/-! ### Every signal -/

section

variable {mon : Monitor ι} {s : Set ι}

omit [DecidableEq ι] in
lemma signals_sleepers (mon : Monitor ι) : mon.Signals mon.sleepers := ⟨subset_rfl, id⟩

omit [DecidableEq ι] in
/-- No signal unblocks a call of `s`. -/
lemma forall_signals_eq_zero (hs : s ⊆ mon.sleepers) :
    (∀ woken, mon.Signals woken → ((woken : Set ι) ∩ s).encard = 0) ↔ s = ∅ := by
  constructor
  · intro h
    have hall := h _ (signals_sleepers mon)
    rwa [Set.inter_eq_right.mpr hs, Set.encard_eq_zero] at hall
  · rintro rfl woken -
    rw [Set.inter_empty, Set.encard_empty]

omit [DecidableEq ι] in
/-- Every signal unblocks exactly one call of `s`. -/
lemma forall_signals_eq_one (hs : s ⊆ mon.sleepers) :
    (∀ woken, mon.Signals woken → ((woken : Set ι) ∩ s).encard = 1) ↔
      (mon.sleepers : Set ι).encard = 1 ∧ s = mon.sleepers := by
  constructor
  · intro h
    have hall := h _ (signals_sleepers mon)
    rw [Set.inter_eq_right.mpr hs] at hall
    have hsup : s = mon.sleepers := by
      refine hs.antisymm fun i hi => ?_
      -- a signal can unblock just this call
      have hi' : mon.Signals {i} :=
        ⟨Finset.singleton_subset_iff.mpr hi, fun _ => Finset.singleton_nonempty i⟩
      obtain ⟨j, hj⟩ := Set.encard_eq_one.mp (h _ hi')
      have hmem : j ∈ ((({i} : Finset ι) : Set ι) ∩ s) := hj ▸ Set.mem_singleton j
      rw [Finset.coe_singleton] at hmem
      obtain rfl := Set.mem_singleton_iff.mp hmem.1
      exact hmem.2
    exact ⟨hsup ▸ hall, hsup⟩
  · rintro ⟨hone, rfl⟩ woken ⟨hsub, hne⟩
    obtain ⟨i, hi⟩ := Set.encard_eq_one.mp hone
    have hmem : i ∈ mon.sleepers := Finset.mem_coe.mp (hi ▸ Set.mem_singleton i)
    have heq : (woken : Set ι) = {i} := by
      have hsub' : (woken : Set ι) ⊆ {i} := hi ▸ Finset.coe_subset.mpr hsub
      exact (Finset.coe_nonempty.mpr (hne ⟨i, hmem⟩)).subset_singleton_iff.mp hsub'
    rw [Set.inter_eq_left.mpr (Finset.coe_subset.mpr hsub), heq, Set.encard_singleton]

end

/-- **When a wake keeps the promise of `FUTEX_WAKE`.**  In every reachable state in which a
call of `FUTEX_WAKE` with a count of at least 0 is about to decide what it returns, it keeps
the contract whatever the host does exactly if `WakeHolds`. -/
theorem futex_wake_contract_iff (hreach : (a2iSyscall args).Reaches (futexStart ι word) c)
    (hw : (args w).call = some (.wake a count)) (hcount : 0 ≤ count)
    (hpoint : c.point w = .create ∨ ∃ n, c.point w = .signal n) :
    (∀ d rc, WakeStep args w rc c d → WakeContract args a count c d rc) ↔
      WakeHolds args a count c := by
  have hreached := futexReached hreach
  rcases hpoint with hcreate | ⟨n, hn⟩
  · -- `calloc` can fail
    have hnone := (hreached.list.2 w (by rw [hcreate]; trivial)).2 hcreate _ hw
    refine ⟨fun h => ?_, fun h => absurd hnone h.node⟩
    have hstep : WakeStep args w (.error .ENOMEM) c _ :=
      ⟨.at hcreate .enomem, Or.inr ⟨hcreate, Function.update_self ..⟩⟩
    obtain ⟨_, h, -⟩ := (h _ _ hstep).result
    exact nomatch h
  · have hblocked := blockedOn_eq_sleepers hreached hw (congrArg FutexPoint.node? hn)
    have hstale : StaleOn args a c ⊆ (c.memory.node n).sleepers := hblocked ▸ fun _ h => h.1
    have hnode : c.memory.futexes.lookup a ≠ none := by
      rw [show c.memory.futexes.lookup a = some n from
        hreached.lookup hw (congrArg FutexPoint.node? hn)]
      simp
    -- the contract, for everything that the signal can unblock
    have hall : (∀ d rc, WakeStep args w rc c d → WakeContract args a count c d rc) ↔
        ∀ woken, (count ≤ 1 ∧ (c.memory.node n).Signals woken ∨
          1 < count ∧ woken = (c.memory.node n).sleepers) →
            ((woken : Set ι) ∩ StaleOn args a c).encard = count.toNat := by
      have hsub : ∀ woken, (count ≤ 1 ∧ (c.memory.node n).Signals woken ∨
          1 < count ∧ woken = (c.memory.node n).sleepers) →
            woken ⊆ (c.memory.node n).sleepers := by
        rintro woken (⟨-, h⟩ | ⟨-, rfl⟩)
        · exact h.1
        · exact subset_rfl
      constructor
      · intro h woken hwoken
        have hstep := (wakeStep_iff hw hn).mpr ⟨rfl, woken, hwoken, rfl⟩
        exact (wakeContract_iff hreached hw hn hcount rfl (hsub woken hwoken) hstep.1).mp
          (h _ _ hstep)
      · intro h d rc hstep
        obtain ⟨hrc, woken, hwoken, rfl⟩ := (wakeStep_iff hw hn).mp hstep
        exact (wakeContract_iff hreached hw hn hcount hrc (hsub woken hwoken) hstep.1).mpr
          (h woken hwoken)
    rw [hall]
    obtain rfl | rfl | hmany : count = 0 ∨ count = 1 ∨ 2 ≤ count := by omega
    · simp only [Int.reduceLE, true_and, Int.reduceLT, false_and, or_false]
      rw [Int.toNat_zero, Nat.cast_zero, forall_signals_eq_zero hstale]
      exact ⟨fun h => ⟨hnode, fun _ => h, nofun, nofun⟩, fun h => h.zero rfl⟩
    · simp only [le_refl, true_and, lt_self_iff_false, false_and, or_false]
      rw [Int.toNat_one, Nat.cast_one, forall_signals_eq_one hstale, ← hblocked]
      exact ⟨fun h => ⟨hnode, nofun, fun _ => h, nofun⟩, fun h => h.one rfl⟩
    · have hnot : ¬ count ≤ 1 := by omega
      have hlt : 1 < count := by omega
      simp only [hnot, false_and, hlt, true_and, false_or, forall_eq]
      rw [Set.inter_eq_right.mpr hstale]
      exact ⟨fun h => ⟨hnode, fun h0 => by omega, fun h1 => by omega, fun _ => h⟩,
        fun h => h.many hmany⟩

end

theorem futex_wake_contract_iff_run : ∃ c : Config Bool (FutexMemory Bool) FutexPoint,
    c.point true = .signal 16 ∧
      ((∀ d rc, WakeStep (futexArgs 1) true rc c d → WakeContract (futexArgs 1) 8 1 c d rc) ↔
        WakeHolds (futexArgs 1) 8 1 c) := by
  obtain ⟨c, hreach, hsignal, -⟩ := reaches_signal 1
  exact ⟨c, hsignal,
    futex_wake_contract_iff hreach (futexArgs_wake 1) (by decide) (Or.inr ⟨16, hsignal⟩)⟩

/-- A wake of one waiter for a word that still has its expected value returns 1, and the
waiter goes back to sleep. -/
theorem futex_wake_releases_nobody :
    ∃ c d, (a2iSyscall (futexArgs 1)).Reaches (futexStart Bool fun _ => 0) c ∧
      WakeStep (futexArgs 1) true (.ok 1) c d ∧ BlockedOn (futexArgs 1) 8 c = {false} ∧
      ReleasedOn (futexArgs 1) 8 c d = ∅ ∧ ¬ WakeContract (futexArgs 1) 8 1 c d (.ok 1) := by
  obtain ⟨c, hreach, hsignal, hword, hnode⟩ := reaches_signal 1
  have hwake := futexArgs_wake 1
  have hreached := futexReached hreach
  have hblocked := blockedOn_eq_sleepers hreached hwake (congrArg FutexPoint.node? hsignal)
  rw [hnode, Finset.coe_singleton] at hblocked
  have hsig : (c.memory.node 16).Signals {false} := by
    rw [hnode]
    exact ⟨subset_rfl, fun _ => Finset.singleton_nonempty _⟩
  have hstep : WakeStep (futexArgs 1) true (.ok 1) c _ :=
    (wakeStep_iff hwake hsignal).mpr ⟨rfl, {false}, Or.inl ⟨by decide, hsig⟩, rfl⟩
  -- the word still has the expected value
  have hstale : StaleOn (futexArgs 1) 8 c = ∅ := by
    refine Set.eq_empty_of_forall_notMem fun i hi => ?_
    obtain ⟨hmem, hvalue⟩ := hi
    rw [hblocked, Set.mem_singleton_iff] at hmem
    subst hmem
    exact hvalue 0 false (futexArgs_wait 1) (congrFun hword 8)
  have hreleased := releasedOn_eq hreached hwake hsignal hstep.1
  rw [hstale, Set.inter_empty] at hreleased
  refine ⟨c, _, hreach, hstep, hblocked, hreleased, fun h => ?_⟩
  obtain ⟨k, hk, hcard⟩ := h.result
  rw [hreleased, Set.encard_empty] at hcard
  have hzero : k = 0 := by exact_mod_cast hcard.symm
  subst hzero
  exact absurd (Except.ok.inj hk) (by decide)

end Apk2Ios
