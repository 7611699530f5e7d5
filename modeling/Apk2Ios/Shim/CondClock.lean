import Apk2Ios.Lib.Histories
import Apk2Ios.Shim.Deadline
import Apk2Ios.Shim.Registry

/-!
# The shim: the clocks of condition variables

A condition variable is given a clock by the attribute with which it is initialized, and the clock
is kept in its node.  Whatever the threads do in between, a timed wait finds the clock of the last
initialization; a variable that has not been initialized since its last destruction has the
realtime clock.
-/

namespace Apk2Ios

open Lib Threads

/-! ### Attributes -/

/-- The calls on an attribute. -/
inductive CondattrCall where
  | init
  | destroy
  | setclock (clockId : ℤ)

/-- `a2i_pthread_condattr_init`, `a2i_pthread_condattr_destroy` and
`a2i_pthread_condattr_setclock`.  The attribute is `NULL` or its value. -/
def CondattrCall.run (attr : Option (BitVec 64)) :
    CondattrCall → Except Errno Unit × Option (BitVec 64)
  | init => if attr = none then (.error .EINVAL, attr) else (.ok (), some 0)
  | destroy => if attr = none then (.error .EINVAL, attr) else (.ok (), some (-1))
  | setclock clockId =>
    if attr = none ∨ (clockId ≠ 0 ∧ clockId ≠ 1) then (.error .EINVAL, attr)
    else (.ok (), some (BitVec.ofInt 64 clockId))

/-- The value of an attribute after `a2i_pthread_condattr_init` and more calls. -/
def attrAfter (calls : List CondattrCall) : Option (BitVec 64) :=
  calls.foldl (fun attr k => (k.run attr).2) (some 0)

/-- The clocks that a condition variable can have. -/
inductive CondClock where
  | realtime
  | monotonic
deriving DecidableEq, Repr

/-- What a call on an attribute means: a clock that there is not is refused. -/
def CondattrCall.clock (clock : CondClock) : CondattrCall → CondClock
  | init | destroy => .realtime
  | setclock clockId =>
    if clockId = 0 then .realtime else if clockId = 1 then .monotonic else clock

/-- The clock of an attribute. -/
def attrClock (calls : List CondattrCall) : CondClock := calls.foldl CondattrCall.clock .realtime

/-- The value of an attribute stands for its clock. -/
def StandsFor (attr : BitVec 64) (clock : CondClock) : Prop :=
  attr = 0 ∧ clock = .realtime ∨ attr = 1 ∧ clock = .monotonic ∨ attr = -1 ∧ clock = .realtime

lemma exists_attrAfter (calls : List CondattrCall) :
    ∃ v, attrAfter calls = some v ∧ StandsFor v (attrClock calls) := by
  -- by induction on the calls; `setclock` refuses other clocks and changes nothing
  have hrun : ∀ (v : BitVec 64) (clock : CondClock), StandsFor v clock →
      ∃ v', calls.foldl (fun attr k => (CondattrCall.run attr k).2) (some v) = some v' ∧
        StandsFor v' (calls.foldl CondattrCall.clock clock) := by
    induction calls with
    | nil => exact fun v clock h => ⟨v, rfl, h⟩
    | cons k calls ih =>
      intro v clock h
      obtain ⟨v', hv', h'⟩ : ∃ v', (k.run (some v)).2 = some v' ∧
          StandsFor v' (k.clock clock) := by
        cases k with
        | init => exact ⟨0, rfl, .inl ⟨rfl, rfl⟩⟩
        | destroy => exact ⟨-1, rfl, .inr (.inr ⟨rfl, rfl⟩)⟩
        | setclock clockId =>
          by_cases h0 : clockId = 0
          · subst h0
            exact ⟨0, rfl, .inl ⟨rfl, rfl⟩⟩
          · by_cases h1 : clockId = 1
            · subst h1
              exact ⟨1, rfl, .inr (.inl ⟨rfl, rfl⟩)⟩
            · exact ⟨v, by simp [CondattrCall.run, h0, h1], by
                simpa [CondattrCall.clock, h0, h1] using h⟩
      rw [List.foldl_cons, List.foldl_cons, hv']
      exact ih v' _ h'
  exact hrun 0 .realtime (.inl ⟨rfl, rfl⟩)

/-! ### Histories -/

/-- What a step does to the node of an object that its call resets. -/
inductive NodeEvent where
  | removed
  | made
deriving DecidableEq

/-- The event of a step: the node is taken out, or an initialization makes one. -/
def nodeEvent {ι : Type*} (_ : ObjMemory ι) (p : ObjPoint) (_ : ObjMemory ι) (p' : ObjPoint) :
    Option NodeEvent :=
  match p, p' with
  | .remove, _ => some .removed
  | .create, .returned (.ok ()) => some .made
  | _, _ => none

/-- The value of `android_clock` for a condition variable after an event of a call. -/
def clockAfter (cond : ℕ) (clock : ℤ) : ObjCall → NodeEvent → ℤ
  | .condInit a attr, .made =>
    if a = cond then ((attr.getD 0).setWidth 32).toInt else clock
  | .condInit a _, .removed => if a = cond then 0 else clock
  | .condDestroy a, .removed => if a = cond then 0 else clock
  | _, _ => clock

section

variable {ι : Type*}

/-- The value of `android_clock` for a condition variable after a history. -/
def clockOf (call : ι → ObjCall) (cond : ℕ) (es : List (ι × NodeEvent)) : ℤ :=
  es.foldl (fun clock e => clockAfter cond clock (call e.1) e.2) 0

variable {call : ι → ObjCall} {i : ι} {m m' : ObjMemory ι} {p p' : ObjPoint} {cond : ℕ}
  {es : List (ι × NodeEvent)}

lemma clockOf_append_some (e : NodeEvent) :
    clockOf call cond (es ++ ((some e).map (Prod.mk i)).toList) =
      clockAfter cond (clockOf call cond es) (call i) e := by
  simp [clockOf]

/-- A call that does not reset the variable leaves its clock. -/
lemma clockAfter_of_ne {k : ObjCall} (h : k.resets ≠ some ⟨cond, .cond⟩) (clock : ℤ)
    (e : NodeEvent) : clockAfter cond clock k e = clock := by
  cases k with
  | condInit a attr =>
    have hne : a ≠ cond := by
      rintro rfl
      exact h rfl
    cases e <;> exact if_neg hne
  | condDestroy a =>
    have hne : a ≠ cond := by
      rintro rfl
      exact h rfl
    cases e with
    | removed => exact if_neg hne
    | made => rfl
  | _ => rfl

/-- A call that takes out the node leaves the realtime clock. -/
lemma clockAfter_removed {k : ObjCall} (h : k.resets = some ⟨cond, .cond⟩) (clock : ℤ) :
    clockAfter cond clock k .removed = 0 := by
  cases k with
  | condInit a attr =>
    obtain rfl : a = cond := congrArg ObjId.address (Option.some.inj h)
    exact if_pos rfl
  | condDestroy a =>
    obtain rfl : a = cond := congrArg ObjId.address (Option.some.inj h)
    exact if_pos rfl
  | mutexInit | mutexDestroy => exact nomatch congrArg ObjId.kind (Option.some.inj h)
  | _ => exact nomatch h

/-- The nodes of condition variables have the clocks of the history, and a variable without a node
has the realtime clock. -/
structure ClockInv (call : ι → ObjCall) (m : ObjMemory ι) (es : List (ι × NodeEvent)) : Prop where
  node : ∀ n ∈ m.objects, ∀ cond, n.key = ⟨cond, .cond⟩ → n.androidClock = clockOf call cond es
  lacks : ∀ cond, m.Lacks ⟨cond, .cond⟩ → clockOf call cond es = 0

/-- A step that leaves the list alone and has no event. -/
lemma ClockInv.same (h : ClockInv call m es) (hobjects : m'.objects = m.objects) :
    ClockInv call m' es := by
  refine ⟨hobjects ▸ h.node, fun cond hlacks => h.lacks cond fun n hn => ?_⟩
  exact hlacks n (hobjects ▸ hn)

/-- An event that changes no clock. -/
lemma ClockInv.congr {es' : List (ι × NodeEvent)} (h : ClockInv call m es)
    (hclock : ∀ cond, clockOf call cond es' = clockOf call cond es) : ClockInv call m es' := by
  constructor
  · intro n hn cond hkey
    rw [hclock]
    exact h.node n hn cond hkey
  · intro cond hlacks
    rw [hclock]
    exact h.lacks cond hlacks

/-- A node that the first use of an object makes. -/
lemma ClockInv.insert (h : ClockInv call m es) {n : ObjNode} (hlacks : m.Lacks n.key)
    (hclock : n.kind = .cond → n.androidClock = 0) (hobjects : m'.objects = n :: m.objects) :
    ClockInv call m' es := by
  constructor
  · intro n' hn' cond hkey
    rw [hobjects] at hn'
    rcases List.mem_cons.mp hn' with rfl | hn'
    · rw [hclock (congrArg ObjId.kind hkey), h.lacks cond (hkey ▸ hlacks)]
    · exact h.node n' hn' cond hkey
  · intro cond hnone
    refine h.lacks cond fun n' hn' => hnone n' ?_
    rw [hobjects]
    exact List.mem_cons_of_mem _ hn'

/-- The node of an object is taken out. -/
lemma ClockInv.remove (h : ClockInv call m es) (hG : RegistryInv call m) {o : ObjId}
    (ho : (call i).resets = some o) : ClockInv call (m.remove i o) (es ++ [(i, .removed)]) := by
  have hclock : ∀ cond, clockOf call cond (es ++ [(i, .removed)]) =
      clockAfter cond (clockOf call cond es) (call i) .removed :=
    fun cond => clockOf_append_some .removed
  constructor
  -- the nodes that stay have another key, so their clock is the one they had
  · intro n hn cond hkey
    have hne : n.key ≠ o := key_ne_of_mem_remove hG.keys hn
    have hresets : (call i).resets ≠ some ⟨cond, .cond⟩ := by
      rw [ho, ← hkey]
      exact fun h => hne (Option.some.inj h).symm
    rw [hclock, clockAfter_of_ne hresets]
    exact h.node n (List.mem_of_mem_eraseP hn) cond hkey
  · intro cond hnone
    rw [hclock]
    by_cases hcond : o = ⟨cond, .cond⟩
    · exact clockAfter_removed (hcond ▸ ho) _
    · have hresets : (call i).resets ≠ some ⟨cond, .cond⟩ := by
        rw [ho]
        exact fun h => hcond (Option.some.inj h)
      rw [clockAfter_of_ne hresets]
      refine h.lacks cond fun n hn hkey => hnone n ?_ hkey
      show n ∈ m.objects.eraseP _
      rw [List.mem_eraseP_of_neg]
      · exact hn
      · simpa [hkey] using fun h => hcond h.symm

/-- An initialization makes the node of a condition variable. -/
lemma ClockInv.made (h : ClockInv call m es) {a p : ℕ} {attr : Option (BitVec 64)}
    (hcall : call i = .condInit a attr) (hlacks : m.Lacks ⟨a, .cond⟩)
    (hobjects : m'.objects = ⟨p, a, .cond, ((attr.getD 0).setWidth 32).toInt, .normal⟩ ::
      m.objects) : ClockInv call m' (es ++ [(i, .made)]) := by
  have hclock : ∀ cond, clockOf call cond (es ++ [(i, .made)]) =
      if a = cond then ((attr.getD 0).setWidth 32).toInt else clockOf call cond es := by
    intro cond
    refine (clockOf_append_some .made).trans ?_
    rw [hcall]
    rfl
  constructor
  · intro n hn cond hkey
    rw [hclock]
    rw [hobjects] at hn
    rcases List.mem_cons.mp hn with rfl | hn
    · exact (if_pos (congrArg ObjId.address hkey)).symm
    · rw [if_neg, h.node n hn cond hkey]
      rintro rfl
      exact hlacks n hn hkey
  · intro cond hnone
    rw [hclock, if_neg, h.lacks cond]
    · exact fun n hn => hnone n (hobjects ▸ List.mem_cons_of_mem _ hn)
    · rintro rfl
      exact hnone _ (hobjects ▸ List.mem_cons_self) rfl

/-- Finding or making the node of a condition variable. -/
lemma ClockInv.getCond (h : ClockInv call m es) (block : Option ℕ) (a : ℕ) :
    ClockInv call (m.a2iGetCond block a).2 es := by
  rw [ObjMemory.a2iGetCond]
  split
  · exact h
  rcases hfind : a2iFindObjectLocked m.objects ⟨a, .cond⟩ with _ | n
  · cases block with
    | none => exact h
    | some p =>
      exact h.insert (lacks_of_a2iFindObjectLocked hfind : m.Lacks (ObjNode.key ⟨p, a, .cond, 0,
        .normal⟩)) (fun _ => rfl) rfl
  · exact h

/-- Finding or making the node of a mutex. -/
lemma ClockInv.getMutex (h : ClockInv call m es) (block : Option ℕ) (a : ℕ) :
    ClockInv call (m.a2iGetMutex block a).2 es := by
  rw [ObjMemory.a2iGetMutex]
  split
  · exact h
  rcases hfind : a2iFindObjectLocked m.objects ⟨a, .mutex⟩ with _ | n
  · cases block with
    | none => exact h
    | some p =>
      exact h.insert (lacks_of_a2iFindObjectLocked hfind : m.Lacks (ObjNode.key ⟨p, a, .mutex, 0,
        a2iHostMutexType (a2iAndroidMutexType (m.storage a))⟩)) (fun hkind => by cases hkind) rfl
  · exact h

/-- The last step of an initialization. -/
lemma ClockInv.create (h : ClockInv call m es) {block : Option ℕ} {o : ObjId}
    (hinit : (call i).IsInit) (ho : (call i).resets = some o) (hlacks : m.Lacks o) :
    ClockInv call (((call i).create m block).2.leave i) (es ++ ((nodeEvent m .create m (.returned
      (if ((call i).create m block).1 = none then .error .ENOMEM else .ok ()))).map
        (Prod.mk i)).toList) := by
  -- only `pthread_cond_init` makes a node that has a clock
  cases hcall : call i with
  | mutexInit a attr =>
    rw [hcall] at ho
    obtain rfl := Option.some.inj ho
    cases block with
    | none =>
      show ClockInv call _ (es ++ [])
      rw [List.append_nil]
      exact h.same rfl
    | some p =>
      have hinsert : ClockInv call (((call i).create m (some p)).2.leave i) es := by
        rw [hcall]
        exact h.insert (n := ⟨p, a, .mutex, 0, _⟩) hlacks nofun rfl
      rw [hcall] at hinsert
      refine hinsert.congr fun cond => (clockOf_append_some .made).trans ?_
      rw [hcall]
      rfl
  | condInit a attr =>
    rw [hcall] at ho
    obtain rfl := Option.some.inj ho
    cases block with
    | none =>
      show ClockInv call _ (es ++ [])
      rw [List.append_nil]
      exact h.same rfl
    | some p => exact h.made hcall hlacks rfl
  | _ =>
    rw [hcall] at hinit
    exact hinit.elim

/-- A step keeps the clocks. -/
lemma ClockInv.step (h : ClockInv call m es) (hstep : ObjStep call i m p m' p')
    (hG : RegistryInv call m) (hA : ObjAssertion call m i p) :
    ClockInv call m' (es ++ ((nodeEvent m p m' p').map (Prod.mk i)).toList) := by
  have hnone : ∀ {m'' : ObjMemory ι}, ClockInv call m'' es → ClockInv call m'' (es ++ []) := by
    intro m'' h
    rwa [List.append_nil]
  cases hstep with
  | remove ho => exact h.remove hG ho
  | create hblock =>
    obtain ⟨o, ho⟩ := hA.resets (.inr trivial)
    exact h.create (hA.init rfl) ho (hA.gone trivial o ho)
  | getCond hc hblock => exact hnone (h.getCond _ _)
  | getMutex hc hblock => exact hnone (h.getMutex _ _)
  | _ => exact hnone (h.same rfl)

variable [DecidableEq ι] {storage : ℕ → ℕ} {c : Config ι (ObjMemory ι) ObjPoint}

/-- The registry keeps its invariant in every run. -/
lemma registry_annotated (h : (a2iPthread call).Reaches (objStart ι storage) c) :
    Annotated (RegistryInv call) (ObjAssertion call) c := by
  have hstart : RegistryInv call (objStart ι storage).memory :=
    ⟨List.nodup_nil, List.nodup_nil, nofun, nofun, nofun, trivial⟩
  exact (objOutline call).reaches h ⟨hstart, fun _ => .of_not_inProgress id⟩

/-- The clocks in every run. -/
lemma clockInv_of_recorded (h : (a2iPthread call).Recorded nodeEvent (objStart ι storage) es c) :
    ClockInv call c.memory es := by
  induction h with
  | start => exact ⟨nofun, fun _ _ => rfl⟩
  | thread i hrun hstep ih =>
    obtain ⟨hG, hA⟩ := registry_annotated hrun.reaches
    exact ih.step hstep hG (hA i)
  | env hrun hstep ih =>
    obtain ⟨storage, rfl⟩ := hstep
    exact ih.same rfl

end

/-! ### Timed waits -/

section

variable {ι : Type*} (call : ι → ObjCall) (attrs : ι → Option (List CondattrCall))

/-- The clock that an initialization gives; without an attribute it is the realtime one. -/
def initClock (attr : Option (List CondattrCall)) : CondClock :=
  (attr.map attrClock).getD .realtime

/-- The clock that a condition variable should have after an event. -/
def condClockAfter (cond : ℕ) (clock : CondClock) (e : ι × NodeEvent) : CondClock :=
  match call e.1, e.2 with
  | .condInit a _, .made => if a = cond then initClock (attrs e.1) else clock
  | .condInit a _, .removed => if a = cond then .realtime else clock
  | .condDestroy a, .removed => if a = cond then .realtime else clock
  | _, _ => clock

/-- The clock that a condition variable should have after a history: that of its last
initialization, unless it has been destroyed since. -/
def condClock (cond : ℕ) (es : List (ι × NodeEvent)) : CondClock :=
  es.foldl (condClockAfter call attrs cond) .realtime

variable {call attrs} {es : List (ι × NodeEvent)}

/-- The number in the node tells the clocks apart. -/
lemma clockOf_eq_one_iff
    (hattrs : ∀ i a attr, call i = .condInit a attr → attr = (attrs i).bind attrAfter)
    (cond : ℕ) : clockOf call cond es = 1 ↔ condClock call attrs cond es = .monotonic := by
  -- the attribute word is `CLOCK_MONOTONIC` exactly after a last `setclock` with it
  have hinit : ∀ i, ((((attrs i).bind attrAfter).getD 0).setWidth 32).toInt = 1 ↔
      initClock (attrs i) = .monotonic := by
    intro i
    cases attrs i with
    | none => decide
    | some calls =>
      obtain ⟨v, hv, h⟩ := exists_attrAfter calls
      simp only [Option.bind_some, hv, Option.getD_some, initClock, Option.map_some]
      rcases h with ⟨rfl, h⟩ | ⟨rfl, h⟩ | ⟨rfl, h⟩ <;> rw [h] <;> decide
  have hstep : ∀ (clock : ℤ) (clock' : CondClock) (e : ι × NodeEvent),
      (clock = 1 ↔ clock' = .monotonic) →
        (clockAfter cond clock (call e.1) e.2 = 1 ↔
          condClockAfter call attrs cond clock' e = .monotonic) := by
    rintro clock clock' ⟨i, e⟩ h
    simp only [condClockAfter]
    cases hcall : call i with
    | condInit a attr =>
      cases e with
      | removed =>
        simp only [clockAfter]
        split
        · exact iff_of_false (by decide) nofun
        · exact h
      | made =>
        simp only [clockAfter]
        split
        · rw [hattrs i a attr hcall]
          exact hinit i
        · exact h
    | condDestroy a =>
      cases e with
      | removed =>
        simp only [clockAfter]
        split
        · exact iff_of_false (by decide) nofun
        · exact h
      | made => exact h
    | _ => exact h
  -- by induction on the history, from any pair of clocks that agree
  have hrun : ∀ (clock : ℤ) (clock' : CondClock), (clock = 1 ↔ clock' = .monotonic) →
      (es.foldl (fun clock e => clockAfter cond clock (call e.1) e.2) clock = 1 ↔
        es.foldl (condClockAfter call attrs cond) clock' = .monotonic) := by
    induction es with
    | nil => exact fun _ _ h => h
    | cons e es ih => exact fun clock clock' h => ih _ _ (hstep clock clock' e h)
  exact hrun 0 .realtime (iff_of_false (by decide) nofun)

variable [DecidableEq ι] {storage : ℕ → ℕ} {c : Config ι (ObjMemory ι) ObjPoint}

/-- **A timed wait goes by the clock of its condition variable.**  In every state that any number
of threads can reach, where no initialization or destruction of an object overlaps another
operation on it, the node that a timed wait works on is that of its condition variable.  The state
has a history, and by each of its histories the host waits until the given time if the clock of the
last initialization is the realtime one, and until that time carried over to the realtime clock if
it is the monotonic one. -/
theorem timedwait_clock
    (hattrs : ∀ i a attr, call i = .condInit a attr → attr = (attrs i).bind attrAfter)
    (h : (a2iPthread call).Reaches (objStart ι storage) c) {i : ι}
    {cond mutex absolute : ℕ} (hcall : call i = .condTimedwait cond mutex absolute) {k q : ℕ}
    (hpoint : c.point i = .use (some k) (some q)) :
    ∃ n ∈ c.memory.objects, n.ptr = k ∧ n.key = ⟨cond, .cond⟩ ∧
      (∃ es, (a2iPthread call).Recorded nodeEvent (objStart ι storage) es c) ∧
      ∀ es, (a2iPthread call).Recorded nodeEvent (objStart ι storage) es c →
        ∀ wait deadline monoNow realNow,
          a2iPthreadCondTimedwait wait (some n.androidClock) true (some deadline) monoNow realNow =
            match condClock call attrs cond es with
            | .realtime => some (wait deadline)
            | .monotonic => (a2iMonotonicToRealtime monoNow realNow deadline).map wait := by
  have hA := (registry_annotated h).2 i
  rw [hpoint] at hA
  obtain ⟨n, hn, hkey, hptr⟩ := hA.cond k rfl cond (by rw [hcall]; rfl)
  refine ⟨n, hn, hptr, hkey, h.exists_recorded, fun es hes wait deadline monoNow realNow => ?_⟩
  have hclock := (clockInv_of_recorded hes).node n hn cond hkey
  have hone : clockOf call cond es = 1 ↔ condClock call attrs cond es = .monotonic :=
    clockOf_eq_one_iff hattrs cond
  rw [a2iPthreadCondTimedwait, hclock]
  cases hcond : condClock call attrs cond es with
  | realtime =>
    rw [hcond] at hone
    have hne : clockOf call cond es ≠ 1 := fun h => by cases hone.mp h
    exact if_neg hne
  | monotonic => exact if_pos (hone.mpr hcond)

/-- One call initializes the condition variable at 8 with the monotonic clock, another one waits
on it with the mutex at 16. -/
def initAndWait : Bool → ObjCall
  | false => .condInit 8 (attrAfter [.setclock 1])
  | true => .condTimedwait 8 16 24

/-- The calls on the attribute. -/
def monotonicAttr : Bool → Option (List CondattrCall) := fun _ => some [.setclock 1]

lemma recorded_initAndWait : ∃ c, (a2iPthread initAndWait).Recorded nodeEvent
    (objStart Bool fun _ => 0) [(false, .removed), (false, .made)] c ∧
      c.point true = .use (some 100) (some 200) := by
  have hstart : (a2iPthread initAndWait).Recorded nodeEvent (objStart Bool fun _ => 0) []
      (objStart Bool fun _ => 0) := .start
  have hvalid : ∀ i, ¬ (initAndWait i).Invalid := by
    rintro (_ | _)
    · exact nofun
    · exact nofun
  have henter := hstart.thread false (.enter (hvalid false) nofun)
  have hremove := henter.thread false (.remove rfl)
  have hrelease := hremove.thread false .releaseNone
  have hstore := hrelease.thread false (.storeInit trivial)
  have hblock : ∀ p ∈ some 100, (fun _ => Block.free : ℕ → Block Bool) p = .free := fun _ _ => rfl
  have hcreate := hstore.thread false (.create hblock)
  have hwait := hcreate.thread true (.enter (hvalid true) (by
    rintro j ⟨rfl | hj, hne⟩
    · exact absurd rfl hne
    · exact hj.elim))
  have hnone : ∀ m : ObjMemory Bool, ∀ p ∈ (none : Option ℕ), m.heap p = .free := fun _ => nofun
  have hcond := hwait.thread true (.getCond rfl (hnone _))
  have hblock' : ∀ p ∈ some 200,
      Function.update (fun _ => Block.free) 100 (Block.listed : Block Bool) p = .free := by
    intro p hp
    obtain rfl := Option.mem_some_iff.mp hp
    rfl
  have hmutex := hcond.thread true (.getMutex rfl hblock')
  exact ⟨_, hmutex, rfl⟩

theorem timedwait_clock_monotonic : ∃ n : ObjNode, n.ptr = 100 ∧ n.key = ⟨8, .cond⟩ ∧
    ∀ wait, a2iPthreadCondTimedwait wait (some n.androidClock) true (some ⟨15, 0⟩) ⟨10, 0⟩
      ⟨1000, 0⟩ = some (wait ⟨1005, 0⟩) := by
  obtain ⟨c, hrun, hpoint⟩ := recorded_initAndWait
  have hattrs : ∀ i a attr, initAndWait i = .condInit a attr →
      attr = (monotonicAttr i).bind attrAfter := by
    rintro (_ | _) a attr h
    · cases h
      rfl
    · exact nomatch h
  obtain ⟨n, -, hptr, hkey, -, hwait⟩ := timedwait_clock hattrs hrun.reaches rfl hpoint
  exact ⟨n, hptr, hkey, fun wait => hwait _ hrun wait ⟨15, 0⟩ ⟨10, 0⟩ ⟨1000, 0⟩⟩

end

end Apk2Ios
