import Mathlib.Tactic.IntervalCases
import Apk2Ios.Lib.Runs
import Apk2Ios.Shim.Registry

/-!
# The shim: host mutexes and the storage of Android mutexes

An Android mutex needs no call before its first use: the program writes an initializer to its
memory, and `a2i_get_mutex` makes the host mutex that the first word describes.  The list of
nodes outlives the memory, and nothing tells the shim when the program writes an initializer
over a mutex that has a node.  The calls of this module are those of the registry, one after
another, mixed with such writes.
-/

namespace Apk2Ios

open Lib

/-! ### Calls and initializers -/

/-- The registry in a run.  `next` is the block of the next node, so the blocks number the host
mutexes in the order in which they are made.  The last three fields are not in the code: the host
mutexes that have been locked, for every address those that had been locked when its storage was
initialized last, and how many of the locks of that storage are held.  A lock or an unlock that the
host refuses does not count. -/
structure MutexRun where
  memory : ObjMemory Unit
  next : ℕ
  locked : List ℕ
  before : ℕ → List ℕ
  held : ℕ → ℕ

/-- A call on a mutex, or a static initializer that the program writes.  `made` says whether
`calloc` and the host can make a mutex; `rc` is what the host's function returns. -/
inductive MutexOp where
  | init (mutex : ℕ) (attr : Option (BitVec 64)) (made : Bool)
  | destroy (mutex : ℕ) (rc : Except Errno Unit)
  | lock (mutex : ℕ) (made : Bool) (rc : Except Errno Unit)
  | unlock (mutex : ℕ) (made : Bool) (rc : Except Errno Unit)
  | static (mutex word : ℕ)

namespace MutexRun

variable (s : MutexRun)

/-- The memory for a node. -/
def block (made : Bool) : Option ℕ := if made then some s.next else none

/-- The host has locked the mutex at the address, or not. -/
def lockHost (mutex p : ℕ) : Except Errno Unit → MutexRun
  | .ok () => { s with
      locked := p :: s.locked
      held := Function.update s.held mutex (s.held mutex + 1) }
  | .error _ => s

/-- The host has unlocked it, or not. -/
def unlockHost (mutex : ℕ) : Except Errno Unit → MutexRun
  | .ok () => { s with held := Function.update s.held mutex (s.held mutex - 1) }
  | .error _ => s

/-- The storage of a mutex is initialized. -/
def reinit (memory : ObjMemory Unit) (mutex : ℕ) : MutexRun where
  memory := memory
  next := s.next + 1
  locked := s.locked
  before := Function.update s.before mutex s.locked
  held := Function.update s.held mutex 0

/-- `a2i_remove_object`, and `free` for the node that it returns. -/
def removeObject (mutex : ℕ) : ObjMemory Unit :=
  match a2iFindObjectLocked s.memory.objects ⟨mutex, .mutex⟩ with
  | some old => (s.memory.remove () ⟨mutex, .mutex⟩).freeBlock old.ptr
  | none => s.memory.remove () ⟨mutex, .mutex⟩

/-- `a2i_pthread_mutex_init`. -/
def a2iPthreadMutexInit (mutex : ℕ) (attr : Option (BitVec 64)) (made : Bool) :
    Except Errno Unit × MutexRun :=
  if mutex = 0 then (.error .EINVAL, s)
  else
    let call := ObjCall.mutexInit mutex attr
    let m := s.removeObject mutex
    let r := call.create { m with storage := call.store m.storage } (s.block made)
    (if r.1 = none then .error .ENOMEM else .ok (), s.reinit r.2 mutex)

/-- `a2i_pthread_mutex_destroy`. -/
def a2iPthreadMutexDestroy (mutex : ℕ) (rc : Except Errno Unit) : Except Errno Unit × MutexRun :=
  if mutex = 0 then (.error .EINVAL, s)
  else
    let m := s.removeObject mutex
    (if a2iFindObjectLocked s.memory.objects ⟨mutex, .mutex⟩ = none then .ok () else rc,
      s.reinit { m with storage := (ObjCall.mutexDestroy mutex).store m.storage } mutex)

/-- `a2i_pthread_mutex_lock`. -/
def a2iPthreadMutexLock (mutex : ℕ) (made : Bool) (rc : Except Errno Unit) :
    Except Errno Unit × MutexRun :=
  let r := s.memory.a2iGetMutex (s.block made) mutex
  match r.1 with
  | none => (.error .ENOMEM, { s with memory := r.2 })
  | some p => (rc, { s with memory := r.2, next := s.next + 1 }.lockHost mutex p rc)

/-- `a2i_pthread_mutex_unlock`. -/
def a2iPthreadMutexUnlock (mutex : ℕ) (made : Bool) (rc : Except Errno Unit) :
    Except Errno Unit × MutexRun :=
  let r := s.memory.a2iGetMutex (s.block made) mutex
  match r.1 with
  | none => (.error .EINVAL, { s with memory := r.2 })
  | some _ => (rc, { s with memory := r.2, next := s.next + 1 }.unlockHost mutex rc)

/-- The program writes an initializer over the storage, of which the shim reads the first word. -/
def writeInitializer (mutex word : ℕ) : MutexRun :=
  s.reinit { s.memory with storage := Function.update s.memory.storage mutex word } mutex

/-- The state after an operation. -/
def step : MutexOp → MutexRun
  | .init mutex attr made => (s.a2iPthreadMutexInit mutex attr made).2
  | .destroy mutex rc => (s.a2iPthreadMutexDestroy mutex rc).2
  | .lock mutex made rc => (s.a2iPthreadMutexLock mutex made rc).2
  | .unlock mutex made rc => (s.a2iPthreadMutexUnlock mutex made rc).2
  | .static mutex word => s.writeInitializer mutex word

/-- The type that the storage encodes. -/
def storedType (mutex : ℕ) : HostMutexType :=
  a2iHostMutexType (a2iAndroidMutexType (s.memory.storage mutex))

/-- The node whose host mutex a lock or an unlock works on. -/
def usedNode (made : Bool) (mutex : ℕ) : Option ObjNode :=
  let r := s.memory.a2iGetMutex (s.block made) mutex
  r.1.bind fun p => r.2.objects.find? fun n => n.ptr = p

/-- A lock or an unlock works on a host mutex of the type that the storage encodes, and this has
not been locked before the storage was initialized. -/
def Follows (mutex : ℕ) : Prop :=
  ∀ made, ∀ n ∈ s.usedNode made mutex, n.hostType = s.storedType mutex ∧ n.ptr ∉ s.before mutex

end MutexRun

/-- No call has been made. -/
def mutexStart (storage : ℕ → ℕ) : MutexRun :=
  ⟨⟨[], fun _ => .free, storage, ∅, []⟩, 0, [], fun _ => [], fun _ => 0⟩

/-- The values that `a2i_pthread_mutexattr_init`, `settype` and `destroy` give an attribute. -/
inductive MutexAttr : BitVec 64 → Prop
  | init : MutexAttr 0
  | settype {attr : BitVec 64} (type : ℕ) : MutexAttr attr → type ≤ 2 →
      MutexAttr (attr &&& ~~~0x0f ||| BitVec.ofNat 64 type)
  | destroy : MutexAttr (-1)

/-- What the program may do: attributes come from the calls on attributes, and an initializer is
one of the three types and is written while the mutex is not locked. -/
def MutexRun.Allows (s : MutexRun) : MutexOp → Prop
  | .init _ attr _ => ∀ v ∈ attr, MutexAttr v
  | .static mutex word => mutex ≠ 0 ∧ a2iAndroidMutexType word ≤ 2 ∧ s.held mutex = 0
  | _ => True

/-- The operation initializes the storage of the mutex. -/
def MutexOp.Initializes (a : ℕ) : MutexOp → Prop
  | init mutex _ _ => mutex = a ∧ mutex ≠ 0
  | destroy mutex _ => mutex = a ∧ mutex ≠ 0
  | static mutex _ => mutex = a
  | _ => False

/-- The operation locks or unlocks the mutex. -/
def MutexOp.Uses (a : ℕ) : MutexOp → Prop
  | lock mutex _ _ => mutex = a
  | unlock mutex _ _ => mutex = a
  | _ => False

/-- The condition on an operation: an attribute is of a type that the storage can encode, and an
initializer is written where there is no node, or one with a host mutex of this type that has
never been locked. -/
def MutexRun.Keeps (s : MutexRun) : MutexOp → Prop
  | .init mutex attr made => mutex ≠ 0 → made = true →
      a2iHostMutexType (attr.getD 0 &&& 0x0f).toNat =
        a2iHostMutexType ((attr.getD 0 &&& 0x0f).toNat % 4)
  | .static mutex word => ∀ n ∈ a2iFindObjectLocked s.memory.objects ⟨mutex, .mutex⟩,
      n.hostType = a2iHostMutexType (a2iAndroidMutexType word) ∧ n.ptr ∉ s.locked
  | _ => True

/-! ### The list -/

/-- Every object has one node, nodes are different blocks, and no block is new. -/
structure NodesInv (objects : List ObjNode) (next : ℕ) : Prop where
  keys : (objects.map ObjNode.key).Nodup
  ptrs : (objects.map ObjNode.ptr).Nodup
  lt : ∀ n ∈ objects, n.ptr < next
  null : ∀ n ∈ objects, n.androidAddress ≠ 0

section

variable {objects : List ObjNode} {next : ℕ} {o o' : ObjId} {n : ObjNode}

lemma NodesInv.remove (h : NodesInv objects next) (o : ObjId) :
    NodesInv (a2iRemoveObject objects o) next := by
  have hsub : (a2iRemoveObject objects o).Sublist objects := List.eraseP_sublist
  exact ⟨h.keys.sublist (hsub.map _), h.ptrs.sublist (hsub.map _),
    fun n hn => h.lt n (hsub.subset hn), fun n hn => h.null n (hsub.subset hn)⟩

lemma NodesInv.mono {next' : ℕ} (h : NodesInv objects next) (hle : next ≤ next') :
    NodesInv objects next' :=
  ⟨h.keys, h.ptrs, fun n hn => (h.lt n hn).trans_le hle, h.null⟩

lemma NodesInv.cons (h : NodesInv objects n.ptr) (hn : a2iFindObjectLocked objects n.key = none)
    (hnull : n.androidAddress ≠ 0) : NodesInv (n :: objects) (n.ptr + 1) := by
  refine ⟨List.nodup_cons.mpr ⟨fun hmem => ?_, h.keys⟩,
    List.nodup_cons.mpr ⟨fun hmem => ?_, h.ptrs⟩, ?_, List.forall_mem_cons.mpr ⟨hnull, h.null⟩⟩
  · obtain ⟨n', hn', hkey⟩ := List.mem_map.mp hmem
    simpa [hkey] using List.find?_eq_none.mp hn n' hn'
  · obtain ⟨n', hn', hptr⟩ := List.mem_map.mp hmem
    exact absurd hptr (h.lt n' hn').ne
  · exact List.forall_mem_cons.mpr ⟨Nat.lt_succ_self _, fun n' hn' => (h.lt n' hn').trans_le
      (Nat.le_succ _)⟩

/-- Taking out the node of an object leaves the others. -/
lemma find_remove_of_ne (objects : List ObjNode) (hne : o' ≠ o) :
    a2iFindObjectLocked (a2iRemoveObject objects o) o' = a2iFindObjectLocked objects o' := by
  induction objects with
  | nil => rfl
  | cons x objects ih =>
    rw [a2iRemoveObject, List.eraseP_cons]
    by_cases hx : x.key = o
    · have hx' : x.key ≠ o' := hx.trans_ne (Ne.symm hne)
      simp [hx, a2iFindObjectLocked, Ne.symm hne]
    · simp only [a2iFindObjectLocked, a2iRemoveObject] at ih
      simp [hx, a2iFindObjectLocked, List.find?_cons, ih]

lemma NodesInv.find_remove (h : NodesInv objects next) (o : ObjId) :
    a2iFindObjectLocked (a2iRemoveObject objects o) o = none :=
  List.find?_eq_none.mpr fun n hn => by simpa using key_ne_of_mem_remove h.keys hn

lemma find_cons (n : ObjNode) (objects : List ObjNode) (o : ObjId) :
    a2iFindObjectLocked (n :: objects) o =
      if n.key = o then some n else a2iFindObjectLocked objects o := by
  rw [a2iFindObjectLocked, List.find?_cons]
  by_cases h : n.key = o
  · simp [h]
  · simp [h, a2iFindObjectLocked]

/-- A block of the list is found again. -/
lemma NodesInv.find_ptr (h : NodesInv objects next) (hn : n ∈ objects) :
    (objects.find? fun n' => n'.ptr = n.ptr) = some n := by
  obtain ⟨n', hn'⟩ : ∃ n', (objects.find? fun n' => n'.ptr = n.ptr) = some n' := by
    rw [← Option.isSome_iff_exists, List.find?_isSome]
    exact ⟨n, hn, by simp⟩
  have hptr : n'.ptr = n.ptr := by simpa using List.find?_some hn'
  rw [hn', List.inj_on_of_nodup_map h.ptrs (List.mem_of_find?_eq_some hn') hn hptr]

end

/-! ### One operation -/

namespace MutexRun

variable {s : MutexRun} {a b : ℕ}

/-- The node of a mutex. -/
def host (s : MutexRun) (mutex : ℕ) : Option ObjNode :=
  a2iFindObjectLocked s.memory.objects ⟨mutex, .mutex⟩

/-- What holds in every run: the list is in order, and host mutexes that have been locked have been
made. -/
structure Inv (s : MutexRun) : Prop where
  nodes : NodesInv s.memory.objects s.next
  locked : ∀ p ∈ s.locked, p < s.next
  before : ∀ a, ∀ p ∈ s.before a, p < s.next

/-- The node that is made for a mutex when it has none. -/
def newNode (s : MutexRun) (mutex : ℕ) (type : HostMutexType) : ObjNode :=
  { ptr := s.next, androidAddress := mutex, kind := .mutex, hostType := type }

@[simp] lemma key_newNode (s : MutexRun) (mutex : ℕ) (type : HostMutexType) :
    (s.newNode mutex type).key = ⟨mutex, .mutex⟩ := rfl

/-- What `a2i_get_mutex` does. -/
lemma a2iGetMutex_eq (s : MutexRun) (made : Bool) (ha : a ≠ 0) :
    s.memory.a2iGetMutex (s.block made) a =
      match s.host a, made with
      | some n, _ => (some n.ptr, s.memory)
      | none, true => (some s.next, s.memory.insert (s.newNode a (s.storedType a)))
      | none, false => (none, s.memory) := by
  rw [ObjMemory.a2iGetMutex, if_neg ha, host]
  cases a2iFindObjectLocked s.memory.objects ⟨a, .mutex⟩ with
  | some n => rfl
  | none => cases made <;> rfl

lemma a2iGetMutex_null (s : MutexRun) (made : Bool) :
    s.memory.a2iGetMutex (s.block made) 0 = (none, s.memory) := if_pos rfl

lemma Inv.host_null (h : s.Inv) : s.host 0 = none := by
  refine List.find?_eq_none.mpr fun n hn hkey => ?_
  have hkey : n.key = ⟨0, .mutex⟩ := by simpa using hkey
  exact h.nodes.null n hn (congrArg ObjId.address hkey)

/-- A lock works on a node of the list, or on a new one that fits the storage. -/
lemma Inv.follows_iff (h : s.Inv) : s.Follows a ↔
    ∀ n ∈ s.host a, n.hostType = s.storedType a ∧ n.ptr ∉ s.before a := by
  by_cases ha : a = 0
  · subst ha
    simp [Follows, usedNode, a2iGetMutex_null, h.host_null]
  rcases hhost : s.host a with _ | n
  · have hnew : ∀ made, ∀ n ∈ s.usedNode made a, n = s.newNode a (s.storedType a) := by
      intro made n hn
      rw [usedNode, s.a2iGetMutex_eq made ha, hhost] at hn
      cases made with
      | false => simp at hn
      | true =>
        have hfirst : (s.newNode a (s.storedType a) :: s.memory.objects).find?
            (fun n => n.ptr = s.next) = some (s.newNode a (s.storedType a)) :=
          List.find?_cons_of_pos (by simp [newNode])
        exact (Option.some.inj (hfirst.symm.trans hn)).symm
    refine ⟨fun _ => nofun, fun _ made n hn => ?_⟩
    rw [hnew made n hn]
    exact ⟨rfl, fun hmem => (h.before a _ hmem).ne rfl⟩
  · obtain ⟨hmem, -⟩ := mem_of_a2iFindObjectLocked hhost
    have hused : ∀ made, s.usedNode made a = some n := by
      intro made
      rw [usedNode, s.a2iGetMutex_eq made ha, hhost]
      exact h.nodes.find_ptr hmem
    simp [Follows, hused]

/-- What is at an address before an operation on another one is there after it. -/
lemma Inv.follows_congr {s' : MutexRun} (h : s.Inv) (h' : s'.Inv) (hhost : s'.host b = s.host b)
    (hstorage : s'.memory.storage b = s.memory.storage b) (hbefore : s'.before b = s.before b) :
    s'.Follows b ↔ s.Follows b := by
  rw [h.follows_iff, h'.follows_iff, hhost, storedType, storedType, hstorage, hbefore]

lemma Inv.reinit (h : s.Inv) {memory : ObjMemory Unit}
    (hnodes : NodesInv memory.objects (s.next + 1)) (a : ℕ) : (s.reinit memory a).Inv := by
  have hlocked : ∀ p ∈ s.locked, p < s.next + 1 := fun p hp =>
    (h.locked p hp).trans (Nat.lt_succ_self _)
  refine ⟨hnodes, hlocked, fun b p hp => ?_⟩
  by_cases hb : b = a
  · have hbefore : (s.reinit memory a).before b = s.locked := by
      rw [hb]
      exact Function.update_self ..
    exact hlocked p (hbefore ▸ hp)
  · have hbefore : (s.reinit memory a).before b = s.before b := Function.update_of_ne hb ..
    exact (h.before b p (hbefore ▸ hp)).trans (Nat.lt_succ_self _)

lemma objects_removeObject (s : MutexRun) (a : ℕ) :
    (s.removeObject a).objects = a2iRemoveObject s.memory.objects ⟨a, .mutex⟩ := by
  rw [removeObject]
  split <;> rfl

lemma storage_removeObject (s : MutexRun) (a : ℕ) :
    (s.removeObject a).storage = s.memory.storage := by
  rw [removeObject]
  split <;> rfl

/-- Initializing or destroying the mutex at `a`, or writing to its storage, is no matter for other
mutexes. -/
lemma Inv.follows_reinit_of_ne (h : s.Inv) (hb : b ≠ a)
    {memory : ObjMemory Unit} (hnodes : NodesInv memory.objects (s.next + 1))
    (hhost : a2iFindObjectLocked memory.objects ⟨b, .mutex⟩ = s.host b)
    (hstorage : memory.storage b = s.memory.storage b) :
    (s.reinit memory a).Follows b ↔ s.Follows b :=
  h.follows_congr (h.reinit hnodes a) hhost hstorage (Function.update_of_ne hb ..)

lemma Inv.follows_reinit (h : s.Inv) {memory : ObjMemory Unit}
    (hnodes : NodesInv memory.objects (s.next + 1)) :
    (s.reinit memory a).Follows a ↔
      ∀ n ∈ a2iFindObjectLocked memory.objects ⟨a, .mutex⟩,
        n.hostType = a2iHostMutexType (a2iAndroidMutexType (memory.storage a)) ∧
          n.ptr ∉ s.locked := by
  rw [(h.reinit hnodes a).follows_iff]
  have hbefore : (s.reinit memory a).before a = s.locked := Function.update_self ..
  rw [hbefore]
  rfl

/-! ### Initialization and destruction -/

lemma Inv.nodes_remove (h : s.Inv) (a : ℕ) :
    NodesInv (a2iRemoveObject s.memory.objects ⟨a, .mutex⟩) (s.next + 1) :=
  (h.nodes.remove _).mono (Nat.le_succ _)

/-- The objects after `a2i_pthread_mutex_init`. -/
lemma step_init (s : MutexRun) (attr : Option (BitVec 64)) (made : Bool) (ha : a ≠ 0) :
    ∃ memory, s.step (.init a attr made) = s.reinit memory a ∧
      memory.objects =
        (if made then [s.newNode a (a2iHostMutexType (attr.getD 0 &&& 0x0f).toNat)] else []) ++
          a2iRemoveObject s.memory.objects ⟨a, .mutex⟩ ∧
      memory.storage = Function.update s.memory.storage a
        ((attr.getD 0 &&& 0x0f).toNat % 4 * 2 ^ 14) := by
  rw [step, a2iPthreadMutexInit, if_neg ha]
  refine ⟨_, rfl, ?_, ?_⟩
  · cases made
    · exact s.objects_removeObject a
    · exact congrArg (List.cons _) (s.objects_removeObject a)
  · cases made <;>
      exact congrArg (fun st => Function.update st a _) (s.storage_removeObject a)

lemma Inv.nodes_init (h : s.Inv) (made : Bool) (type : HostMutexType) (ha : a ≠ 0) :
    NodesInv ((if made then [s.newNode a type] else []) ++
      a2iRemoveObject s.memory.objects ⟨a, .mutex⟩) (s.next + 1) := by
  cases made with
  | false => exact h.nodes_remove a
  | true =>
    exact NodesInv.cons (n := s.newNode a type) (h.nodes.remove _) (h.nodes.find_remove _) ha

/-- The type in the storage is what `a2i_pthread_mutex_init` takes from the attribute. -/
lemma a2iAndroidMutexType_mul (type : ℕ) : a2iAndroidMutexType (type % 4 * 2 ^ 14) = type % 4 := by
  rw [a2iAndroidMutexType, Nat.mul_div_cancel _ (Nat.two_pow_pos 14), Nat.mod_mod]

/-- What an operation does to the mutexes: those whose storage it initializes follow it exactly
under the condition of the operation, and all others as before. -/
def Steps (s : MutexRun) (op : MutexOp) : Prop :=
  (s.step op).Inv ∧ ∀ b, (op.Initializes b → ((s.step op).Follows b ↔ s.Keeps op)) ∧
    (¬ op.Initializes b → ((s.step op).Follows b ↔ s.Follows b))

/-- An operation that initializes one mutex, at its address and at the others. -/
lemma steps_of_reinit {op : MutexOp} {memory : ObjMemory Unit} (hop : ∀ b, op.Initializes b ↔ b = a)
    (hstep : s.step op = s.reinit memory a) (hinv : (s.reinit memory a).Inv)
    (hself : (s.reinit memory a).Follows a ↔ s.Keeps op)
    (hother : ∀ b, b ≠ a → ((s.reinit memory a).Follows b ↔ s.Follows b)) : s.Steps op := by
  rw [Steps, hstep]
  refine ⟨hinv, fun b => ⟨fun hb => ?_, fun hb => hother b (mt (hop b).mpr hb)⟩⟩
  rw [(hop b).mp hb]
  exact hself

/-- An operation on the null pointer is refused. -/
lemma Inv.steps_null (h : s.Inv) {op : MutexOp} (hop : ∀ b, ¬ op.Initializes b)
    (hstep : s.step op = s) : s.Steps op := by
  rw [Steps, hstep]
  exact ⟨h, fun b => ⟨fun hb => absurd hb (hop b), fun _ => Iff.rfl⟩⟩

lemma Inv.steps_init (h : s.Inv) (attr : Option (BitVec 64)) (made : Bool) :
    s.Steps (.init a attr made) := by
  by_cases ha : a = 0
  · exact h.steps_null (fun b hb => hb.2 ha) (by rw [step, a2iPthreadMutexInit, if_pos ha])
  obtain ⟨memory, hstep, hobjects, hstorage⟩ := s.step_init attr made ha
  have hnodes := h.nodes_init made (a2iHostMutexType (attr.getD 0 &&& 0x0f).toNat) ha
  rw [← hobjects] at hnodes
  refine steps_of_reinit (fun b => ⟨fun hb => hb.1.symm, fun hb => ⟨hb.symm, ha⟩⟩) hstep
    (h.reinit hnodes a) ?_ fun b hb => ?_
  · -- at this address the new node has the type of the attribute, the storage the masked one
    rw [h.follows_reinit hnodes, hstorage, Function.update_self, a2iAndroidMutexType_mul, hobjects]
    cases made with
    | false =>
      rw [if_neg Bool.false_ne_true, List.nil_append, h.nodes.find_remove]
      exact iff_of_true nofun fun _ => nofun
    | true =>
      rw [if_pos rfl, List.singleton_append, find_cons, if_pos (s.key_newNode a _)]
      constructor
      · exact fun hnew _ _ => (hnew _ rfl).1
      · intro hkeeps n hn
        obtain rfl := Option.some.inj hn
        exact ⟨hkeeps ha rfl, fun hmem => (h.locked _ hmem).ne rfl⟩
  · -- the call removes and makes nodes of its own address only
    have hne : (⟨b, .mutex⟩ : ObjId) ≠ ⟨a, .mutex⟩ := fun heq => hb (congrArg ObjId.address heq)
    refine h.follows_reinit_of_ne hb hnodes ?_ ?_
    · rw [hobjects]
      cases made with
      | false => exact find_remove_of_ne _ hne
      | true =>
        refine (find_cons _ _ _).trans ((if_neg ?_).trans (find_remove_of_ne _ hne))
        exact fun hkey => hne hkey.symm
    · rw [hstorage, Function.update_of_ne hb]

lemma Inv.steps_destroy (h : s.Inv) (rc : Except Errno Unit) : s.Steps (.destroy a rc) := by
  by_cases ha : a = 0
  · exact h.steps_null (fun b hb => hb.2 ha) (by rw [step, a2iPthreadMutexDestroy, if_pos ha])
  obtain ⟨memory, hstep, hobjects, hstorage⟩ : ∃ memory, s.step (.destroy a rc) =
      s.reinit memory a ∧ memory.objects = a2iRemoveObject s.memory.objects ⟨a, .mutex⟩ ∧
        memory.storage = Function.update s.memory.storage a 0 := by
    rw [step, a2iPthreadMutexDestroy, if_neg ha]
    exact ⟨_, rfl, s.objects_removeObject a,
      congrArg (fun st => Function.update st a 0) (s.storage_removeObject a)⟩
  have hnodes := h.nodes_remove a
  rw [← hobjects] at hnodes
  refine steps_of_reinit (fun b => ⟨fun hb => hb.1.symm, fun hb => ⟨hb.symm, ha⟩⟩) hstep
    (h.reinit hnodes a) ?_ fun b hb => ?_
  · rw [h.follows_reinit hnodes, hobjects, h.nodes.find_remove]
    exact iff_of_true nofun trivial
  · have hne : (⟨b, .mutex⟩ : ObjId) ≠ ⟨a, .mutex⟩ := fun heq => hb (congrArg ObjId.address heq)
    refine h.follows_reinit_of_ne hb hnodes ?_ ?_
    · rw [hobjects]
      exact find_remove_of_ne _ hne
    · rw [hstorage, Function.update_of_ne hb]

/-! ### Initializers, locks and unlocks -/

lemma Inv.steps_static (h : s.Inv) (word : ℕ) : s.Steps (.static a word) := by
  obtain ⟨memory, hstep, hobjects, hstorage⟩ : ∃ memory, s.step (.static a word) =
      s.reinit memory a ∧ memory.objects = s.memory.objects ∧
        memory.storage = Function.update s.memory.storage a word := ⟨_, rfl, rfl, rfl⟩
  have hnodes : NodesInv memory.objects (s.next + 1) := hobjects ▸ h.nodes.mono (Nat.le_succ _)
  refine steps_of_reinit (fun b => eq_comm) hstep (h.reinit hnodes a) ?_ fun b hb => ?_
  · rw [h.follows_reinit hnodes, hstorage, Function.update_self, hobjects]
    rfl
  · refine h.follows_reinit_of_ne hb hnodes ?_ ?_
    · rw [hobjects, host]
    · rw [hstorage, Function.update_of_ne hb]

/-- A node that a lock or an unlock makes fits the storage. -/
lemma Inv.follows_get (h : s.Inv) (made : Bool) {s' : MutexRun}
    (h' : s'.Inv) (hmemory : s'.memory = (s.memory.a2iGetMutex (s.block made) a).2)
    (hbefore : s'.before = s.before) (b : ℕ) : s'.Follows b ↔ s.Follows b := by
  have hsame : s'.memory = s.memory → (s'.Follows b ↔ s.Follows b) := by
    intro hmem
    refine h.follows_congr h' ?_ ?_ (congrFun hbefore b)
    · rw [host, host, hmem]
    · rw [hmem]
  by_cases ha : a = 0
  · rw [ha, s.a2iGetMutex_null] at hmemory
    exact hsame hmemory
  rw [s.a2iGetMutex_eq made ha] at hmemory
  -- a node is made only where there is none, with the type found in the storage
  cases hhost : s.host a with
  | some n =>
    rw [hhost] at hmemory
    exact hsame hmemory
  | none =>
    cases made with
    | false =>
      rw [hhost] at hmemory
      exact hsame hmemory
    | true =>
      rw [hhost] at hmemory
      have hfind : s'.host b = if (⟨a, .mutex⟩ : ObjId) = ⟨b, .mutex⟩
          then some (s.newNode a (s.storedType a)) else s.host b := by
        rw [host, hmemory]
        exact find_cons _ _ _
      have hstorage : s'.memory.storage = s.memory.storage := by rw [hmemory]; rfl
      by_cases hb : b = a
      · subst hb
        rw [h'.follows_iff, h.follows_iff, hhost, hfind, if_pos rfl, hbefore]
        refine iff_of_true (fun n hn => ?_) nofun
        obtain rfl := Option.some.inj hn
        refine ⟨?_, fun hmem => (h.before b _ hmem).ne rfl⟩
        rw [storedType.eq_def s', hstorage]
        rfl
      · rw [if_neg fun heq => hb (congrArg ObjId.address heq).symm] at hfind
        exact h.follows_congr h' hfind (congrFun hstorage b) (congrFun hbefore b)

/-- What a lock or an unlock finds or makes. -/
lemma Inv.getMutex (h : s.Inv) (a : ℕ) (made : Bool) :
    NodesInv (s.memory.a2iGetMutex (s.block made) a).2.objects (s.next + 1) ∧
      (∀ p ∈ (s.memory.a2iGetMutex (s.block made) a).1, p < s.next + 1) ∧
      ((s.memory.a2iGetMutex (s.block made) a).1 = none →
        (s.memory.a2iGetMutex (s.block made) a).2 = s.memory) := by
  have hnodes : NodesInv s.memory.objects (s.next + 1) := h.nodes.mono (Nat.le_succ _)
  by_cases ha : a = 0
  · rw [ha, s.a2iGetMutex_null]
    exact ⟨hnodes, nofun, fun _ => rfl⟩
  rw [s.a2iGetMutex_eq made ha]
  cases hhost : s.host a with
  | some n =>
    obtain ⟨hmem, -⟩ := mem_of_a2iFindObjectLocked hhost
    refine ⟨hnodes, fun p hp => ?_, nofun⟩
    obtain rfl := Option.some.inj hp
    exact (h.nodes.lt n hmem).trans (Nat.lt_succ_self _)
  | none =>
    cases made with
    | false => exact ⟨hnodes, nofun, fun _ => rfl⟩
    | true =>
      refine ⟨NodesInv.cons (n := s.newNode a (s.storedType a)) h.nodes hhost ha,
        fun p hp => ?_, nofun⟩
      obtain rfl := Option.some.inj hp
      exact Nat.lt_succ_self _

/-- A lock or an unlock, which adds host mutexes to those that have been locked, or does not. -/
lemma Inv.steps_used (h : s.Inv) (a : ℕ) (made : Bool) {op : MutexOp} {s' : MutexRun}
    (hop : ∀ b, ¬ op.Initializes b) (hstep : s.step op = s')
    (hmemory : s'.memory = (s.memory.a2iGetMutex (s.block made) a).2)
    (hnext : s'.next = s.next + 1) (hbefore : s'.before = s.before)
    (hlocked : ∀ p ∈ s'.locked,
      p ∈ (s.memory.a2iGetMutex (s.block made) a).1 ∨ p ∈ s.locked) : s.Steps op := by
  subst hstep
  obtain ⟨hnodes, hptr, -⟩ := h.getMutex a made
  have h' : (s.step op).Inv := by
    refine ⟨?_, fun p hp => ?_, fun b p hp => ?_⟩
    · rw [hmemory, hnext]
      exact hnodes
    · rw [hnext]
      exact (hlocked p hp).elim (hptr p) fun hold => (h.locked p hold).trans (Nat.lt_succ_self _)
    · rw [hnext]
      rw [hbefore] at hp
      exact (h.before b p hp).trans (Nat.lt_succ_self _)
  exact ⟨h', fun b => ⟨fun hb => absurd hb (hop b),
    fun _ => h.follows_get made h' hmemory hbefore b⟩⟩

lemma Inv.steps_lock (h : s.Inv) (made : Bool) (rc : Except Errno Unit) :
    s.Steps (.lock a made rc) := by
  cases hr : (s.memory.a2iGetMutex (s.block made) a).1 with
  | none =>
    refine h.steps_null (fun b => id) ?_
    simp only [step, a2iPthreadMutexLock, hr, (h.getMutex a made).2.2 hr]
  | some p =>
    have hstep : s.step (.lock a made rc) = { s with
        memory := (s.memory.a2iGetMutex (s.block made) a).2
        next := s.next + 1 }.lockHost a p rc := by
      simp only [step, a2iPthreadMutexLock, hr]
    cases rc with
    | error errno =>
      exact h.steps_used a made (fun b => id) hstep rfl rfl rfl fun q hq => .inr hq
    | ok =>
      refine h.steps_used a made (fun b => id) hstep rfl rfl rfl fun q hq => ?_
      rw [hr]
      exact (List.mem_cons.mp hq).imp (fun heq => congrArg some heq.symm) id

lemma Inv.steps_unlock (h : s.Inv) (made : Bool) (rc : Except Errno Unit) :
    s.Steps (.unlock a made rc) := by
  cases hr : (s.memory.a2iGetMutex (s.block made) a).1 with
  | none =>
    refine h.steps_null (fun b => id) ?_
    simp only [step, a2iPthreadMutexUnlock, hr, (h.getMutex a made).2.2 hr]
  | some p =>
    have hstep : s.step (.unlock a made rc) = { s with
        memory := (s.memory.a2iGetMutex (s.block made) a).2
        next := s.next + 1 }.unlockHost a rc := by
      simp only [step, a2iPthreadMutexUnlock, hr]
    -- an unlock changes the host's side only
    cases rc with
    | error errno =>
      exact h.steps_used a made (fun b => id) hstep rfl rfl rfl fun q hq => .inr hq
    | ok =>
      exact h.steps_used a made (fun b => id) hstep rfl rfl rfl fun q hq => .inr hq

/-- **One operation.**  The list stays in order; the mutexes whose storage the operation
initializes follow it exactly under its condition, and all others as before. -/
theorem Inv.steps (h : s.Inv) (op : MutexOp) : s.Steps op := by
  cases op with
  | init mutex attr made => exact h.steps_init attr made
  | destroy mutex rc => exact h.steps_destroy rc
  | lock mutex made rc => exact h.steps_lock made rc
  | unlock mutex made rc => exact h.steps_unlock made rc
  | static mutex word => exact h.steps_static word

/-- An operation that initializes no storage has no condition. -/
lemma keeps_of_not_initializes {op : MutexOp} (hop : ∀ a, ¬ op.Initializes a) : s.Keeps op := by
  cases op with
  | init mutex attr made => exact fun hne => absurd ⟨rfl, hne⟩ (hop mutex)
  | static mutex word => exact absurd rfl (hop mutex)
  | destroy => trivial
  | lock => trivial
  | unlock => trivial

lemma eq_of_initializes {op : MutexOp} (ha : op.Initializes a) (hb : op.Initializes b) :
    a = b := by
  cases op with
  | init => exact ha.1.symm.trans hb.1
  | destroy => exact ha.1.symm.trans hb.1
  | static => exact Eq.trans (Eq.symm ha) hb
  | lock => exact ha.elim
  | unlock => exact ha.elim

/-- After an operation on mutexes that follow the storage, all do exactly when it meets its
condition. -/
lemma Inv.follows_step (h : s.Inv) (hgood : ∀ b, s.Follows b) (op : MutexOp) :
    (s.step op).Inv ∧ ((∀ b, (s.step op).Follows b) ↔ s.Keeps op) := by
  obtain ⟨hinv, hall⟩ := h.steps op
  refine ⟨hinv, ?_⟩
  by_cases hop : ∃ a, op.Initializes a
  · obtain ⟨a, ha⟩ := hop
    rw [← (hall a).1 ha]
    refine ⟨fun h => h a, fun hself b => ?_⟩
    by_cases hb : op.Initializes b
    · exact eq_of_initializes ha hb ▸ hself
    · exact ((hall b).2 hb).mpr (hgood b)
  · rw [not_exists] at hop
    exact iff_of_true (fun b => ((hall b).2 (hop b)).mpr (hgood b)) (keeps_of_not_initializes hop)

end MutexRun

/-! ### Every run -/

lemma inv_mutexStart (storage : ℕ → ℕ) : (mutexStart storage).Inv where
  nodes := ⟨.nil, .nil, nofun, nofun⟩
  locked := nofun
  before := nofun

lemma follows_mutexStart (storage : ℕ → ℕ) (a : ℕ) : (mutexStart storage).Follows a :=
  (inv_mutexStart storage).follows_iff.mpr nofun

/-- The attributes of the shim are of types that the storage can encode. -/
lemma MutexAttr.host_type {v : BitVec 64} (h : MutexAttr v) :
    a2iHostMutexType (v &&& 0x0f).toNat = a2iHostMutexType ((v &&& 0x0f).toNat % 4) := by
  cases h with
  | init => rfl
  | destroy => rfl
  | @settype attr type _ htype =>
    -- the low bits of the attribute are those of the type
    have hlow : (attr &&& ~~~0x0f ||| BitVec.ofNat 64 type) &&& 0x0f =
        BitVec.ofNat 64 type &&& 0x0f := by
      rw [BitVec.and_or_distrib_right, BitVec.and_assoc, BitVec.not_and_self]
      exact (congrArg (· ||| _) BitVec.and_zero).trans BitVec.zero_or
    rw [hlow]
    interval_cases type <;> rfl

/-- Of the operations that the program may do, only initializers can break the condition. -/
lemma MutexRun.Allows.keeps {s : MutexRun} {op : MutexOp} (h : s.Allows op)
    (hstatic : ∀ mutex word, op ≠ .static mutex word) : s.Keeps op := by
  cases op with
  | init mutex attr made =>
    intro _ _
    cases attr with
    | none => rfl
    | some v => exact (h v rfl).host_type
  | static mutex word => exact absurd rfl (hstatic mutex word)
  | destroy => trivial
  | lock => trivial
  | unlock => trivial

/-- **Host mutexes follow the storage exactly when initializers meet their condition.**  In a run
of calls and static initializers, a lock or an unlock of any mutex at any time would work on a
host mutex of the type that the storage encodes, not locked before this storage was initialized,
if and only if every operation of the run meets its condition. -/
theorem mutexRun_follows_iff (storage : ℕ → ℕ) (ops : List MutexOp) :
    (∀ s ∈ Runs.visited MutexRun.step (mutexStart storage) ops, ∀ a, s.Follows a) ↔
      Runs.Along MutexRun.step MutexRun.Keeps (mutexStart storage) ops :=
  Runs.forall_visited_iff (fun _ op h hgood => h.follows_step hgood op)
    (inv_mutexStart storage) (follows_mutexStart storage)

/-- **The locks and unlocks of a run** work on host mutexes that follow the storage exactly when
each initialization that one of them finds, with no other one of that mutex in between, has met its
condition.  An initializer on which another initialization follows before the next lock does no
harm. -/
theorem mutexRun_uses_follow_iff (storage : ℕ → ℕ) (ops : List MutexOp) :
    (∀ before use after a, ops = before ++ use :: after → use.Uses a →
        (before.foldl MutexRun.step (mutexStart storage)).Follows a) ↔
      ∀ before op between use after a, ops = before ++ op :: (between ++ use :: after) →
        op.Initializes a → (∀ e ∈ between, ¬ e.Initializes a) → use.Uses a →
          (before.foldl MutexRun.step (mutexStart storage)).Keeps op := by
  have hlast : ∀ (before : List MutexOp) (a : ℕ),
      (before.foldl MutexRun.step (mutexStart storage)).Follows a ↔
        ∀ first op between, before = first ++ op :: between → op.Initializes a →
          (∀ e ∈ between, ¬ e.Initializes a) →
            (first.foldl MutexRun.step (mutexStart storage)).Keeps op := fun before a =>
    (Runs.foldl_iff_last (I := MutexRun.Inv) (fun s op h => MutexRun.Inv.steps (s := s) h op)
      (inv_mutexStart storage) (follows_mutexStart storage) before a).2
  constructor
  · intro h before op between use after a hops hop hbetween huse
    have hfollows := h (before ++ op :: between) use after a (by rw [hops]; simp) huse
    exact (hlast _ a).mp hfollows before op between rfl hop hbetween
  · intro h before use after a hops huse
    refine (hlast before a).mpr fun first op between hbefore hop hbetween => ?_
    exact h first op between use after a (by rw [hops, hbefore]; simp) hop hbetween huse

/-- A mutex that is used with one static initializer and then with another one. -/
def staleRun : List MutexOp :=
  [.static 16 0, .lock 16 true (.ok ()), .unlock 16 true (.ok ()), .static 16 0x4000,
    .lock 16 true (.ok ())]

theorem staleRun_stale : ¬ ∀ (storage : ℕ → ℕ) (ops : List MutexOp),
    Runs.Along MutexRun.step MutexRun.Allows (mutexStart storage) ops →
      ∀ s ∈ Runs.visited MutexRun.step (mutexStart storage) ops, ∀ a, s.Follows a := by
  intro hall
  have hallowed : Runs.Along MutexRun.step MutexRun.Allows (mutexStart fun _ => 0) staleRun :=
    ⟨⟨by decide, by decide, rfl⟩, trivial, trivial, ⟨by decide, by decide, rfl⟩, trivial, trivial⟩
  -- the second lock finds a normal mutex for the recursive one
  have hmem : (staleRun.take 4).foldl MutexRun.step (mutexStart fun _ => 0) ∈
      Runs.visited MutexRun.step (mutexStart fun _ => 0) staleRun := by
    simp [staleRun, Runs.visited]
  have hfollows := hall _ _ hallowed _ hmem 16 true _ rfl
  exact absurd hfollows.1 (by decide)

end Apk2Ios
