import Mathlib.Algebra.Group.Nat.Defs
import Mathlib.Data.Set.Insert
import Mathlib.Data.List.Nodup
import Apk2Ios.Errors
import Apk2Ios.Lib.Threads

/-!
# The shim: the registry of mutexes and condition variables

`pthread_compat.c` keeps a host mutex or condition variable for every Android object in a list
of nodes, searched by address and kind.  A node is made by an initialization or by the first
use of the object, and taken out by an initialization or a destruction.  The list is touched
only under `g_objects_lock`; the steps of the model are its critical sections.
-/

namespace Apk2Ios

open Lib

/-! ### The list -/

/-- `A2I_OBJ_MUTEX` and `A2I_OBJ_COND`. -/
inductive ObjKind where
  | mutex
  | cond
deriving DecidableEq, Repr

/-- An Android object: what a node is searched by. -/
structure ObjId where
  address : ℕ
  kind : ObjKind
deriving DecidableEq, Repr

/-- The types of a host mutex. -/
inductive HostMutexType where
  | normal
  | recursive
  | errorcheck
deriving DecidableEq, Repr

/-- `a2i_obj_node`, with its own address `ptr`; `hostType` is the type of the mutex in it. -/
structure ObjNode where
  ptr : ℕ
  androidAddress : ℕ
  kind : ObjKind
  androidClock : ℤ := 0
  hostType : HostMutexType := .normal
deriving DecidableEq, Repr

/-- The object of a node. -/
def ObjNode.key (n : ObjNode) : ObjId := ⟨n.androidAddress, n.kind⟩

/-- `a2i_android_mutex_type`, from the first word of the Android mutex. -/
def a2iAndroidMutexType (word : ℕ) : ℕ := word / 2 ^ 14 % 4

/-- `a2i_host_mutex_type`. -/
def a2iHostMutexType : ℕ → HostMutexType
  | 1 => .recursive
  | 2 => .errorcheck
  | _ => .normal

/-- `a2i_find_object_locked`. -/
def a2iFindObjectLocked (objects : List ObjNode) (o : ObjId) : Option ObjNode :=
  objects.find? fun n => n.key = o

/-- The list after `a2i_remove_object`, which returns the node that is found. -/
def a2iRemoveObject (objects : List ObjNode) (o : ObjId) : List ObjNode :=
  objects.eraseP fun n => n.key = o

/-! ### Memory -/

/-- A block of memory is free, a node of the list, or a node that a call has taken out. -/
inductive Block (ι : Type*) where
  | free
  | listed
  | held (i : ι)

/-- What a call does to an object: it initializes or destroys it, or it uses the host object in
the node at `ptr`. -/
inductive ObjEvent (ι : Type*) where
  | reset (o : ObjId)
  | use (i : ι) (o : ObjId) (ptr : ℕ)

/-- The list `g_objects`, the blocks of memory, and the first word of every Android mutex.  The
calls in progress and the events, the newest first, are not in the code. -/
structure ObjMemory (ι : Type*) where
  objects : List ObjNode
  heap : ℕ → Block ι
  storage : ℕ → ℕ
  active : Set ι
  trace : List (ObjEvent ι)

namespace ObjMemory

variable {ι : Type*} (m : ObjMemory ι)

/-- A new node is at the front of the list. -/
def insert (n : ObjNode) : ObjMemory ι :=
  { m with objects := n :: m.objects, heap := Function.update m.heap n.ptr .listed }

/-- `a2i_create_mutex_locked`, with the block of the node if `calloc` and the host can make a
mutex. -/
def a2iCreateMutexLocked (block : Option ℕ) (mutex androidType : ℕ) : Option ℕ × ObjMemory ι :=
  match block with
  | none => (none, m)
  | some p =>
    (some p, m.insert
      { ptr := p, androidAddress := mutex, kind := .mutex
        hostType := a2iHostMutexType androidType })

/-- `a2i_create_cond_locked`. -/
def a2iCreateCondLocked (block : Option ℕ) (cond : ℕ) (androidClock : ℤ) :
    Option ℕ × ObjMemory ι :=
  match block with
  | none => (none, m)
  | some p => (some p, m.insert { ptr := p, androidAddress := cond, kind := .cond, androidClock })

/-- `a2i_get_mutex`. -/
def a2iGetMutex (block : Option ℕ) (mutex : ℕ) : Option ℕ × ObjMemory ι :=
  if mutex = 0 then (none, m)
  else
    match a2iFindObjectLocked m.objects ⟨mutex, .mutex⟩ with
    | some n => (some n.ptr, m)
    | none => m.a2iCreateMutexLocked block mutex (a2iAndroidMutexType (m.storage mutex))

/-- `a2i_get_cond`. -/
def a2iGetCond (block : Option ℕ) (cond : ℕ) : Option ℕ × ObjMemory ι :=
  if cond = 0 then (none, m)
  else
    match a2iFindObjectLocked m.objects ⟨cond, .cond⟩ with
    | some n => (some n.ptr, m)
    | none => m.a2iCreateCondLocked block cond 0

/-- The effect of `a2i_remove_object` for the call `i`. -/
def remove (i : ι) (o : ObjId) : ObjMemory ι :=
  { m with
    objects := a2iRemoveObject m.objects o
    heap :=
      match a2iFindObjectLocked m.objects o with
      | some n => Function.update m.heap n.ptr (.held i)
      | none => m.heap
    trace := .reset o :: m.trace }

/-- The call `i` is over. -/
def leave (i : ι) : ObjMemory ι := { m with active := m.active \ {i} }

/-- `free`. -/
def freeBlock (p : ℕ) : ObjMemory ι := { m with heap := Function.update m.heap p .free }

end ObjMemory

/-! ### The calls -/

/-- The calls on mutexes and condition variables.  Objects are pointers, and so is the time of
`a2i_pthread_cond_timedwait`; an attribute is `NULL` or its value. -/
inductive ObjCall where
  | mutexInit (mutex : ℕ) (attr : Option (BitVec 64))
  | mutexDestroy (mutex : ℕ)
  | mutexLock (mutex : ℕ)
  | mutexUnlock (mutex : ℕ)
  | condInit (cond : ℕ) (attr : Option (BitVec 64))
  | condDestroy (cond : ℕ)
  | condWait (cond mutex : ℕ)
  | condTimedwait (cond mutex absolute : ℕ)
  | condSignal (cond : ℕ)
  | condBroadcast (cond : ℕ)

/-- The points of the calls, with the local variables for nodes. -/
inductive ObjPoint where
  | start
  | remove
  | release (old : Option ℕ)
  | store (rc : Except Errno Unit)
  | create
  | getCond
  | getMutex (c : Option ℕ)
  | use (c m : Option ℕ)
  | host
  | returned (rc : Except Errno Unit)

namespace ObjCall

/-- The arguments that are refused at once. -/
def Invalid : ObjCall → Prop
  | mutexInit mutex _ | mutexDestroy mutex => mutex = 0
  | condInit cond _ | condDestroy cond => cond = 0
  | condTimedwait _ _ absolute => absolute = 0
  | _ => False

/-- The object that a call initializes or destroys. -/
def resets : ObjCall → Option ObjId
  | mutexInit mutex _ | mutexDestroy mutex => some ⟨mutex, .mutex⟩
  | condInit cond _ | condDestroy cond => some ⟨cond, .cond⟩
  | _ => none

/-- The mutex that a call uses. -/
def mutex? : ObjCall → Option ℕ
  | mutexLock mutex | mutexUnlock mutex | condWait _ mutex | condTimedwait _ mutex _ => some mutex
  | _ => none

/-- The condition variable that a call uses. -/
def cond? : ObjCall → Option ℕ
  | condWait cond _ | condTimedwait cond _ _ | condSignal cond | condBroadcast cond => some cond
  | _ => none

/-- A call is an operation on the object. -/
def Touches (k : ObjCall) (o : ObjId) : Prop :=
  k.resets = some o ∨ k.mutex? = some o.address ∧ o.kind = .mutex ∨
    k.cond? = some o.address ∧ o.kind = .cond

/-- One call initializes or destroys an object of the other. -/
def Conflicts (k l : ObjCall) : Prop :=
  ∃ o, k.resets = some o ∧ l.Touches o ∨ l.resets = some o ∧ k.Touches o

/-- The first point after the arguments are checked. -/
def first (k : ObjCall) : ObjPoint :=
  if k.resets.isSome then .remove
  else if k.cond?.isSome then .getCond
  else .getMutex none

/-- What is returned when a node is missing. -/
def missing : ObjCall → Errno
  | mutexLock _ => .ENOMEM
  | _ => .EINVAL

/-- The first word of the Android mutex after an initialization or a destruction; the storage of
a condition variable is never read. -/
def store (storage : ℕ → ℕ) : ObjCall → ℕ → ℕ
  | mutexInit mutex attr =>
    Function.update storage mutex (((attr.getD 0 &&& 0x0f).toNat % 4) * 2 ^ 14)
  | mutexDestroy mutex => Function.update storage mutex 0
  | _ => storage

/-- The node that an initialization makes. -/
def create {ι : Type*} (m : ObjMemory ι) (block : Option ℕ) : ObjCall → Option ℕ × ObjMemory ι
  | mutexInit mutex attr => m.a2iCreateMutexLocked block mutex (attr.getD 0 &&& 0x0f).toNat
  | condInit cond attr => m.a2iCreateCondLocked block cond ((attr.getD 0).setWidth 32).toInt
  | _ => (none, m)

/-- An initialization goes on to make a node, a destruction is over. -/
def IsInit : ObjCall → Prop
  | mutexInit _ _ | condInit _ _ => True
  | _ => False

/-- The host objects that a call works on, when it has all its nodes. -/
def used (c m : Option ℕ) : ObjCall → Option (List (ObjId × ℕ))
  | mutexLock mutex | mutexUnlock mutex => m.map fun p => [(⟨mutex, .mutex⟩, p)]
  | condSignal cond | condBroadcast cond => c.map fun p => [(⟨cond, .cond⟩, p)]
  | condWait cond mutex | condTimedwait cond mutex _ =>
    c.bind fun p => m.map fun q => [(⟨cond, .cond⟩, p), (⟨mutex, .mutex⟩, q)]
  | _ => none

end ObjCall

section

variable {ι : Type*}

/-- The steps of the call `i`.  A call that initializes or destroys an object begins only while
no other operation on the object is in progress, and no operation on the object begins while
it is in progress.  `block` is memory that `calloc` returns; what the host's functions return
is left open. -/
inductive ObjStep (call : ι → ObjCall) (i : ι) :
    ObjMemory ι → ObjPoint → ObjMemory ι → ObjPoint → Prop
  | einval {m} : (call i).Invalid → ObjStep call i m .start m (.returned (.error .EINVAL))
  | enter {m} : ¬ (call i).Invalid → (∀ j ∈ m.active, ¬ (call i).Conflicts (call j)) →
      ObjStep call i m .start { m with active := Insert.insert i m.active } (call i).first
  | remove {m o} : (call i).resets = some o →
      ObjStep call i m .remove (m.remove i o)
        (.release ((a2iFindObjectLocked m.objects o).map ObjNode.ptr))
  | releaseNone {m} : ObjStep call i m (.release none) m (.store (.ok ()))
  -- the host's destroy function decides what a destruction returns
  | release {m p rc} : ObjStep call i m (.release (some p)) (m.freeBlock p) (.store rc)
  | storeInit {m rc} : (call i).IsInit →
      ObjStep call i m (.store rc) { m with storage := (call i).store m.storage } .create
  | storeDestroy {m rc} : ¬ (call i).IsInit →
      ObjStep call i m (.store rc)
        (ObjMemory.leave { m with storage := (call i).store m.storage } i) (.returned rc)
  | create {m block} : (∀ p ∈ block, m.heap p = .free) →
      ObjStep call i m .create (((call i).create m block).2.leave i)
        (.returned (if ((call i).create m block).1 = none then .error .ENOMEM else .ok ()))
  | getCond {m block cond} : (call i).cond? = some cond → (∀ p ∈ block, m.heap p = .free) →
      ObjStep call i m .getCond (m.a2iGetCond block cond).2
        (if (call i).mutex?.isSome then .getMutex (m.a2iGetCond block cond).1
          else .use (m.a2iGetCond block cond).1 none)
  | getMutex {m block c mutex} : (call i).mutex? = some mutex →
      (∀ p ∈ block, m.heap p = .free) →
      ObjStep call i m (.getMutex c) (m.a2iGetMutex block mutex).2
        (.use c (m.a2iGetMutex block mutex).1)
  | use {m c mutex l} : (call i).used c mutex = some l →
      ObjStep call i m (.use c mutex)
        { m with trace := (l.map fun op => .use i op.1 op.2) ++ m.trace } .host
  | useMissing {m c mutex} : (call i).used c mutex = none →
      ObjStep call i m (.use c mutex) (m.leave i) (.returned (.error (call i).missing))
  | hostReturns {m rc} : ObjStep call i m .host (m.leave i) (.returned rc)

/-- Any number of calls on mutexes and condition variables, while the program stores to their
memory. -/
def a2iPthread (call : ι → ObjCall) : Threads ι (ObjMemory ι) ObjPoint where
  thread := ObjStep call
  env m m' := ∃ storage, m' = { m with storage }

/-- No call has begun, and the list is empty. -/
def objStart (ι : Type*) (storage : ℕ → ℕ) : Config ι (ObjMemory ι) ObjPoint :=
  ⟨⟨[], fun _ => .free, storage, ∅, []⟩, fun _ => .start⟩

end

/-! ### Finding and making nodes -/

section

variable {ι : Type*} {m m' : ObjMemory ι} {o : ObjId} {p : ℕ}

/-- The object has the node at `p`. -/
def ObjMemory.Has (m : ObjMemory ι) (o : ObjId) (p : ℕ) : Prop :=
  ∃ n ∈ m.objects, n.key = o ∧ n.ptr = p

/-- The object has no node. -/
def ObjMemory.Lacks (m : ObjMemory ι) (o : ObjId) : Prop := ∀ n ∈ m.objects, n.key ≠ o

/-- What finding or making the node of an object does. -/
def GetSpec (m : ObjMemory ι) (block : Option ℕ) (o : ObjId) (r : Option ℕ × ObjMemory ι) :
    Prop :=
  (r.2 = m ∧ ∀ p ∈ r.1, m.Has o p) ∨
    ∃ n, n.key = o ∧ r.1 = some n.ptr ∧ r.2 = m.insert n ∧ n.ptr ∈ block ∧ m.Lacks o

lemma mem_of_a2iFindObjectLocked {n : ObjNode}
    (h : a2iFindObjectLocked m.objects o = some n) : n ∈ m.objects ∧ n.key = o :=
  ⟨List.mem_of_find?_eq_some h, by simpa using List.find?_some h⟩

lemma lacks_of_a2iFindObjectLocked (h : a2iFindObjectLocked m.objects o = none) : m.Lacks o :=
  fun n hn => by simpa using List.find?_eq_none.mp h n hn

/-- The node is searched for, and made only for an object without one. -/
lemma getSpec_find {block : Option ℕ} {create : Option ℕ × ObjMemory ι}
    (hcreate : m.Lacks o → GetSpec m block o create) :
    GetSpec m block o (match a2iFindObjectLocked m.objects o with
      | some n => (some n.ptr, m)
      | none => create) := by
  rcases hfind : a2iFindObjectLocked m.objects o with _ | n
  · exact hcreate (lacks_of_a2iFindObjectLocked hfind)
  · obtain ⟨hmem, hkey⟩ := mem_of_a2iFindObjectLocked hfind
    refine Or.inl ⟨rfl, fun p hp => ⟨n, hmem, hkey, ?_⟩⟩
    exact Option.some.inj hp

lemma a2iGetMutex_spec (block : Option ℕ) (mutex : ℕ) :
    GetSpec m block ⟨mutex, .mutex⟩ (m.a2iGetMutex block mutex) := by
  rw [ObjMemory.a2iGetMutex]
  split
  · exact Or.inl ⟨rfl, nofun⟩
  refine getSpec_find fun hlacks => ?_
  cases block with
  | none => exact Or.inl ⟨rfl, nofun⟩
  | some p => exact Or.inr ⟨_, rfl, rfl, rfl, rfl, hlacks⟩

lemma a2iGetCond_spec (block : Option ℕ) (cond : ℕ) :
    GetSpec m block ⟨cond, .cond⟩ (m.a2iGetCond block cond) := by
  rw [ObjMemory.a2iGetCond]
  split
  · exact Or.inl ⟨rfl, nofun⟩
  refine getSpec_find fun hlacks => ?_
  cases block with
  | none => exact Or.inl ⟨rfl, nofun⟩
  | some p => exact Or.inr ⟨_, rfl, rfl, rfl, rfl, hlacks⟩

lemma GetSpec.ghost {block : Option ℕ} {r : Option ℕ × ObjMemory ι} (h : GetSpec m block o r) :
    r.2.trace = m.trace ∧ r.2.active = m.active := by
  rcases h with ⟨h, -⟩ | ⟨n, -, -, h, -⟩ <;> rw [h] <;> exact ⟨rfl, rfl⟩

/-- The node that is returned is in the list. -/
lemma GetSpec.has {block : Option ℕ} {r : Option ℕ × ObjMemory ι} (h : GetSpec m block o r) :
    ∀ p ∈ r.1, r.2.Has o p := by
  rcases h with ⟨hsame, h⟩ | ⟨n, hkey, hptr, hinsert, -⟩
  · rw [hsame]
    exact h
  · intro p hp
    rw [hptr] at hp
    rw [hinsert]
    exact ⟨n, List.mem_cons_self, hkey, Option.some.inj hp⟩

lemma create_ghost (m : ObjMemory ι) (block : Option ℕ) (k : ObjCall) :
    (k.create m block).2.trace = m.trace ∧ (k.create m block).2.active = m.active := by
  cases k <;> cases block <;> exact ⟨rfl, rfl⟩

/-- A call works on the host objects of its own condition variable and mutex. -/
lemma mem_used {k : ObjCall} {c mutex : Option ℕ} {l : List (ObjId × ℕ)}
    (h : k.used c mutex = some l) {op : ObjId × ℕ} (hop : op ∈ l) :
    (∃ a p, k.cond? = some a ∧ c = some p ∧ op = (⟨a, .cond⟩, p)) ∨
      ∃ a p, k.mutex? = some a ∧ mutex = some p ∧ op = (⟨a, .mutex⟩, p) := by
  cases k with
  | mutexLock | mutexUnlock =>
    obtain ⟨p, rfl, rfl⟩ := Option.map_eq_some_iff.mp h
    exact Or.inr ⟨_, p, rfl, rfl, List.mem_singleton.mp hop⟩
  | condSignal | condBroadcast =>
    obtain ⟨p, rfl, rfl⟩ := Option.map_eq_some_iff.mp h
    exact Or.inl ⟨_, p, rfl, rfl, List.mem_singleton.mp hop⟩
  | condWait | condTimedwait =>
    obtain ⟨p, rfl, h⟩ := Option.bind_eq_some_iff.mp h
    obtain ⟨q, rfl, rfl⟩ := Option.map_eq_some_iff.mp h
    rcases List.mem_cons.mp hop with rfl | hop
    · exact Or.inl ⟨_, p, rfl, rfl, rfl⟩
    · exact Or.inr ⟨_, q, rfl, rfl, List.mem_singleton.mp hop⟩
  | _ => exact nomatch h

/-- An initialization makes a node for its object, or nothing. -/
lemma create_spec {k : ObjCall} (block : Option ℕ) (hk : k.IsInit) (ho : k.resets = some o) :
    (k.create m block).2 = m ∨
      ∃ n, n.key = o ∧ (k.create m block).2 = m.insert n ∧ n.ptr ∈ block := by
  cases k with
  | mutexInit | condInit =>
    obtain rfl := Option.some.inj ho
    cases block with
    | none => exact Or.inl rfl
    | some p => exact Or.inr ⟨_, rfl, rfl, rfl⟩
  | _ => exact hk.elim

end

/-! ### One step -/

namespace ObjPoint

/-- The call has begun and is not over. -/
def InProgress : ObjPoint → Prop
  | start | returned _ => False
  | _ => True

/-- The node of the object has been taken out. -/
def AfterRemove : ObjPoint → Prop
  | release _ | store _ | create => True
  | _ => False

/-- The node of the condition variable, once it is known. -/
def cond? : ObjPoint → Option ℕ
  | getMutex c | use c _ => c
  | _ => none

/-- The node of the mutex, once it is known. -/
def mutex? : ObjPoint → Option ℕ
  | use _ m => m
  | _ => none

end ObjPoint

section

variable {ι : Type*} {call : ι → ObjCall} {i j : ι} {m m' : ObjMemory ι} {p p' q : ObjPoint}
  {o : ObjId}

/-- What is known of a call at a point. -/
structure ObjAssertion (call : ι → ObjCall) (m : ObjMemory ι) (i : ι) (p : ObjPoint) : Prop where
  active : p.InProgress → i ∈ m.active
  resets : p = .remove ∨ p.AfterRemove → ∃ o, (call i).resets = some o
  init : p = .create → (call i).IsInit
  gone : p.AfterRemove → ∀ o, (call i).resets = some o → m.Lacks o
  held : ∀ k, p = .release (some k) → m.heap k = .held i
  cond : ∀ k ∈ p.cond?, ∀ a, (call i).cond? = some a → m.Has ⟨a, .cond⟩ k
  mutex : ∀ k ∈ p.mutex?, ∀ a, (call i).mutex? = some a → m.Has ⟨a, .mutex⟩ k

/-- What a step does to the list and to memory. -/
inductive ObjEffect (call : ι → ObjCall) (i : ι) (m : ObjMemory ι) (p : ObjPoint)
    (m' : ObjMemory ι) : Prop
  | same : m'.objects = m.objects → m'.heap = m.heap → ObjEffect call i m p m'
  | insert (n : ObjNode) : (call i).Touches n.key → m.heap n.ptr = .free → m.Lacks n.key →
      m'.objects = (m.insert n).objects → m'.heap = (m.insert n).heap → ObjEffect call i m p m'
  | remove (o : ObjId) : p = .remove → (call i).resets = some o →
      m'.objects = (m.remove i o).objects → m'.heap = (m.remove i o).heap →
        ObjEffect call i m p m'
  | free (k : ℕ) : p = .release (some k) → m'.objects = m.objects →
      m'.heap = (m.freeBlock k).heap → ObjEffect call i m p m'

/-- A search for a node leaves the list alone or makes the node. -/
lemma GetSpec.effect {block : Option ℕ} {r : Option ℕ × ObjMemory ι} (h : GetSpec m block o r)
    (ho : (call i).Touches o) (hblock : ∀ p ∈ block, m.heap p = .free) :
    ObjEffect call i m p r.2 := by
  rcases h with ⟨hsame, -⟩ | ⟨n, hkey, -, hinsert, hn, hlacks⟩
  · exact .same (congrArg ObjMemory.objects hsame) (congrArg ObjMemory.heap hsame)
  · exact .insert n (hkey ▸ ho) (hblock _ hn) (hkey ▸ hlacks)
      (congrArg ObjMemory.objects hinsert) (congrArg ObjMemory.heap hinsert)

/-- Every step has one of the four effects. -/
lemma ObjStep.effect (h : ObjStep call i m p m' p') (hA : ObjAssertion call m i p) :
    ObjEffect call i m p m' := by
  cases h with
  | remove ho => exact .remove _ rfl ho rfl rfl
  | release => exact .free _ rfl rfl rfl
  | @create block hblock =>
    obtain ⟨o, ho⟩ := hA.resets (Or.inr trivial)
    have hobjects (m m' : ObjMemory ι) (h : m = m') : (m.leave i).objects = (m'.leave i).objects :=
      congrArg (fun m => (m.leave i).objects) h
    have hheap (m m' : ObjMemory ι) (h : m = m') : (m.leave i).heap = (m'.leave i).heap :=
      congrArg (fun m => (m.leave i).heap) h
    rcases create_spec block (hA.init rfl) ho with hsame | ⟨n, hkey, hinsert, hn⟩
    · exact .same (hobjects _ _ hsame) (hheap _ _ hsame)
    · refine .insert n (Or.inl (hkey ▸ ho)) (hblock _ hn) ?_ (hobjects _ _ hinsert)
        (hheap _ _ hinsert)
      rw [hkey]
      exact hA.gone trivial o ho
  | getCond hc hblock => exact (a2iGetCond_spec _ _).effect (Or.inr (Or.inr ⟨hc, rfl⟩)) hblock
  | getMutex hc hblock => exact (a2iGetMutex_spec _ _).effect (Or.inr (Or.inl ⟨hc, rfl⟩)) hblock
  | _ => exact .same rfl rfl

/-- The step of another call keeps the node of an object. -/
lemma ObjEffect.has (h : ObjEffect call i m p m') {k : ℕ} (hk : m.Has o k)
    (hother : p = .remove → (call i).resets ≠ some o) : m'.Has o k := by
  obtain ⟨n, hn, hkey, hptr⟩ := hk
  rcases h with ⟨ho, -⟩ | ⟨n', -, -, -, ho, -⟩ | ⟨o', hp, hr, ho, -⟩ | ⟨_, -, ho, -⟩
  · exact ⟨n, ho ▸ hn, hkey, hptr⟩
  · exact ⟨n, ho ▸ List.mem_cons_of_mem _ hn, hkey, hptr⟩
  · refine ⟨n, ho ▸ ?_, hkey, hptr⟩
    show n ∈ a2iRemoveObject m.objects o'
    rw [a2iRemoveObject, List.mem_eraseP_of_neg]
    · exact hn
    · have hne : n.key ≠ o' := by
        rintro rfl
        exact hother hp (hr.trans (congrArg some hkey))
      simpa using hne
  · exact ⟨n, ho ▸ hn, hkey, hptr⟩

/-- A step makes a node only for an object of its own call. -/
lemma ObjEffect.lacks (h : ObjEffect call i m p m') (ho : m.Lacks o)
    (hother : ¬ (call i).Touches o) : m'.Lacks o := by
  intro n hn
  rcases h with ⟨hobj, -⟩ | ⟨n', htouch, -, -, hobj, -⟩ | ⟨o', -, -, hobj, -⟩ | ⟨_, -, hobj, -⟩ <;>
    rw [hobj] at hn
  · exact ho n hn
  · rcases List.mem_cons.mp hn with rfl | hn
    · rintro rfl
      exact hother htouch
    · exact ho n hn
  · exact ho n (List.mem_of_mem_eraseP hn)
  · exact ho n hn

end

/-! ### The events -/

section

variable {ι : Type*}

/-- The host object that was used last, after the last reset. -/
def currentPtr (o : ObjId) : List (ObjEvent ι) → Option ℕ
  | [] => none
  | .reset o' :: trace => if o' = o then none else currentPtr o trace
  | .use _ o' ptr :: trace => if o' = o then some ptr else currentPtr o trace

/-- Every use is of the host object that was used last. -/
def Consistent : List (ObjEvent ι) → Prop
  | [] => True
  | .reset _ :: trace => Consistent trace
  | .use _ o ptr :: trace => (∀ ptr' ∈ currentPtr o trace, ptr' = ptr) ∧ Consistent trace

lemma Consistent.tail {e : ObjEvent ι} {trace : List (ObjEvent ι)} (h : Consistent (e :: trace)) :
    Consistent trace := by
  cases e with
  | reset => exact h
  | use => exact h.2

lemma Consistent.of_append {newer older : List (ObjEvent ι)} (h : Consistent (newer ++ older)) :
    Consistent older := by
  induction newer with
  | nil => exact h
  | cons e newer ih => exact ih h.tail

/-- Without a reset, the host object that was used last stays the same. -/
lemma Consistent.currentPtr_eq {newer older : List (ObjEvent ι)} {i : ι} {o : ObjId} {ptr : ℕ}
    (h : Consistent (newer ++ .use i o ptr :: older)) (hreset : .reset o ∉ newer) :
    currentPtr o (newer ++ .use i o ptr :: older) = some ptr := by
  induction newer with
  | nil => exact if_pos rfl
  | cons e newer ih =>
    have hrest := ih h.tail (fun hmem => hreset (List.mem_cons_of_mem _ hmem))
    cases e with
    | reset o' =>
      have hne : o' ≠ o := by
        rintro rfl
        exact hreset List.mem_cons_self
      exact (if_neg hne).trans hrest
    | use j o' ptr' =>
      by_cases ho : o' = o
      · subst ho
        refine (if_pos rfl).trans ?_
        rw [h.1 ptr hrest]
      · exact (if_neg ho).trans hrest

/-- Two uses of an object with no reset between them are of one host object. -/
lemma Consistent.ptr_eq {newer middle older : List (ObjEvent ι)} {i j : ι} {o : ObjId}
    {p q : ℕ} (h : Consistent (newer ++ .use j o q :: (middle ++ .use i o p :: older)))
    (hreset : .reset o ∉ middle) : p = q := by
  have h := h.of_append
  exact h.1 p (h.2.currentPtr_eq hreset)

end

/-! ### Every run -/

section

variable {ι : Type*} {call : ι → ObjCall} {i j : ι} {m m' : ObjMemory ι} {p p' q : ObjPoint}
  {o : ObjId}

/-- The list has one node for an object, its nodes are different blocks, no call conflicts with
another one, and every object keeps the host object that was used last. -/
structure RegistryInv (call : ι → ObjCall) (m : ObjMemory ι) : Prop where
  keys : (m.objects.map ObjNode.key).Nodup
  ptrs : (m.objects.map ObjNode.ptr).Nodup
  listed : ∀ n ∈ m.objects, m.heap n.ptr = .listed
  apart : ∀ i ∈ m.active, ∀ j ∈ m.active, i ≠ j → ¬ (call i).Conflicts (call j)
  current : ∀ o, ∀ k ∈ currentPtr o m.trace, m.Has o k
  consistent : Consistent m.trace

/-- A node that is taken out was the only one of its object. -/
lemma key_ne_of_mem_remove {objects : List ObjNode} (hkeys : (objects.map ObjNode.key).Nodup)
    {n : ObjNode} (hn : n ∈ a2iRemoveObject objects o) : n.key ≠ o := by
  induction objects with
  | nil => exact nomatch hn
  | cons x objects ih =>
    obtain ⟨hx, hkeys⟩ := List.nodup_cons.mp hkeys
    by_cases hxo : x.key = o
    · rw [a2iRemoveObject, List.eraseP_cons_of_pos (by simpa using hxo)] at hn
      rintro hno
      exact hx (hxo ▸ hno ▸ List.mem_map_of_mem hn)
    · rw [a2iRemoveObject, List.eraseP_cons_of_neg (by simpa using hxo)] at hn
      rcases List.mem_cons.mp hn with rfl | hn
      · exact hxo
      · exact ih hkeys hn

/-- An object has one node. -/
lemma RegistryInv.ptr_eq (hG : RegistryInv call m) {k l : ℕ} (hk : m.Has o k) (hl : m.Has o l) :
    k = l := by
  obtain ⟨n, hn, hkey, rfl⟩ := hk
  obtain ⟨n', hn', hkey', rfl⟩ := hl
  rw [List.inj_on_of_nodup_map hG.keys hn hn' (hkey.trans hkey'.symm)]

/-- The list after a step. -/
lemma ObjEffect.list (h : ObjEffect call i m p m') (hG : RegistryInv call m)
    (hA : ObjAssertion call m i p) :
    (m'.objects.map ObjNode.key).Nodup ∧ (m'.objects.map ObjNode.ptr).Nodup ∧
      ∀ n ∈ m'.objects, m'.heap n.ptr = .listed := by
  rcases h with ⟨ho, hh⟩ | ⟨n, -, hfree, hlacks, ho, hh⟩ | ⟨o, -, -, ho, hh⟩ | ⟨k, hp, ho, hh⟩ <;>
    rw [ho, hh]
  · exact ⟨hG.keys, hG.ptrs, hG.listed⟩
  -- a new node: its block was free and its key missing from the list
  · have hne : ∀ n' ∈ m.objects, n'.ptr ≠ n.ptr := by
      intro n' hn' heq
      have hlisted := hG.listed n' hn'
      rw [heq, hfree] at hlisted
      exact nomatch hlisted
    refine ⟨?_, ?_, fun n' hn' => ?_⟩
    · refine List.nodup_cons.mpr ⟨fun hmem => ?_, hG.keys⟩
      obtain ⟨n', hn', hkey⟩ := List.mem_map.mp hmem
      exact hlacks n' hn' hkey
    · refine List.nodup_cons.mpr ⟨fun hmem => ?_, hG.ptrs⟩
      obtain ⟨n', hn', hptr⟩ := List.mem_map.mp hmem
      exact hne n' hn' hptr
    · rcases List.mem_cons.mp hn' with rfl | hn'
      · exact Function.update_self ..
      · exact (Function.update_of_ne (hne n' hn') ..).trans (hG.listed n' hn')
  -- a removed node: the others are listed as before
  · have hsub : (a2iRemoveObject m.objects o).Sublist m.objects := List.eraseP_sublist
    refine ⟨hG.keys.sublist (hsub.map _), hG.ptrs.sublist (hsub.map _), fun n hn => ?_⟩
    have hlisted := hG.listed n (hsub.subset hn)
    rw [ObjMemory.remove]
    rcases hfind : a2iFindObjectLocked m.objects o with _ | n'
    · exact hlisted
    · obtain ⟨hmem, hkey⟩ := mem_of_a2iFindObjectLocked hfind
      have hne : n.ptr ≠ n'.ptr := fun hptr => key_ne_of_mem_remove hG.keys hn
        (List.inj_on_of_nodup_map hG.ptrs (hsub.subset hn) hmem hptr ▸ hkey)
      exact (Function.update_of_ne hne ..).trans hlisted
  -- a freed node: it was removed before, so the list does not have it
  · have hheld := hA.held k hp
    refine ⟨hG.keys, hG.ptrs, fun n hn => ?_⟩
    have hne : n.ptr ≠ k := by
      rintro rfl
      exact nomatch (hG.listed n hn).symm.trans hheld
    exact (Function.update_of_ne hne ..).trans (hG.listed n hn)

/-- What a step does to the events. -/
lemma ObjStep.trace_eq (h : ObjStep call i m p m' p') (hA : ObjAssertion call m i p) :
    (m'.trace = m.trace ∧ p ≠ .remove) ∨
      (∃ o, (call i).resets = some o ∧ m'.trace = .reset o :: m.trace) ∨
      ∃ l : List (ObjId × ℕ), (∀ op ∈ l, m.Has op.1 op.2) ∧ m'.objects = m.objects ∧
        m'.trace = (l.map fun op => .use i op.1 op.2) ++ m.trace := by
  cases h with
  | remove ho => exact Or.inr (Or.inl ⟨_, ho, rfl⟩)
  | @use c k l hl =>
    refine Or.inr (Or.inr ⟨l, fun op hop => ?_, rfl, rfl⟩)
    rcases mem_used hl hop with ⟨a, q, ha, rfl, rfl⟩ | ⟨a, q, ha, rfl, rfl⟩
    · exact hA.cond q rfl a ha
    · exact hA.mutex q rfl a ha
  | create => exact Or.inl ⟨(create_ghost m _ _).1, nofun⟩
  | getCond => exact Or.inl ⟨(a2iGetCond_spec _ _).ghost.1, nofun⟩
  | getMutex => exact Or.inl ⟨(a2iGetMutex_spec _ _).ghost.1, nofun⟩
  | _ => exact Or.inl ⟨rfl, nofun⟩

/-- What a step does to the calls in progress. -/
lemma ObjStep.active (h : ObjStep call i m p m' p') :
    (m'.active = m.active ∧ (p'.InProgress → p.InProgress)) ∨
      (m'.active = m.active \ {i} ∧ ¬ p'.InProgress) ∨
      m'.active = insert i m.active ∧ ∀ j ∈ m.active, ¬ (call i).Conflicts (call j) := by
  cases h with
  | enter _ hguard => exact Or.inr (Or.inr ⟨rfl, hguard⟩)
  | create => exact Or.inr (Or.inl ⟨congrArg (fun s : Set ι => s \ {i}) (create_ghost m _ _).2, id⟩)
  | storeDestroy | useMissing | hostReturns => exact Or.inr (Or.inl ⟨rfl, id⟩)
  | getCond => exact Or.inl ⟨(a2iGetCond_spec _ _).ghost.2, fun _ => trivial⟩
  | getMutex => exact Or.inl ⟨(a2iGetMutex_spec _ _).ghost.2, fun _ => trivial⟩
  | einval => exact Or.inl ⟨rfl, id⟩
  | _ => exact Or.inl ⟨rfl, fun _ => trivial⟩

lemma currentPtr_uses {l : List (ObjId × ℕ)} {trace : List (ObjEvent ι)} {k : ℕ}
    (h : currentPtr o ((l.map fun op => .use i op.1 op.2) ++ trace) = some k) :
    (o, k) ∈ l ∨ currentPtr o trace = some k := by
  induction l with
  | nil => exact Or.inr h
  | cons op l ih =>
    by_cases ho : op.1 = o
    · have hk : some op.2 = some k := (if_pos ho).symm.trans h
      obtain rfl := Option.some.inj hk
      exact Or.inl (ho ▸ List.mem_cons_self)
    · exact (ih ((if_neg ho).symm.trans h)).imp_left (List.mem_cons_of_mem _)

/-- Uses of the nodes in the list are consistent. -/
lemma RegistryInv.consistent_uses (hG : RegistryInv call m) {l : List (ObjId × ℕ)}
    (hl : ∀ op ∈ l, m.Has op.1 op.2) :
    Consistent ((l.map fun op => .use i op.1 op.2) ++ m.trace) := by
  induction l with
  | nil => exact hG.consistent
  | cons op l ih =>
    have hl' : ∀ op ∈ l, m.Has op.1 op.2 := fun op hop => hl op (List.mem_cons_of_mem _ hop)
    refine ⟨fun k hk => ?_, ih hl'⟩
    have hhas : m.Has op.1 k := by
      rcases currentPtr_uses hk with hmem | hk
      · exact hl' _ hmem
      · exact hG.current _ _ hk
    exact hG.ptr_eq hhas (hl op List.mem_cons_self)

/-- The invariant after a step. -/
lemma ObjStep.inv (h : ObjStep call i m p m' p') (hG : RegistryInv call m)
    (hA : ObjAssertion call m i p) : RegistryInv call m' := by
  have heffect := h.effect hA
  obtain ⟨hkeys, hptrs, hlisted⟩ := heffect.list hG hA
  have hcurrent : (∀ o, ∀ k ∈ currentPtr o m'.trace, m'.Has o k) ∧ Consistent m'.trace := by
    rcases h.trace_eq hA with ⟨htrace, hp⟩ | ⟨o, ho, htrace⟩ | ⟨l, hl, hobj, htrace⟩ <;> rw [htrace]
    · exact ⟨fun o k hk => heffect.has (hG.current o k hk) fun h => absurd h hp, hG.consistent⟩
    · refine ⟨fun o' k hk => ?_, hG.consistent⟩
      by_cases hoo : o = o'
      · exact nomatch (if_pos hoo).symm.trans hk
      · refine heffect.has (hG.current o' k ((if_neg hoo).symm.trans hk)) fun _ h => ?_
        exact hoo (Option.some.inj (ho.symm.trans h))
    · refine ⟨fun o k hk => ?_, hG.consistent_uses hl⟩
      rw [ObjMemory.Has, hobj]
      rcases currentPtr_uses hk with hmem | hk
      · exact hl _ hmem
      · exact hG.current o k hk
  refine ⟨hkeys, hptrs, hlisted, ?_, hcurrent.1, hcurrent.2⟩
  -- a call that starts conflicts with none in progress, and this is symmetric
  rcases h.active with ⟨hactive, -⟩ | ⟨hactive, -⟩ | ⟨hactive, hguard⟩ <;> rw [hactive]
  · exact hG.apart
  · exact fun j hj k hk => hG.apart j hj.1 k hk.1
  · have hsymm : ∀ j ∈ m.active, ¬ (call j).Conflicts (call i) := fun j hj ⟨o, ho⟩ =>
      hguard j hj ⟨o, ho.symm⟩
    rintro j (rfl | hj) k (rfl | hk) hjk
    · exact absurd rfl hjk
    · exact hguard k hk
    · exact hsymm j hj
    · exact hG.apart j hj k hk hjk

/-- Nothing is claimed of a call that is not in progress. -/
lemma ObjAssertion.of_not_inProgress (hp : ¬ p.InProgress) : ObjAssertion call m i p := by
  cases p with
  | start | returned =>
    refine ⟨hp.elim, fun h => ?_, nofun, nofun, nofun, nofun, nofun⟩
    rcases h with h | h
    · exact nomatch h
    · exact h.elim
  | _ => exact absurd trivial hp

/-- The assertion of the call after its own step. -/
lemma ObjStep.own (h : ObjStep call i m p m' p') (hG : RegistryInv call m)
    (hA : ObjAssertion call m i p) : ObjAssertion call m' i p' := by
  have heffect := h.effect hA
  -- the points that ask for an object to reset are `remove` and those behind it
  have hnever : ∀ p : ObjPoint, p ≠ .remove → ¬ p.AfterRemove →
      p = .remove ∨ p.AfterRemove → ∃ o, (call i).resets = some o := by
    rintro p h1 h2 (h | h)
    · exact absurd h h1
    · exact absurd h h2
  cases h with
  | einval | storeDestroy | create | useMissing | hostReturns => exact .of_not_inProgress id
  | enter =>
    rw [ObjCall.first]
    split
    · exact ⟨fun _ => Or.inl rfl, fun _ => Option.isSome_iff_exists.mp ‹_›, nofun, nofun, nofun,
        nofun, nofun⟩
    · split <;> exact ⟨fun _ => Or.inl rfl, hnever _ nofun id, nofun, nofun, nofun, nofun, nofun⟩
  -- the list has one node for a key, so none is left after `a2i_remove_object`
  | @remove o ho =>
    refine ⟨fun _ => hA.active trivial, fun _ => ⟨o, ho⟩, nofun, fun _ o' ho' n hn => ?_,
      fun k hk => ?_, nofun, nofun⟩
    · obtain rfl := Option.some.inj (ho.symm.trans ho')
      exact key_ne_of_mem_remove hG.keys hn
    · rw [ObjPoint.release.injEq, Option.map_eq_some_iff] at hk
      obtain ⟨n, hn, rfl⟩ := hk
      rw [ObjMemory.remove]
      dsimp only
      rw [hn]
      exact Function.update_self ..
  | releaseNone =>
    exact ⟨fun _ => hA.active trivial, fun _ => hA.resets (Or.inr trivial), nofun,
      fun _ => hA.gone trivial, nofun, nofun, nofun⟩
  | release =>
    exact ⟨fun _ => hA.active trivial, fun _ => hA.resets (Or.inr trivial), nofun,
      fun _ => hA.gone trivial, nofun, nofun, nofun⟩
  | storeInit hinit =>
    exact ⟨fun _ => hA.active trivial, fun _ => hA.resets (Or.inr trivial), fun _ => hinit,
      fun _ => hA.gone trivial, nofun, nofun, nofun⟩
  | @getCond block cond hc =>
    have hspec := a2iGetCond_spec (m := m) block cond
    have hactive : i ∈ (m.a2iGetCond block cond).2.active := hspec.ghost.2 ▸ hA.active trivial
    have hcond : ∀ k ∈ (m.a2iGetCond block cond).1, ∀ a, (call i).cond? = some a →
        (m.a2iGetCond block cond).2.Has ⟨a, .cond⟩ k := by
      intro k hk a ha
      obtain rfl := Option.some.inj (hc.symm.trans ha)
      exact hspec.has k hk
    split
    · exact ⟨fun _ => hactive, hnever _ nofun id, nofun, nofun, nofun, hcond, nofun⟩
    · exact ⟨fun _ => hactive, hnever _ nofun id, nofun, nofun, nofun, hcond, nofun⟩
  -- the condition variable found before is still in the list: this step only adds to it
  | @getMutex block c mutex hc =>
    have hspec := a2iGetMutex_spec (m := m) block mutex
    refine ⟨fun _ => hspec.ghost.2 ▸ hA.active trivial, hnever _ nofun id, nofun, nofun, nofun,
      fun k hk a ha => heffect.has (hA.cond k hk a ha) nofun, fun k hk a ha => ?_⟩
    obtain rfl := Option.some.inj (hc.symm.trans ha)
    exact hspec.has k hk
  | use => exact ⟨fun _ => hA.active trivial, hnever _ nofun id, nofun, nofun, nofun, nofun, nofun⟩

/-- A call that is not in progress leaves the list alone. -/
lemma ObjStep.objects_eq (h : ObjStep call i m p m' p') (hp : ¬ p.InProgress) :
    m'.objects = m.objects := by
  cases h with
  | einval | enter => rfl
  | _ => exact absurd trivial hp

/-- A block that another call has taken out stays with it. -/
lemma ObjEffect.held (h : ObjEffect call i m p m') (hG : RegistryInv call m)
    (hA : ObjAssertion call m i p) (hij : i ≠ j) {k : ℕ} (hk : m.heap k = .held j) :
    m'.heap k = .held j := by
  rcases h with ⟨-, hh⟩ | ⟨n, -, hfree, -, -, hh⟩ | ⟨o, -, -, -, hh⟩ | ⟨k', hp, -, hh⟩ <;> rw [hh]
  · exact hk
  · have hne : k ≠ n.ptr := by
      rintro rfl
      exact nomatch hfree.symm.trans hk
    exact (Function.update_of_ne hne ..).trans hk
  · rw [ObjMemory.remove]
    rcases hfind : a2iFindObjectLocked m.objects o with _ | n
    · exact hk
    · have hne : k ≠ n.ptr := by
        rintro rfl
        exact nomatch (hG.listed n (mem_of_a2iFindObjectLocked hfind).1).symm.trans hk
      exact (Function.update_of_ne hne ..).trans hk
  · have hne : k ≠ k' := by
      rintro rfl
      exact hij (Block.held.inj ((hA.held k hp).symm.trans hk))
    exact (Function.update_of_ne hne ..).trans hk

/-- The assertion of another call is kept: the two have no object in conflict. -/
lemma ObjStep.others (h : ObjStep call i m p m' p') (hij : i ≠ j) (hG : RegistryInv call m)
    (hAi : ObjAssertion call m i p) (hAj : ObjAssertion call m j q) :
    ObjAssertion call m' j q := by
  by_cases hq : q.InProgress
  swap
  · exact .of_not_inProgress hq
  have heffect := h.effect hAi
  have hjactive := hAj.active hq
  -- a call in progress has no conflict with this one
  have hapart : p.InProgress → ¬ (call i).Conflicts (call j) := fun hp =>
    hG.apart i (hAi.active hp) j hjactive hij
  have hhas : ∀ o k, (call j).Touches o → m.Has o k → m'.Has o k := by
    intro o k ho hk
    refine heffect.has hk fun hp hr => ?_
    exact hapart (by rw [hp]; trivial) ⟨o, Or.inl ⟨hr, ho⟩⟩
  refine ⟨fun _ => ?_, hAj.resets, hAj.init, fun hafter o ho => ?_, fun k hk => ?_,
    fun k hk a ha => hhas _ _ (Or.inr (Or.inr ⟨ha, rfl⟩)) (hAj.cond k hk a ha),
    fun k hk a ha => hhas _ _ (Or.inr (Or.inl ⟨ha, rfl⟩)) (hAj.mutex k hk a ha)⟩
  · rcases h.active with ⟨hactive, -⟩ | ⟨hactive, -⟩ | ⟨hactive, -⟩ <;> rw [hactive]
    · exact hjactive
    · exact ⟨hjactive, fun h => hij h.symm⟩
    · exact Or.inr hjactive
  · by_cases hp : p.InProgress
    · exact heffect.lacks (hAj.gone hafter o ho) fun h => hapart hp ⟨o, Or.inr ⟨ho, h⟩⟩
    · rw [ObjMemory.Lacks, h.objects_eq hp]
      exact hAj.gone hafter o ho
  · exact heffect.held hG hAi hij (hAj.held k hk)

/-- The invariant of the registry, and what every call knows. -/
lemma objOutline (call : ι → ObjCall) :
    (a2iPthread call).Outline (RegistryInv call) (ObjAssertion call) where
  own _ _ _ _ _ h hG hA := ⟨h.inv hG hA, h.own hG hA⟩
  others _ _ _ _ _ _ _ hij h hG hAi hAj := h.others hij hG hAi hAj
  env m m' h hG := by
    obtain ⟨storage, rfl⟩ := h
    exact ⟨⟨hG.keys, hG.ptrs, hG.listed, hG.apart, hG.current, hG.consistent⟩,
      fun _ _ hA => ⟨hA.active, hA.resets, hA.init, hA.gone, hA.held, hA.cond, hA.mutex⟩⟩

variable [DecidableEq ι] {storage : ℕ → ℕ} {c : Config ι (ObjMemory ι) ObjPoint}

/-- **One object, one host object.**  In every reachable state the registry has one node for an
address and a kind, and different nodes for different ones; and two operations on an object
with no initialization and no destruction of it between them use the same node, in whatever
order the calls run and whoever uses the object first. -/
theorem registry_one_host_object (h : (a2iPthread call).Reaches (objStart ι storage) c) :
    (c.memory.objects.map ObjNode.key).Nodup ∧ (c.memory.objects.map ObjNode.ptr).Nodup ∧
      ∀ (newer middle older : List (ObjEvent ι)) (i j : ι) (o : ObjId) (p q : ℕ),
        c.memory.trace = newer ++ .use j o q :: (middle ++ .use i o p :: older) →
          .reset o ∉ middle → p = q := by
  have hstart : RegistryInv call (objStart ι storage).memory :=
    ⟨List.nodup_nil, List.nodup_nil, nofun, nofun, nofun, trivial⟩
  obtain ⟨hG, -⟩ := (objOutline call).reaches h ⟨hstart, fun _ => .of_not_inProgress id⟩
  refine ⟨hG.keys, hG.ptrs, fun newer middle older i j o p q htrace hreset => ?_⟩
  have hcons := hG.consistent
  rw [htrace] at hcons
  exact hcons.ptr_eq hreset

end

/-! ### A run -/

/-- Two calls lock the mutex at 8. -/
def lockAt8 : Bool → ObjCall := fun _ => .mutexLock 8

theorem registry_one_host_object_race : ∃ c : Config Bool (ObjMemory Bool) ObjPoint,
    c.memory.trace = [.use true ⟨8, .mutex⟩ 16, .use false ⟨8, .mutex⟩ 16] ∧
      (c.memory.objects.map ObjNode.key).Nodup := by
  have hguard : ∀ i j, ¬ (lockAt8 i).Conflicts (lockAt8 j) := by
    rintro i j ⟨o, h | h⟩
    · exact nomatch h.1
    · exact nomatch h.1
  have hfree : ∀ p ∈ some 16, (objStart Bool fun _ => 0).memory.heap p = .free := fun _ _ => rfl
  have hnone : ∀ m : ObjMemory Bool, ∀ p ∈ (none : Option ℕ), m.heap p = .free := fun _ => nofun
  have hstart : (a2iPthread lockAt8).Reaches (objStart Bool fun _ => 0)
      (objStart Bool fun _ => 0) := .refl
  have hfirst := hstart.tail (.thread false (.enter id fun j _ => hguard false j))
  have hsecond := hfirst.tail (.thread true (.enter id fun j _ => hguard true j))
  have hmake := hsecond.tail (.thread false (.getMutex rfl hfree))
  have hfind := hmake.tail (.thread true (.getMutex rfl (hnone _)))
  have huse := hfind.tail (.thread false (.use rfl))
  have hboth := huse.tail (.thread true (.use rfl))
  exact ⟨_, rfl, (registry_one_host_object hboth).1⟩

end Apk2Ios
