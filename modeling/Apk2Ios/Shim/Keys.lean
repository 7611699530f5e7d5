import Mathlib.Algebra.GroupWithZero.Nat
import Mathlib.Data.Int.Notation
import Apk2Ios.Errors
import Apk2Ios.Lib.ThreadData

/-!
# The shim: thread-specific data

`a2i_pthread_key_create`, `a2i_pthread_key_delete`, `a2i_pthread_setspecific` and
`a2i_pthread_getspecific` of `pthread_compat.c`.  A key of Android is an index of a table of
256 host keys, and an index is used again after its key is deleted.
-/

namespace Apk2Ios

open Lib

/-! ### The host -/

/-- The keys of the host: the values, and the destructor of every key. -/
structure HostKeys (τ : Type*) where
  data : ThreadData ℕ τ ℕ
  destructor : ℕ → ℕ

namespace HostKeys

variable {τ : Type*} [DecidableEq τ] (host : HostKeys τ)

omit [DecidableEq τ] in
/-- `pthread_key_create`: the host answers with a key or refuses. -/
def pthreadKeyCreate (destructor : ℕ) : Except Errno ℕ → Except Errno ℕ × HostKeys τ
  | .error e => (.error e, host)
  | .ok hostKey =>
    (.ok hostKey,
      ⟨host.data.create hostKey, Function.update host.destructor hostKey destructor⟩)

omit [DecidableEq τ] in
/-- `pthread_key_delete`. -/
def pthreadKeyDelete (hostKey : ℕ) : Except Errno Unit × HostKeys τ :=
  if hostKey ∈ host.data.live then (.ok (), { host with data := host.data.delete hostKey })
  else (.error .EINVAL, host)

/-- `pthread_setspecific`, from the answer of the host for a live key. -/
def pthreadSetspecific (t : τ) (hostKey value : ℕ) (answer : Except Errno Unit) :
    Except Errno Unit × HostKeys τ :=
  if hostKey ∈ host.data.live then
    match answer with
    | .error e => (.error e, host)
    | .ok () => (.ok (), { host with data := host.data.set t hostKey value })
  else (.error .EINVAL, host)

end HostKeys

/-! ### The calls -/

/-- `a2i_key_entry`. -/
structure A2iKeyEntry where
  used : Bool
  hostKey : ℕ
deriving DecidableEq, Repr

/-- `A2I_MAX_KEYS`. -/
def a2iMaxKeys : ℕ := 256

/-- The table `g_keys`, and the keys of the host. -/
structure KeyState (τ : Type*) where
  gKeys : ℕ → A2iKeyEntry
  host : HostKeys τ

namespace KeyState

variable {τ : Type*} [DecidableEq τ] (s : KeyState τ)

/-- The table when the program starts. -/
def init (host : HostKeys τ) : KeyState τ := ⟨fun _ => ⟨false, 0⟩, host⟩

/-- `a2i_pthread_key_create`, from the answer of the host.  The result is what is stored at
`key_out`; the address 0 is `NULL`. -/
def a2iPthreadKeyCreate (keyOut destructor : ℕ) (answer : Except Errno ℕ) :
    Except Errno ℤ × KeyState τ :=
  if keyOut = 0 then (.error .EINVAL, s)
  else
    match (List.range a2iMaxKeys).find? fun i => !(s.gKeys i).used with
    | none => (.error .EAGAIN, s)
    | some i =>
      match s.host.pthreadKeyCreate destructor answer with
      | (.error rc, host) => (.error rc, { s with host := host })
      | (.ok hostKey, host) => (.ok i, ⟨Function.update s.gKeys i ⟨true, hostKey⟩, host⟩)

/-- `a2i_host_key`.  Its callers never pass `NULL`. -/
def a2iHostKey (key : ℤ) : Except Errno ℕ :=
  if key < 0 ∨ a2iMaxKeys ≤ key then .error .EINVAL
  else if (s.gKeys key.toNat).used then .ok (s.gKeys key.toNat).hostKey
  else .error .EINVAL

/-- `a2i_pthread_key_delete`. -/
def a2iPthreadKeyDelete (key : ℤ) : Except Errno Unit × KeyState τ :=
  if key < 0 ∨ a2iMaxKeys ≤ key then (.error .EINVAL, s)
  else if (s.gKeys key.toNat).used then
    match s.host.pthreadKeyDelete (s.gKeys key.toNat).hostKey with
    | (rc, host) =>
      (rc, ⟨Function.update s.gKeys key.toNat { s.gKeys key.toNat with used := false }, host⟩)
  else (.error .EINVAL, s)

/-- `a2i_pthread_getspecific`, called by the thread `t`. -/
def a2iPthreadGetspecific (t : τ) (key : ℤ) : ℕ :=
  match s.a2iHostKey key with
  | .error _ => 0
  | .ok hostKey => s.host.data.get t hostKey

/-- `a2i_pthread_setspecific`, called by the thread `t`. -/
def a2iPthreadSetspecific (t : τ) (key : ℤ) (value : ℕ) (answer : Except Errno Unit) :
    Except Errno Unit × KeyState τ :=
  match s.a2iHostKey key with
  | .error rc => (.error rc, s)
  | .ok hostKey =>
    match s.host.pthreadSetspecific t hostKey value answer with
    | (rc, host) => (rc, { s with host := host })

end KeyState

/-! ### Runs -/

/-- A call with what the host answers and what the call returns. -/
inductive KeyEvent (τ : Type*) where
  | create (keyOut destructor : ℕ) (answer : Except Errno ℕ) (rc : Except Errno ℤ)
  | delete (key : ℤ) (rc : Except Errno Unit)
  | setspecific (t : τ) (key : ℤ) (value : ℕ) (answer rc : Except Errno Unit)
  | getspecific (t : τ) (key : ℤ) (value : ℕ)

variable {τ : Type*} [DecidableEq τ]

/-- One call of one thread.  A key the host creates is not live on the host. -/
inductive KeyStep (s : KeyState τ) : KeyEvent τ → KeyState τ → Prop
  | create {keyOut destructor : ℕ} {answer : Except Errno ℕ} {rc : Except Errno ℤ}
      {s' : KeyState τ} (fresh : ∀ hostKey, answer = .ok hostKey → hostKey ∉ s.host.data.live)
      (call : s.a2iPthreadKeyCreate keyOut destructor answer = (rc, s')) :
      KeyStep s (.create keyOut destructor answer rc) s'
  | delete {key : ℤ} {rc : Except Errno Unit} {s' : KeyState τ}
      (call : s.a2iPthreadKeyDelete key = (rc, s')) : KeyStep s (.delete key rc) s'
  | setspecific {t : τ} {key : ℤ} {value : ℕ} {answer rc : Except Errno Unit} {s' : KeyState τ}
      (call : s.a2iPthreadSetspecific t key value answer = (rc, s')) :
      KeyStep s (.setspecific t key value answer rc) s'
  | getspecific {t : τ} {key : ℤ} {value : ℕ} (call : s.a2iPthreadGetspecific t key = value) :
      KeyStep s (.getspecific t key value) s

/-- The calls of a run, the newest first, from the empty table. -/
inductive KeyRun (host : HostKeys τ) : List (KeyEvent τ) → KeyState τ → Prop
  | start : KeyRun host [] (KeyState.init host)
  | call {h : List (KeyEvent τ)} {e : KeyEvent τ} {s s' : KeyState τ} :
      KeyRun host h s → KeyStep s e s' → KeyRun host (e :: h) s'

namespace KeyEvent

omit [DecidableEq τ] in
/-- What a call changes: nothing when it fails. -/
def access? : KeyEvent τ → Option (Access ℤ τ ℕ)
  | .create _ _ _ (.ok key) => some (.create key)
  | .delete key (.ok ()) => some (.delete key)
  | .setspecific t key value _ (.ok ()) => some (.set t key value)
  | _ => none

/-- The accesses of a run. -/
def accesses (h : List (KeyEvent τ)) : List (Access ℤ τ ℕ) := h.filterMap access?

def Failed : KeyEvent τ → Prop
  | .create _ _ _ rc => ∃ e, rc = .error e
  | .delete _ rc => ∃ e, rc = .error e
  | .setspecific _ _ _ _ rc => ∃ e, rc = .error e
  | .getspecific .. => False

/-- What the specification of the keys says of a call made after the accesses `h`. -/
def Meets (h : List (Access ℤ τ ℕ)) : KeyEvent τ → Prop
  | .create keyOut _ answer rc =>
    (∀ key, rc = .ok key → 0 ≤ key ∧ key < a2iMaxKeys ∧ ¬ Access.Live h key) ∧
    ∀ e, rc = .error e →
      keyOut = 0 ∧ e = .EINVAL ∨
      (∀ key : ℤ, 0 ≤ key → key < a2iMaxKeys → Access.Live h key) ∧ e = .EAGAIN ∨
      answer = .error e
  | .delete key rc =>
    (Access.Live h key → rc = .ok ()) ∧ (¬ Access.Live h key → rc = .error .EINVAL)
  | .setspecific _ key _ answer rc =>
    (Access.Live h key → rc = answer) ∧ (¬ Access.Live h key → rc = .error .EINVAL)
  | .getspecific t key value =>
    (Access.Live h key → value = Access.lastSet h t key) ∧ (¬ Access.Live h key → value = 0)

end KeyEvent

/-! ### What a call does -/

namespace KeyState

omit [DecidableEq τ]

/-- The host key of a live key. -/
def hostKey? (s : KeyState τ) (key : ℤ) : Option ℕ := (s.a2iHostKey key).toOption

variable {s s' : KeyState τ} {key : ℤ} {hostKey i : ℕ}

/-- The lookup fails in one way only. -/
lemma a2iHostKey_eq :
    s.a2iHostKey key =
      match s.hostKey? key with
      | none => .error .EINVAL
      | some hostKey => .ok hostKey := by
  rw [hostKey?, a2iHostKey]
  split
  · rfl
  · split <;> rfl

lemma hostKey?_of_range (h : key < 0 ∨ a2iMaxKeys ≤ key) : s.hostKey? key = none := by
  rw [hostKey?, a2iHostKey, if_pos h]
  rfl

lemma hostKey?_natCast (hi : i < a2iMaxKeys) :
    s.hostKey? i = if (s.gKeys i).used then some (s.gKeys i).hostKey else none := by
  rw [hostKey?, a2iHostKey, if_neg (by omega), Int.toNat_natCast]
  split <;> rfl

/-- A change of one entry of the table. -/
lemma hostKey?_update (hi : i < a2iMaxKeys) (entry : A2iKeyEntry) (host : HostKeys τ) :
    (⟨Function.update s.gKeys i entry, host⟩ : KeyState τ).hostKey? =
      Function.update s.hostKey? i (if entry.used then some entry.hostKey else none) := by
  funext key
  by_cases hrange : key < 0 ∨ a2iMaxKeys ≤ key
  · rw [Function.update_of_ne (by omega), hostKey?_of_range hrange, hostKey?_of_range hrange]
  · obtain ⟨j, rfl⟩ : ∃ j : ℕ, key = j := ⟨key.toNat, by omega⟩
    rw [hostKey?_natCast (by omega)]
    rcases eq_or_ne j i with rfl | hj
    · simp only [Function.update_self]
    · simp only [Function.update_of_ne hj]
      rw [Function.update_of_ne (by omega), hostKey?_natCast (by omega)]

/-- `a2i_pthread_key_create` takes an entry that is not used, or changes nothing. -/
lemma a2iPthreadKeyCreate_cases {keyOut destructor : ℕ} {answer : Except Errno ℕ}
    {rc : Except Errno ℤ} (call : s.a2iPthreadKeyCreate keyOut destructor answer = (rc, s')) :
    (∃ i < a2iMaxKeys, ∃ hostKey, s.hostKey? i = none ∧ answer = .ok hostKey ∧ rc = .ok i ∧
      s'.hostKey? = Function.update s.hostKey? i (some hostKey) ∧
      s'.host.data = s.host.data.create hostKey) ∨
    s' = s ∧ ∃ e, rc = .error e ∧
      (keyOut = 0 ∧ e = .EINVAL ∨
        (∀ i < a2iMaxKeys, (s.gKeys i).used) ∧ e = .EAGAIN ∨ answer = .error e) := by
  rw [a2iPthreadKeyCreate] at call
  split at call
  · rename_i hnull
    obtain ⟨rfl, rfl⟩ := Prod.mk.inj call
    exact Or.inr ⟨rfl, _, rfl, Or.inl ⟨hnull, rfl⟩⟩
  split at call
  · rename_i hfind
    obtain ⟨rfl, rfl⟩ := Prod.mk.inj call
    refine Or.inr ⟨rfl, _, rfl, Or.inr (Or.inl ⟨fun i hi => ?_, rfl⟩)⟩
    simpa using List.find?_eq_none.mp hfind i (List.mem_range.mpr hi)
  · rename_i i hfind
    have hi : i < a2iMaxKeys := List.mem_range.mp (List.mem_of_find?_eq_some hfind)
    have hunused : (s.gKeys i).used = false := by simpa using List.find?_some hfind
    -- a free entry is found; it is taken only when the host makes a key
    cases answer with
    | error e =>
      obtain ⟨rfl, rfl⟩ := Prod.mk.inj call
      exact Or.inr ⟨rfl, e, rfl, Or.inr (Or.inr rfl)⟩
    | ok hostKey =>
      obtain ⟨rfl, rfl⟩ := Prod.mk.inj call
      refine Or.inl ⟨i, hi, hostKey, ?_, rfl, rfl, hostKey?_update hi _ _, rfl⟩
      rw [hostKey?_natCast hi, hunused]
      rfl

/-- `a2i_pthread_key_delete` frees the entry of a live key, or changes nothing. -/
lemma a2iPthreadKeyDelete_cases {rc : Except Errno Unit}
    (call : s.a2iPthreadKeyDelete key = (rc, s')) :
    (∃ hostKey, s.hostKey? key = some hostKey ∧ rc = (s.host.pthreadKeyDelete hostKey).1 ∧
      s'.hostKey? = Function.update s.hostKey? key none ∧
      s'.host = (s.host.pthreadKeyDelete hostKey).2) ∨
    s.hostKey? key = none ∧ rc = .error .EINVAL ∧ s' = s := by
  rw [a2iPthreadKeyDelete] at call
  split at call
  · rename_i hrange
    obtain ⟨rfl, rfl⟩ := Prod.mk.inj call
    exact Or.inr ⟨hostKey?_of_range hrange, rfl, rfl⟩
  obtain ⟨i, rfl⟩ : ∃ i : ℕ, key = i := ⟨key.toNat, by omega⟩
  have hi : i < a2iMaxKeys := by omega
  rw [Int.toNat_natCast] at call
  split at call
  · rename_i hused
    obtain ⟨rfl, rfl⟩ := Prod.mk.inj call
    refine Or.inl ⟨(s.gKeys i).hostKey, ?_, rfl, hostKey?_update hi _ _, rfl⟩
    rw [hostKey?_natCast hi, if_pos hused]
  · rename_i hused
    obtain ⟨rfl, rfl⟩ := Prod.mk.inj call
    refine Or.inr ⟨?_, rfl, rfl⟩
    rw [hostKey?_natCast hi, if_neg hused]

end KeyState

/-! ### The table keeps the keys of Android in the host -/

open KeyEvent

/-- The table keeps the thread-specific data of a run in the host. -/
def KeyInv (h : List (KeyEvent τ)) (s : KeyState τ) : Prop :=
  ThreadData.Keeps s.hostKey? (ThreadData.after (accesses h)) s.host.data

namespace KeyInv

variable {host : HostKeys τ} {h : List (KeyEvent τ)} {e : KeyEvent τ} {s s' : KeyState τ}
variable {t : τ} {key : ℤ} {hostKey : ℕ}

lemma init : KeyInv [] (KeyState.init host) := by
  have hnone : (KeyState.init host).hostKey? = fun _ => none := by
    funext key
    rw [KeyState.hostKey?, KeyState.a2iHostKey]
    split <;> rfl
  rw [KeyInv, hnone]
  exact .empty

lemma live (hs : KeyInv h s) : Access.Live (accesses h) key ↔ (s.hostKey? key).isSome :=
  (ThreadData.mem_live_after _ _).symm.trans (ThreadData.Keeps.live hs key)

lemma live_of_some (hs : KeyInv h s) (hk : s.hostKey? key = some hostKey) :
    Access.Live (accesses h) key := hs.live.mpr (by rw [hk]; rfl)

lemma not_live_of_none (hs : KeyInv h s) (hk : s.hostKey? key = none) :
    ¬ Access.Live (accesses h) key := fun hlive => by simpa [hk] using hs.live.mp hlive

/-- The calls that change nothing. -/
lemma keep (hs : KeyInv h s) (he : e.access? = none) : KeyInv (e :: h) s := by
  rw [KeyInv, accesses, List.filterMap_cons_none he]
  exact hs

lemma create {keyOut destructor : ℕ} {answer : Except Errno ℕ} {rc : Except Errno ℤ}
    (hs : KeyInv h s) (fresh : ∀ hostKey, answer = .ok hostKey → hostKey ∉ s.host.data.live)
    (call : s.a2iPthreadKeyCreate keyOut destructor answer = (rc, s')) :
    KeyEvent.Meets (accesses h) (.create (τ := τ) keyOut destructor answer rc) ∧
      ((∃ e, rc = .error e) → s' = s) ∧ KeyInv (.create keyOut destructor answer rc :: h) s' := by
  rcases KeyState.a2iPthreadKeyCreate_cases call with
    ⟨i, hi, hostKey, hnone, rfl, rfl, hkeys, hdata⟩ | ⟨rfl, e, rfl, hwhy⟩
  · refine ⟨⟨fun key hkey => ?_, nofun⟩, nofun, ?_⟩
    · obtain rfl := Except.ok.inj hkey
      exact ⟨by omega, by omega, hs.not_live_of_none hnone⟩
    · rw [KeyInv, hkeys, hdata]
      exact ThreadData.Keeps.create hs (fresh hostKey rfl)
  · refine ⟨⟨nofun, fun e' he' => ?_⟩, fun _ => rfl, hs.keep rfl⟩
    obtain rfl := Except.error.inj he'
    rcases hwhy with hnull | ⟨hfull, rfl⟩ | hrefused
    · exact Or.inl hnull
    · refine Or.inr (Or.inl ⟨fun key h0 hmax => hs.live.mpr ?_, rfl⟩)
      obtain ⟨i, rfl⟩ := Int.eq_ofNat_of_zero_le h0
      rw [KeyState.hostKey?_natCast (by omega), if_pos (hfull i (by omega))]
      rfl
    · exact Or.inr (Or.inr hrefused)

lemma delete {rc : Except Errno Unit} (hs : KeyInv h s)
    (call : s.a2iPthreadKeyDelete key = (rc, s')) :
    KeyEvent.Meets (accesses h) (.delete (τ := τ) key rc) ∧
      ((∃ e, rc = .error e) → s' = s) ∧ KeyInv (.delete key rc :: h) s' := by
  rcases KeyState.a2iPthreadKeyDelete_cases call with
    ⟨hostKey, hsome, rfl, hkeys, hhost⟩ | ⟨hnone, rfl, rfl⟩
  · -- the host key of a live key is live, so the host deletes it
    have hlive : hostKey ∈ s.host.data.live := ThreadData.Keeps.mem hs key hostKey hsome
    rw [HostKeys.pthreadKeyDelete, if_pos hlive] at hhost ⊢
    refine ⟨⟨fun _ => rfl, fun hdead => absurd (hs.live_of_some hsome) hdead⟩, nofun, ?_⟩
    rw [KeyInv, hkeys, hhost]
    exact ThreadData.Keeps.delete hs hsome
  · exact ⟨⟨fun hlive => absurd hlive (hs.not_live_of_none hnone), fun _ => rfl⟩, fun _ => rfl,
      hs.keep rfl⟩

lemma setspecific {value : ℕ} {answer rc : Except Errno Unit} (hs : KeyInv h s)
    (call : s.a2iPthreadSetspecific t key value answer = (rc, s')) :
    KeyEvent.Meets (accesses h) (.setspecific t key value answer rc) ∧
      ((∃ e, rc = .error e) → s' = s) ∧ KeyInv (.setspecific t key value answer rc :: h) s' := by
  rw [KeyState.a2iPthreadSetspecific, KeyState.a2iHostKey_eq] at call
  cases hkey : s.hostKey? key with
  | none =>
    rw [hkey] at call
    obtain ⟨rfl, rfl⟩ := Prod.mk.inj call
    exact ⟨⟨fun hlive => absurd hlive (hs.not_live_of_none hkey), fun _ => rfl⟩, fun _ => rfl,
      hs.keep rfl⟩
  | some hostKey =>
    -- the host key of a used entry has not been deleted, so the host does not refuse it
    have hlive : hostKey ∈ s.host.data.live := ThreadData.Keeps.mem hs key hostKey hkey
    rw [hkey] at call
    dsimp only at call
    have hdead : ¬ Access.Live (accesses h) key → rc = .error .EINVAL := fun hdead =>
      absurd (hs.live_of_some hkey) hdead
    cases answer with
    | error e =>
      rw [HostKeys.pthreadSetspecific, if_pos hlive] at call
      obtain ⟨rfl, rfl⟩ := Prod.mk.inj call
      exact ⟨⟨fun _ => rfl, hdead⟩, fun _ => rfl, hs.keep rfl⟩
    | ok =>
      rw [HostKeys.pthreadSetspecific, if_pos hlive] at call
      obtain ⟨rfl, rfl⟩ := Prod.mk.inj call
      exact ⟨⟨fun _ => rfl, hdead⟩, nofun, ThreadData.Keeps.set hs hkey t value⟩

lemma getspecific (hs : KeyInv h s) :
    KeyEvent.Meets (accesses h) (.getspecific t key (s.a2iPthreadGetspecific t key)) := by
  rw [KeyState.a2iPthreadGetspecific, KeyState.a2iHostKey_eq]
  cases hkey : s.hostKey? key with
  | none =>
    exact ⟨fun hlive => absurd hlive (hs.not_live_of_none hkey), fun _ => rfl⟩
  | some hostKey =>
    have hlive := hs.live_of_some hkey
    refine ⟨fun _ => ?_, fun hdead => absurd hlive hdead⟩
    show s.host.data.get t hostKey = _
    rw [ThreadData.Keeps.get hs hkey t, ThreadData.get_after hlive]

/-- Every call meets its specification and keeps the invariant. -/
lemma step (hs : KeyInv h s) (hstep : KeyStep s e s') :
    e.Meets (accesses h) ∧ (e.Failed → s' = s) ∧ KeyInv (e :: h) s' := by
  cases hstep with
  | create fresh call => exact hs.create fresh call
  | delete call => exact hs.delete call
  | setspecific call => exact hs.setspecific call
  | getspecific call =>
    obtain rfl := call
    exact ⟨hs.getspecific, nofun, hs.keep rfl⟩

end KeyInv

lemma KeyRun.inv {host : HostKeys τ} {h : List (KeyEvent τ)} {s : KeyState τ}
    (hrun : KeyRun host h s) : KeyInv h s := by
  induction hrun with
  | start => exact .init
  | call _ hstep ih => exact (ih.step hstep).2.2

/-- **Thread-specific data.**  After any run of the calls, by any threads, the next call meets
the specification of the keys: on a live key `a2i_pthread_getspecific` returns what the thread
last set since the key was created, and on another one `NULL`; a key that is not live is
neither set nor deleted; a new key was not live, and is refused only for the address `NULL`,
a full table or by the host.  A call that fails changes nothing, and distinct live keys have
distinct live host keys. -/
theorem pthread_keys_meet {host : HostKeys τ} {h : List (KeyEvent τ)} {s : KeyState τ}
    (hrun : KeyRun host h s) :
    (∀ e s', KeyStep s e s' → e.Meets (accesses h) ∧ (e.Failed → s' = s)) ∧
    (∀ key, Access.Live (accesses h) key ↔
      ∃ hostKey ∈ s.host.data.live, s.a2iHostKey key = .ok hostKey) ∧
    ∀ key key' hostKey, s.a2iHostKey key = .ok hostKey → s.a2iHostKey key' = .ok hostKey →
      key = key' := by
  have hs : KeyInv h s := hrun.inv
  have hfound : ∀ {key hostKey}, s.a2iHostKey key = .ok hostKey →
      s.hostKey? key = some hostKey := by
    rintro key hostKey hk
    rw [KeyState.hostKey?, hk]
    rfl
  refine ⟨fun e s' hstep => ?_, fun key => ⟨fun hlive => ?_, ?_⟩, ?_⟩
  · obtain ⟨hmeets, hfailed, -⟩ := hs.step hstep
    exact ⟨hmeets, hfailed⟩
  · obtain ⟨hostKey, hk⟩ := Option.isSome_iff_exists.mp (hs.live.mp hlive)
    refine ⟨hostKey, ThreadData.Keeps.mem hs key hostKey hk, ?_⟩
    rw [KeyState.a2iHostKey_eq, hk]
  · rintro ⟨hostKey, -, hk⟩
    exact hs.live_of_some (hfound hk)
  · rintro key key' hostKey hk hk'
    exact ThreadData.Keeps.injective hs key key' hostKey (hfound hk) (hfound hk')

/-! ### A key that is used again -/

/-- A host without keys. -/
def noHostKeys : HostKeys Bool := ⟨.empty, fun _ => 0⟩

/-- A thread sets a value, and the key is deleted and created again. -/
def reusedHistory : List (KeyEvent Bool) :=
  [.create 1 0 (.ok 9) (.ok 0), .delete 0 (.ok ()), .setspecific true 0 5 (.ok ()) (.ok ()),
    .create 1 0 (.ok 7) (.ok 0)]

/-- The state after these calls. -/
def reusedKeys : KeyState Bool :=
  let s := ((KeyState.init noHostKeys).a2iPthreadKeyCreate 1 0 (.ok 7)).2
  let s := (s.a2iPthreadSetspecific true 0 5 (.ok ())).2
  let s := (s.a2iPthreadKeyDelete 0).2
  (s.a2iPthreadKeyCreate 1 0 (.ok 9)).2

lemma keyRun_reusedKeys : KeyRun noHostKeys reusedHistory reusedKeys :=
  .call (.call (.call (.call .start
    (.create (fun _ _ => Finset.notMem_empty _) rfl))
    (.setspecific rfl))
    (.delete rfl))
    (.create (fun hostKey h => by
      obtain rfl := Except.ok.inj h
      decide) rfl)

theorem pthread_keys_meet_reused :
    reusedKeys.a2iPthreadGetspecific true 0 = 0 ∧
      ∃ hostKey ∈ reusedKeys.host.data.live, reusedKeys.a2iHostKey 0 = .ok hostKey := by
  obtain ⟨hmeets, hlive, -⟩ := pthread_keys_meet keyRun_reusedKeys
  have hkey : Access.Live (accesses reusedHistory) 0 := Or.inl rfl
  refine ⟨(hmeets (.getspecific true 0 _) _ (.getspecific rfl)).1.1 hkey, (hlive 0).mp hkey⟩

/-- The address `NULL` is refused although the table and the host have room. -/
theorem pthread_key_create_refuses_null :
    ¬ ∀ (h : List (KeyEvent Bool)) (s s' : KeyState Bool) (keyOut destructor : ℕ)
        (answer : Except Errno ℕ) (e : Errno), KeyRun noHostKeys h s →
        KeyStep s (.create keyOut destructor answer (.error e)) s' →
        (∀ key : ℤ, 0 ≤ key → key < a2iMaxKeys → Access.Live (accesses h) key) ∨
          answer = .error e := by
  intro hclaim
  have hstep : KeyStep (KeyState.init noHostKeys) (.create 0 0 (.ok 7) (.error .EINVAL))
      (KeyState.init noHostKeys) := .create (fun _ _ => Finset.notMem_empty _) rfl
  rcases hclaim [] _ _ 0 0 (.ok 7) .EINVAL .start hstep with hfull | hrefused
  · exact hfull 0 le_rfl (by decide)
  · exact nomatch hrefused

end Apk2Ios
