import Mathlib.Data.Int.Notation
import Mathlib.Data.Finset.Insert
import Apk2Ios.Errors

/-!
# The shim: signals

`a2i_sigaction`, `a2i_signal` and the trampoline of `signal_compat.c`.  The table `g_actions`
keeps the action of every Android signal; the host keeps a disposition of its own, which is
the trampoline where the action is a handler.
-/

namespace Apk2Ios

/-! ### The host -/

/-- The signals of the host that stand for one of Android. -/
inductive HostSignal where
  | sighup | sigint | sigquit | sigill | sigtrap | sigabrt | sigbus | sigfpe | sigkill
  | sigusr1 | sigsegv | sigusr2 | sigpipe | sigalrm | sigterm | sigchld | sigcont | sigstop
  | sigtstp | sigttin | sigttou | sigurg | sigxcpu | sigxfsz | sigvtalrm | sigprof | sigwinch
  | sigio | sigsys
deriving DecidableEq, Repr

/-- The flags of an action. -/
inductive SaFlag where
  | nocldstop | nocldwait | siginfo | onstack | restart | nodefer | resethand
deriving DecidableEq, Repr

/-- The numbers of the host's `signal.h`: signals are positive and distinct, flags are bits of
their own. -/
structure HostHeader where
  sig : HostSignal → ℤ
  sig_pos : ∀ n, 0 < sig n
  sig_injective : Function.Injective sig
  sa : SaFlag → BitVec 32
  sa_ne_zero : ∀ f, sa f ≠ 0#32
  sa_disjoint : ∀ f g, f ≠ g → sa f &&& sa g = 0#32

/-- `SIG_DFL`, which is `NULL`. -/
def sigDfl : ℕ := 0

/-- `SIG_IGN`. -/
def sigIgn : ℕ := 1

/-- What the host does at a signal: `SIG_DFL` or `SIG_IGN`, or it calls the trampoline. -/
inductive HostHandler where
  | saHandler (handler : ℕ)
  | trampoline
deriving DecidableEq, Repr

/-- `struct sigaction` of the host. -/
structure HostAction where
  handler : HostHandler
  saMask : Finset ℤ
  saFlags : BitVec 32

/-- What is read of `siginfo_t`. -/
structure HostSiginfo where
  siErrno : ℤ
  siCode : ℤ
  siAddr : ℕ
deriving DecidableEq, Repr

/-! ### Actions of Android -/

/-- `a2i_android_sigaction`.  The handler and the restorer, which the shim only keeps, are
addresses. -/
structure A2iAndroidSigaction where
  saFlags : BitVec 32
  pad : BitVec 32
  handler : ℕ
  saMask : BitVec 64
  saRestorer : ℕ
deriving DecidableEq, Repr

/-- `a2i_siginfo`. -/
structure A2iSiginfo where
  siSigno : ℤ
  siErrno : ℤ
  siCode : ℤ
  siAddr : ℕ
deriving DecidableEq, Repr

/-- The `siginfo` a handler gets.  The pointer of the host may be `NULL`. -/
def A2iSiginfo.ofHost (androidSignal : ℤ) : Option HostSiginfo → A2iSiginfo
  | none => ⟨androidSignal, 0, 0, 0⟩
  | some i => ⟨androidSignal, i.siErrno, i.siCode, i.siAddr⟩

@[simp]
lemma A2iSiginfo.siSigno_ofHost (androidSignal : ℤ) (i : Option HostSiginfo) :
    (ofHost androidSignal i).siSigno = androidSignal := by
  cases i <;> rfl

/-- A call of a handler: with the number of the signal, and with a `siginfo` when the action
has `SA_SIGINFO`. -/
structure Invocation where
  handler : ℕ
  signo : ℤ
  info : Option A2iSiginfo
deriving DecidableEq, Repr

namespace A2iAndroidSigaction

/-- `SA_SIGINFO` is set. -/
def Siginfo (action : A2iAndroidSigaction) : Prop := action.saFlags &&& 0x00000004#32 ≠ 0#32

/-- `SA_RESETHAND` is set. -/
def Resethand (action : A2iAndroidSigaction) : Prop := action.saFlags &&& 0x80000000#32 ≠ 0#32

/-- The action is a handler. -/
def IsHandler (action : A2iAndroidSigaction) : Prop :=
  action.handler ≠ sigDfl ∧ action.handler ≠ sigIgn

instance (action : A2iAndroidSigaction) : Decidable action.Siginfo :=
  inferInstanceAs (Decidable (_ ≠ _))

instance (action : A2iAndroidSigaction) : Decidable action.Resethand :=
  inferInstanceAs (Decidable (_ ≠ _))

instance (action : A2iAndroidSigaction) : Decidable action.IsHandler :=
  inferInstanceAs (Decidable (_ ∧ _))

/-- The action of a signal that was never set. -/
def default : A2iAndroidSigaction := ⟨0, 0, sigDfl, 0, 0⟩

end A2iAndroidSigaction

/-! ### Translation of numbers -/

/-- The cases of `a2i_host_signal`. -/
def hostSignals : List (ℤ × HostSignal) :=
  [(1, .sighup), (2, .sigint), (3, .sigquit), (4, .sigill), (5, .sigtrap), (6, .sigabrt),
    (7, .sigbus), (8, .sigfpe), (9, .sigkill), (10, .sigusr1), (11, .sigsegv), (12, .sigusr2),
    (13, .sigpipe), (14, .sigalrm), (15, .sigterm), (17, .sigchld), (18, .sigcont),
    (19, .sigstop), (20, .sigtstp), (21, .sigttin), (22, .sigttou), (23, .sigurg),
    (24, .sigxcpu), (25, .sigxfsz), (26, .sigvtalrm), (27, .sigprof), (28, .sigwinch),
    (29, .sigio), (31, .sigsys)]

/-- The flags in the order of `a2i_host_flags`, with their bits on Android. -/
def androidFlags : List (BitVec 32 × SaFlag) :=
  [(0x00000001, .nocldstop), (0x00000002, .nocldwait), (0x00000004, .siginfo),
    (0x08000000, .onstack), (0x10000000, .restart), (0x40000000, .nodefer),
    (0x80000000, .resethand)]

namespace HostHeader

variable (H : HostHeader)

/-- `a2i_host_signal`. -/
def a2iHostSignal (androidSignal : ℤ) : ℤ :=
  match hostSignals.lookup androidSignal with
  | none => -1
  | some name => H.sig name

/-- `a2i_android_signal`. -/
def a2iAndroidSignal (hostSignal : ℤ) : ℤ :=
  match (List.range' 1 64).find? fun i : ℕ => H.a2iHostSignal i = hostSignal with
  | none => hostSignal
  | some i => i

/-- `a2i_to_host_sigset`. -/
def a2iToHostSigset (androidSet : BitVec 64) : Finset ℤ :=
  (List.range' 1 64).foldl (fun hostSet androidSignal =>
    if androidSet &&& (1#64 <<< (androidSignal - 1)) = 0#64 then hostSet
    else if 0 < H.a2iHostSignal androidSignal then
      insert (H.a2iHostSignal androidSignal) hostSet
    else hostSet) ∅

/-- `a2i_host_flags`. -/
def a2iHostFlags (flags : BitVec 32) : BitVec 32 :=
  androidFlags.foldl (fun hostFlags entry =>
    if flags &&& entry.1 ≠ 0#32 then hostFlags ||| H.sa entry.2 else hostFlags) 0#32

/-- What `a2i_sigaction` passes to the host. -/
def hostAction (action : A2iAndroidSigaction) : HostAction :=
  if action.handler = sigDfl ∨ action.handler = sigIgn then
    ⟨.saHandler action.handler, H.a2iToHostSigset action.saMask,
      H.a2iHostFlags action.saFlags &&& ~~~H.sa .siginfo⟩
  else
    ⟨.trampoline, H.a2iToHostSigset action.saMask,
      H.a2iHostFlags action.saFlags ||| H.sa .siginfo⟩

end HostHeader

/-! ### The calls -/

/-- The table `g_actions`, and the dispositions of the host. -/
structure SignalState where
  gActions : ℤ → A2iAndroidSigaction
  host : ℤ → HostAction

namespace SignalState

variable (H : HostHeader) (s : SignalState)

/-- The table when the program starts. -/
def init (host : ℤ → HostAction) : SignalState := ⟨fun _ => .default, host⟩

/-- `sigaction` of the host, from its answer. -/
def hostSigaction (hostSignal : ℤ) (action : HostAction) :
    Except Errno Unit → Except Errno Unit × SignalState
  | .error e => (.error e, s)
  | .ok () => (.ok (), { s with host := Function.update s.host hostSignal action })

/-- `a2i_sigaction`, from the answer of the host.  `oldAction` says that the pointer is not
`NULL`; the second result is what is stored there. -/
def a2iSigaction (androidSignal : ℤ) (newAction : Option A2iAndroidSigaction) (oldAction : Bool)
    (answer : Except Errno Unit) :
    Except Errno Unit × Option A2iAndroidSigaction × SignalState :=
  if H.a2iHostSignal androidSignal < 0 then (.error .EINVAL, none, s)
  else
    let old := if oldAction then some (s.gActions androidSignal) else none
    match newAction with
    | none => (.ok (), old, s)
    | some action =>
      let s := { s with gActions := Function.update s.gActions androidSignal action }
      let (rc, s) := s.hostSigaction (H.a2iHostSignal androidSignal) (H.hostAction action) answer
      (rc, old, s)

/-- `a2i_signal`.  An error is `SIG_ERR`. -/
def a2iSignal (androidSignal : ℤ) (handler : ℕ) (answer : Except Errno Unit) :
    Except Errno ℕ × SignalState :=
  match s.a2iSigaction H androidSignal (some ⟨0, 0, handler, 0, 0⟩) true answer with
  | (.error e, _, s) => (.error e, s)
  -- a call that succeeds has stored the old action
  | (.ok (), old, s) => (.ok (old.getD .default).handler, s)

/-- `a2i_signal_trampoline`: the handler it calls. -/
def a2iSignalTrampoline (hostSignal : ℤ) (hostInfo : Option HostSiginfo) : Option Invocation :=
  let androidSignal := H.a2iAndroidSignal hostSignal
  if androidSignal ≤ 0 ∨ 65 ≤ androidSignal then none
  else
    let action := s.gActions androidSignal
    if action.Siginfo then
      if action.handler ≠ 0 then
        some ⟨action.handler, androidSignal, some (.ofHost androidSignal hostInfo)⟩
      else none
    else if action.handler ≠ sigDfl ∧ action.handler ≠ sigIgn ∧ action.handler ≠ 0 then
      some ⟨action.handler, androidSignal, none⟩
    else none

/-- The host delivers a signal.  It calls a handler, and resets the disposition first when the
handler has the flag for that. -/
def deliver (hostSignal : ℤ) (hostInfo : Option HostSiginfo) : Option Invocation × SignalState :=
  match s.host hostSignal with
  | ⟨.saHandler _, _, _⟩ => (none, s)
  | ⟨.trampoline, saMask, saFlags⟩ =>
    (s.a2iSignalTrampoline H hostSignal hostInfo,
      if saFlags &&& H.sa .resethand ≠ 0#32 then
        { s with host := Function.update s.host hostSignal ⟨.saHandler sigDfl, saMask, saFlags⟩ }
      else s)

end SignalState

/-! ### Runs -/

/-- A call with the answer of the host and what it returns, or a delivery with the handler it
runs. -/
inductive SignalEvent where
  | sigaction (signo : ℤ) (newAction : Option A2iAndroidSigaction) (oldAction : Bool)
      (answer rc : Except Errno Unit) (old : Option A2iAndroidSigaction)
  | signal (signo : ℤ) (handler : ℕ) (answer : Except Errno Unit) (result : Except Errno ℕ)
  | deliver (hostSignal : ℤ) (hostInfo : Option HostSiginfo) (invoked : Option Invocation)

variable (H : HostHeader)

inductive SignalStep (s : SignalState) : SignalEvent → SignalState → Prop
  | sigaction {signo : ℤ} {newAction : Option A2iAndroidSigaction} {oldAction : Bool}
      {answer rc : Except Errno Unit} {old : Option A2iAndroidSigaction} {s' : SignalState}
      (call : s.a2iSigaction H signo newAction oldAction answer = (rc, old, s')) :
      SignalStep s (.sigaction signo newAction oldAction answer rc old) s'
  | signal {signo : ℤ} {handler : ℕ} {answer : Except Errno Unit} {result : Except Errno ℕ}
      {s' : SignalState} (call : s.a2iSignal H signo handler answer = (result, s')) :
      SignalStep s (.signal signo handler answer result) s'
  | deliver {hostSignal : ℤ} {hostInfo : Option HostSiginfo} {invoked : Option Invocation}
      {s' : SignalState} (call : s.deliver H hostSignal hostInfo = (invoked, s')) :
      SignalStep s (.deliver hostSignal hostInfo invoked) s'

/-- The events of a run, the newest first, in which every step has the property `P`. -/
inductive SignalRun (P : List SignalEvent → SignalState → SignalEvent → SignalState → Prop)
    (s₀ : SignalState) : List SignalEvent → SignalState → Prop
  | start : SignalRun P s₀ [] s₀
  | step {h : List SignalEvent} {e : SignalEvent} {s s' : SignalState} :
      SignalRun P s₀ h s → SignalStep H s e s' → P h s e s' → SignalRun P s₀ (e :: h) s'

namespace SignalEvent

/-- The action a call has installed. -/
def installed? : SignalEvent → Option (ℤ × A2iAndroidSigaction)
  | .sigaction signo (some action) _ _ (.ok ()) _ => some (signo, action)
  | .signal signo handler _ (.ok _) => some (signo, ⟨0, 0, handler, 0, 0⟩)
  | _ => none

/-- The action of an Android signal after a history: the one last installed, or the default
once a delivery has reset it. -/
def current : List SignalEvent → ℤ → A2iAndroidSigaction
  | [], _ => .default
  | .deliver hostSignal _ _ :: h, signo =>
    if H.a2iHostSignal signo = hostSignal ∧ (current h signo).IsHandler ∧
        (current h signo).Resethand then .default
    else current h signo
  | e :: h, signo =>
    match e.installed? with
    | some (signo', action) => if signo' = signo then action else current h signo
    | none => current h signo

/-- What a POSIX host promises of a step from `s` to `s'`, after the history `h`: a call that
fails changes no recorded action, a call that succeeds reports the current action, and a
delivery runs the current handler. -/
def Meets (h : List SignalEvent) (s : SignalState) (e : SignalEvent) (s' : SignalState) : Prop :=
  match e with
  | .sigaction signo _ _ _ rc old =>
    ((∃ e, rc = .error e) → s'.gActions = s.gActions) ∧
      (rc = .ok () → ∀ action ∈ old, action = current H h signo)
  | .signal signo _ _ result =>
    ((∃ e, result = .error e) → s'.gActions = s.gActions) ∧
      ∀ handler, result = .ok handler → handler = (current H h signo).handler
  | .deliver hostSignal _ invoked =>
    ∀ signo, 0 ≤ H.a2iHostSignal signo → H.a2iHostSignal signo = hostSignal →
      (invoked.isSome ↔ (current H h signo).IsHandler) ∧
      ∀ i ∈ invoked, i.handler = (current H h signo).handler ∧ i.signo = signo ∧
        i.info.map (·.siSigno) = if (current H h signo).Siginfo then some signo else none

end SignalEvent

/-- The host has reset the recorded handler. -/
def SignalState.Reset (s : SignalState) (signo : ℤ) : Prop :=
  (s.gActions signo).IsHandler ∧ (s.host (H.a2iHostSignal signo)).handler ≠ .trampoline

/-- A call keeps the table in step: when the host refuses the new action, it is the recorded
one, and a call that is going to succeed does not ask for a handler the host has reset. -/
def SignalState.CallInStep (s : SignalState) (signo : ℤ)
    (newAction : Option A2iAndroidSigaction) (oldAction : Bool) (answer : Except Errno Unit) :
    Prop :=
  0 ≤ H.a2iHostSignal signo →
    (∀ action e, newAction = some action → answer = .error e → action = s.gActions signo) ∧
    (oldAction = true → newAction = none ∨ answer = .ok () → ¬ s.Reset H signo)

def SignalEvent.InStep (_ : List SignalEvent) (s : SignalState) (e : SignalEvent)
    (_ : SignalState) : Prop :=
  match e with
  | .sigaction signo newAction oldAction answer _ _ =>
    s.CallInStep H signo newAction oldAction answer
  | .signal signo handler answer _ => s.CallInStep H signo (some ⟨0, 0, handler, 0, 0⟩) true answer
  | .deliver .. => True

/-! ### The numbers are translated both ways -/

namespace HostHeader

variable {H} {signo signo' : ℤ}

lemma lookup_inj {name : HostSignal} (h : hostSignals.lookup signo = some name)
    (h' : hostSignals.lookup signo' = some name) : signo = signo' := by
  obtain ⟨l, r, hl, -⟩ := List.lookup_eq_some_iff.mp h
  obtain ⟨l', r', hl', -⟩ := List.lookup_eq_some_iff.mp h'
  have hmem : (signo, name) ∈ hostSignals := by rw [hl]; simp
  have hmem' : (signo', name) ∈ hostSignals := by rw [hl']; simp
  have hnodup : (hostSignals.map Prod.snd).Nodup := by decide
  exact congrArg Prod.fst (List.inj_on_of_nodup_map hnodup hmem hmem' rfl)

/-- A signal with a host number is one of the table. -/
lemma a2iHostSignal_nonneg (h : 0 ≤ H.a2iHostSignal signo) :
    ∃ name, hostSignals.lookup signo = some name ∧ H.a2iHostSignal signo = H.sig name := by
  cases hname : hostSignals.lookup signo with
  | none =>
    rw [a2iHostSignal, hname] at h
    exact absurd h (show ¬ (0 : ℤ) ≤ -1 by decide)
  | some name => exact ⟨name, rfl, by rw [a2iHostSignal, hname]⟩

lemma a2iHostSignal_inj (h : 0 ≤ H.a2iHostSignal signo)
    (heq : H.a2iHostSignal signo = H.a2iHostSignal signo') : signo = signo' := by
  obtain ⟨name, hname, hsig⟩ := a2iHostSignal_nonneg h
  obtain ⟨name', hname', hsig'⟩ := a2iHostSignal_nonneg (heq ▸ h)
  obtain rfl := H.sig_injective (hsig.symm.trans (heq.trans hsig'))
  exact lookup_inj hname hname'

/-- The table `g_actions` is never left. -/
lemma mem_range_of_a2iHostSignal (h : 0 ≤ H.a2iHostSignal signo) : 0 < signo ∧ signo < 65 := by
  obtain ⟨name, hname, -⟩ := a2iHostSignal_nonneg h
  obtain ⟨l, r, hl, -⟩ := List.lookup_eq_some_iff.mp hname
  have hmem : (signo, name) ∈ hostSignals := by rw [hl]; simp
  have hrange : ∀ entry ∈ hostSignals, 0 < entry.1 ∧ entry.1 < 65 := by decide
  exact hrange _ hmem

lemma a2iAndroidSignal_a2iHostSignal (h : 0 ≤ H.a2iHostSignal signo) :
    H.a2iAndroidSignal (H.a2iHostSignal signo) = signo := by
  obtain ⟨hpos, hlt⟩ := mem_range_of_a2iHostSignal h
  obtain ⟨i, rfl⟩ := Int.eq_ofNat_of_zero_le hpos.le
  have hmem : i ∈ List.range' 1 64 := List.mem_range'_1.mpr (by omega)
  rw [a2iAndroidSignal]
  cases hfind : (List.range' 1 64).find? fun j : ℕ => H.a2iHostSignal j = H.a2iHostSignal i with
  | none => exact absurd (List.find?_eq_none.mp hfind i hmem) (by simp)
  | some j =>
    have hj : H.a2iHostSignal j = H.a2iHostSignal i := by simpa using List.find?_some hfind
    exact a2iHostSignal_inj (hj ▸ h) hj

/-- A flag among others on the host. -/
lemma or_and_sa (hostFlags : BitVec 32) (flag flag' : SaFlag) :
    (hostFlags ||| H.sa flag') &&& H.sa flag ≠ 0#32 ↔
      hostFlags &&& H.sa flag ≠ 0#32 ∨ flag' = flag := by
  rw [BitVec.and_or_distrib_right, ne_eq, BitVec.or_eq_zero_iff]
  by_cases hflag : flag' = flag
  · subst hflag
    simp [H.sa_ne_zero]
  · simp [H.sa_disjoint flag' flag hflag, hflag]

/-- The flags that are set on the host are those set on Android. -/
lemma foldl_and_sa (flag : SaFlag) (flags : BitVec 32) (l : List (BitVec 32 × SaFlag)) :
    ∀ hostFlags, l.foldl (fun hostFlags entry =>
        if flags &&& entry.1 ≠ 0#32 then hostFlags ||| H.sa entry.2 else hostFlags) hostFlags &&&
          H.sa flag ≠ 0#32 ↔
      hostFlags &&& H.sa flag ≠ 0#32 ∨
        ∃ entry ∈ l, entry.2 = flag ∧ flags &&& entry.1 ≠ 0#32 := by
  induction l with
  | nil => simp
  | cons entry l ih =>
    intro hostFlags
    rw [List.foldl_cons, ih, List.exists_mem_cons_iff]
    by_cases hbit : flags &&& entry.1 = 0#32
    · simp [hbit]
    · rw [if_pos hbit, or_and_sa, or_assoc]
      simp [hbit]

lemma a2iHostFlags_resethand (action : A2iAndroidSigaction) :
    H.a2iHostFlags action.saFlags &&& H.sa .resethand ≠ 0#32 ↔ action.Resethand := by
  rw [a2iHostFlags, foldl_and_sa]
  simp [androidFlags, A2iAndroidSigaction.Resethand]

lemma hostAction_handler (action : A2iAndroidSigaction) :
    (H.hostAction action).handler = .trampoline ↔ action.IsHandler := by
  rw [hostAction, A2iAndroidSigaction.IsHandler, ← not_or]
  split
  · rename_i h
    exact iff_of_false nofun fun hn => hn h
  · rename_i h
    exact iff_of_true rfl h

lemma hostAction_resethand {action : A2iAndroidSigaction} (h : action.IsHandler) :
    (H.hostAction action).saFlags &&& H.sa .resethand ≠ 0#32 ↔ action.Resethand := by
  rw [A2iAndroidSigaction.IsHandler, ← not_or] at h
  rw [hostAction, if_neg h, or_and_sa, a2iHostFlags_resethand]
  simp

end HostHeader

/-! ### The table follows the host -/

/-- The recorded action of a signal, the current one, and the disposition of the host: the
host calls the trampoline for the recorded handler, or it has reset it. -/
structure Follows (recorded current : A2iAndroidSigaction) (d : HostAction) : Prop where
  handler : d.handler = .trampoline →
    recorded.IsHandler ∧ (d.saFlags &&& H.sa .resethand ≠ 0#32 ↔ recorded.Resethand)
  current : current =
    if recorded.IsHandler ∧ d.handler ≠ .trampoline then .default else recorded

/-- The table follows the host at every signal. -/
def SignalInv (h : List SignalEvent) (s : SignalState) : Prop :=
  ∀ signo, 0 ≤ H.a2iHostSignal signo →
    Follows H (s.gActions signo) (SignalEvent.current H h signo)
      (s.host (H.a2iHostSignal signo))

variable {H} {h : List SignalEvent} {e : SignalEvent} {s s' : SignalState} {signo : ℤ}

lemma not_isHandler_default : ¬ A2iAndroidSigaction.default.IsHandler := fun h => h.1 rfl

/-- An action the host has accepted. -/
lemma follows_hostAction (action : A2iAndroidSigaction) :
    Follows H action action (H.hostAction action) := by
  refine ⟨fun ht => ?_, ?_⟩
  · have hhandler := (HostHeader.hostAction_handler action).mp ht
    exact ⟨hhandler, HostHeader.hostAction_resethand hhandler⟩
  · rw [if_neg]
    rintro ⟨hhandler, ht⟩
    exact ht ((HostHeader.hostAction_handler action).mpr hhandler)

lemma signalInv_init {host : ℤ → HostAction} (hhost : ∀ n, (host n).handler ≠ .trampoline) :
    SignalInv H [] (SignalState.init host) := by
  refine fun signo _ => ⟨fun ht => absurd ht (hhost _), ?_⟩
  exact (if_neg fun h => not_isHandler_default h.1).symm

lemma SignalInv.current_of_reset (hs : SignalInv H h s) (hn : 0 ≤ H.a2iHostSignal signo)
    (hr : s.Reset H signo) : SignalEvent.current H h signo = .default :=
  (hs signo hn).current.trans (if_pos hr)

lemma SignalInv.current_of_not_reset (hs : SignalInv H h s) (hn : 0 ≤ H.a2iHostSignal signo)
    (hr : ¬ s.Reset H signo) : SignalEvent.current H h signo = s.gActions signo :=
  (hs signo hn).current.trans (if_neg hr)

/-- The recorded handler is the current one unless the host has reset it. -/
lemma SignalInv.handler_eq_iff (hs : SignalInv H h s) (hn : 0 ≤ H.a2iHostSignal signo) :
    (s.gActions signo).handler = (SignalEvent.current H h signo).handler ↔
      ¬ s.Reset H signo := by
  refine ⟨fun heq hr => ?_, fun hr => by rw [hs.current_of_not_reset hn hr]⟩
  rw [hs.current_of_reset hn hr] at heq
  exact hr.1.1 heq

lemma SignalInv.action_eq_iff (hs : SignalInv H h s) (hn : 0 ≤ H.a2iHostSignal signo) :
    s.gActions signo = SignalEvent.current H h signo ↔ ¬ s.Reset H signo :=
  ⟨fun heq => (hs.handler_eq_iff hn).mp (congrArg _ heq),
    fun hr => (hs.current_of_not_reset hn hr).symm⟩

/-- The old action that a call returns is the current one, when it returns one. -/
lemma SignalInv.oldAction_eq_iff (hs : SignalInv H h s) (hn : 0 ≤ H.a2iHostSignal signo)
    (oldAction : Bool) :
    (∀ action ∈ (if oldAction then some (s.gActions signo) else none),
      action = SignalEvent.current H h signo) ↔ (oldAction = true → ¬ s.Reset H signo) := by
  rw [← hs.action_eq_iff hn]
  cases oldAction <;> simp

/-! ### What a step does -/

namespace SignalEvent

lemma current_of_installed {action : A2iAndroidSigaction}
    (he : e.installed? = some (signo, action)) (signo' : ℤ) :
    current H (e :: h) signo' = if signo = signo' then action else current H h signo' := by
  cases e with
  | deliver => exact nomatch he
  | sigaction | signal => simp only [current, he]

lemma current_of_call (he : e.installed? = none) (hcall : ∀ n i v, e ≠ .deliver n i v) :
    current H (e :: h) = current H h := by
  funext signo
  cases e with
  | deliver n i v => exact absurd rfl (hcall n i v)
  | sigaction | signal => simp only [current, he]

end SignalEvent

/-- The host has accepted the action of a call. -/
lemma SignalInv.install {action : A2iAndroidSigaction} (hs : SignalInv H h s)
    (hn : 0 ≤ H.a2iHostSignal signo) (he : e.installed? = some (signo, action)) :
    SignalInv H (e :: h)
      ⟨Function.update s.gActions signo action,
        Function.update s.host (H.a2iHostSignal signo) (H.hostAction action)⟩ := by
  intro signo' hn'
  dsimp only
  rw [SignalEvent.current_of_installed he]
  rcases eq_or_ne signo' signo with rfl | hne
  · rw [Function.update_self, Function.update_self, if_pos rfl]
    exact follows_hostAction action
  · have hhost : H.a2iHostSignal signo' ≠ H.a2iHostSignal signo := fun heq =>
      hne (HostHeader.a2iHostSignal_inj hn' heq)
    rw [Function.update_of_ne hne, Function.update_of_ne hhost, if_neg hne.symm]
    exact hs signo' hn'

/-- A call that installs nothing. -/
lemma SignalInv.keep (hs : SignalInv H h s) (he : e.installed? = none)
    (hcall : ∀ n i v, e ≠ .deliver n i v) : SignalInv H (e :: h) s := by
  rw [SignalInv, SignalEvent.current_of_call he hcall]
  exact hs

/-- `a2i_sigaction` on every path. -/
lemma SignalState.a2iSigaction_cases {newAction : Option A2iAndroidSigaction} {oldAction : Bool}
    {answer rc : Except Errno Unit} {old : Option A2iAndroidSigaction}
    (call : s.a2iSigaction H signo newAction oldAction answer = (rc, old, s')) :
    (H.a2iHostSignal signo < 0 ∧ rc = .error .EINVAL ∧ s' = s) ∨
    0 ≤ H.a2iHostSignal signo ∧ (old = if oldAction then some (s.gActions signo) else none) ∧
      (newAction = none ∧ rc = .ok () ∧ s' = s ∨
        ∃ action, newAction = some action ∧ rc = answer ∧
          ((∃ e, answer = .error e) ∧
              s' = { s with gActions := Function.update s.gActions signo action } ∨
            answer = .ok () ∧
              s' = ⟨Function.update s.gActions signo action,
                Function.update s.host (H.a2iHostSignal signo) (H.hostAction action)⟩)) := by
  rw [a2iSigaction] at call
  split at call
  · rename_i hneg
    obtain ⟨rfl, hrest⟩ := Prod.mk.inj call
    exact Or.inl ⟨hneg, rfl, (Prod.mk.inj hrest).2.symm⟩
  rename_i hn
  refine Or.inr ⟨Int.not_lt.mp hn, ?_⟩
  cases newAction with
  | none =>
    obtain ⟨rfl, hrest⟩ := Prod.mk.inj call
    obtain ⟨rfl, rfl⟩ := Prod.mk.inj hrest
    exact ⟨rfl, Or.inl ⟨rfl, rfl, rfl⟩⟩
  | some action =>
    cases answer with
    | error e =>
      obtain ⟨rfl, hrest⟩ := Prod.mk.inj call
      obtain ⟨rfl, rfl⟩ := Prod.mk.inj hrest
      exact ⟨rfl, Or.inr ⟨action, rfl, rfl, Or.inl ⟨⟨e, rfl⟩, rfl⟩⟩⟩
    | ok =>
      obtain ⟨rfl, hrest⟩ := Prod.mk.inj call
      obtain ⟨rfl, rfl⟩ := Prod.mk.inj hrest
      exact ⟨rfl, Or.inr ⟨action, rfl, rfl, Or.inr ⟨rfl, rfl⟩⟩⟩

/-- A call keeps its promises exactly when it is in step. -/
lemma SignalInv.callInStep_iff {newAction : Option A2iAndroidSigaction} {oldAction : Bool}
    {answer rc : Except Errno Unit} {old : Option A2iAndroidSigaction} (hs : SignalInv H h s)
    (call : s.a2iSigaction H signo newAction oldAction answer = (rc, old, s')) :
    s.CallInStep H signo newAction oldAction answer ↔
      ((∃ e, rc = .error e) → s'.gActions = s.gActions) ∧
        (rc = .ok () → ∀ action ∈ old, action = SignalEvent.current H h signo) := by
  -- a bad number, a plain query, an action that the host refuses, one that it takes
  rcases SignalState.a2iSigaction_cases call with
    ⟨hneg, rfl, rfl⟩ | ⟨hn, rfl, ⟨rfl, rfl, rfl⟩ | ⟨action, rfl, rfl, ⟨⟨e, rfl⟩, rfl⟩ | ⟨rfl, rfl⟩⟩⟩
  · exact iff_of_true (fun hn => absurd hneg (Int.not_lt.mpr hn)) ⟨fun _ => rfl, nofun⟩
  · have hold := hs.oldAction_eq_iff hn oldAction
    constructor
    · intro hin
      exact ⟨nofun, fun _ => hold.mpr fun ho => (hin hn).2 ho (Or.inl rfl)⟩
    · rintro ⟨-, hcurrent⟩ -
      exact ⟨nofun, fun ho _ => hold.mp (hcurrent rfl) ho⟩
  · constructor
    · intro hin
      refine ⟨fun _ => ?_, nofun⟩
      rw [(hin hn).1 action e rfl rfl]
      exact Function.update_eq_self signo s.gActions
    · rintro ⟨hsame, -⟩ -
      refine ⟨fun action' e' ha _ => ?_, fun _ h => ?_⟩
      · obtain rfl := Option.some.inj ha
        exact Function.update_eq_self_iff.mp (hsame ⟨e, rfl⟩)
      · rcases h with h | h <;> exact nomatch h
  · have hold := hs.oldAction_eq_iff hn oldAction
    constructor
    · intro hin
      exact ⟨nofun, fun _ => hold.mpr fun ho => (hin hn).2 ho (Or.inr rfl)⟩
    · rintro ⟨-, hcurrent⟩ -
      exact ⟨nofun, fun ho _ => hold.mp (hcurrent rfl) ho⟩

/-- A call that changes no recorded action when it fails keeps the table in step. -/
lemma SignalInv.call {newAction : Option A2iAndroidSigaction} {oldAction : Bool}
    {answer rc : Except Errno Unit} {old : Option A2iAndroidSigaction} (hs : SignalInv H h s)
    (call : s.a2iSigaction H signo newAction oldAction answer = (rc, old, s'))
    (hfails : (∃ e, rc = .error e) → s'.gActions = s.gActions)
    (hcall : ∀ n i v, e ≠ .deliver n i v)
    (hinstalls : ∀ action, newAction = some action → rc = .ok () →
      e.installed? = some (signo, action))
    (hkeeps : newAction = none ∨ (∃ e, rc = .error e) → e.installed? = none) :
    SignalInv H (e :: h) s' := by
  rcases SignalState.a2iSigaction_cases call with
    ⟨hneg, rfl, rfl⟩ | ⟨hn, -, ⟨rfl, rfl, rfl⟩ | ⟨action, rfl, rfl, ⟨herror, rfl⟩ | ⟨rfl, rfl⟩⟩⟩
  · exact hs.keep (hkeeps (Or.inr ⟨_, rfl⟩)) hcall
  · exact hs.keep (hkeeps (Or.inl rfl)) hcall
  · -- the host has refused an action that is the recorded one
    have hsame : Function.update s.gActions signo action = s.gActions := hfails herror
    rw [hsame]
    exact hs.keep (hkeeps (Or.inr herror)) hcall
  · exact hs.install hn (hinstalls action rfl rfl)

/-- `a2i_signal` is a call of `a2i_sigaction`. -/
lemma SignalState.a2iSignal_cases {handler : ℕ} {answer : Except Errno Unit}
    {result : Except Errno ℕ} (call : s.a2iSignal H signo handler answer = (result, s')) :
    ∃ rc old, s.a2iSigaction H signo (some ⟨0, 0, handler, 0, 0⟩) true answer = (rc, old, s') ∧
      result = rc.map fun _ => (s.gActions signo).handler := by
  rw [a2iSignal] at call
  split at call
  · rename_i e old s₁ hcall
    obtain ⟨rfl, rfl⟩ := Prod.mk.inj call
    exact ⟨_, _, hcall, rfl⟩
  · rename_i old s₁ hcall
    obtain ⟨rfl, rfl⟩ := Prod.mk.inj call
    refine ⟨_, _, hcall, ?_⟩
    rcases a2iSigaction_cases hcall with ⟨-, hrc, -⟩ | ⟨-, rfl, -⟩
    · exact nomatch hrc
    · rfl

/-- The trampoline calls the recorded handler with the number of Android. -/
lemma SignalState.a2iSignalTrampoline_spec (hn : 0 ≤ H.a2iHostSignal signo)
    (hhandler : (s.gActions signo).IsHandler) (hostInfo : Option HostSiginfo) :
    ∃ i, s.a2iSignalTrampoline H (H.a2iHostSignal signo) hostInfo = some i ∧
      i.handler = (s.gActions signo).handler ∧ i.signo = signo ∧
      i.info.map (·.siSigno) = if (s.gActions signo).Siginfo then some signo else none := by
  have hrange := HostHeader.mem_range_of_a2iHostSignal hn
  have hnull : (s.gActions signo).handler ≠ 0 := hhandler.1
  rw [a2iSignalTrampoline]
  dsimp only
  rw [HostHeader.a2iAndroidSignal_a2iHostSignal hn, if_neg (by omega)]
  by_cases hinfo : (s.gActions signo).Siginfo
  · rw [if_pos hinfo, if_pos hnull, if_pos hinfo]
    exact ⟨_, rfl, rfl, rfl, by simp⟩
  · rw [if_neg hinfo, if_pos ⟨hhandler.1, hhandler.2, hnull⟩, if_neg hinfo]
    exact ⟨_, rfl, rfl, rfl, rfl⟩

/-- The current action of a signal after a delivery. -/
lemma SignalEvent.current_deliver (n : ℤ) (i : Option HostSiginfo) (v : Option Invocation) :
    current H (.deliver n i v :: h) signo =
      if H.a2iHostSignal signo = n ∧ (current H h signo).IsHandler ∧
          (current H h signo).Resethand then .default
      else current H h signo := rfl

/-- A delivery runs the current handler, and the table goes on following the host. -/
lemma SignalInv.deliver {n : ℤ} {i : Option HostSiginfo} {v : Option Invocation}
    (hs : SignalInv H h s) (call : s.deliver H n i = (v, s')) :
    SignalEvent.Meets H h s (.deliver n i v) s' ∧ SignalInv H (.deliver n i v :: h) s' := by
  rw [SignalState.deliver] at call
  split at call
  · rename_i handler saMask saFlags hd
    obtain ⟨rfl, rfl⟩ := Prod.mk.inj call
    -- the host does not call the trampoline, so no handler is current
    have hnone : ∀ signo, 0 ≤ H.a2iHostSignal signo → H.a2iHostSignal signo = n →
        ¬ (SignalEvent.current H h signo).IsHandler := by
      rintro signo hn rfl
      rw [(hs signo hn).current, hd]
      split
      · exact not_isHandler_default
      · rename_i hrec
        exact fun hhandler => hrec ⟨hhandler, nofun⟩
    refine ⟨fun signo hn heq => ⟨iff_of_false nofun (hnone signo hn heq), nofun⟩, ?_⟩
    intro signo hn
    rw [SignalEvent.current_deliver, if_neg fun h => hnone signo hn h.1 h.2.1]
    exact hs signo hn
  · rename_i saMask saFlags hd
    obtain ⟨rfl, rfl⟩ := Prod.mk.inj call
    have hcurrent : ∀ signo, 0 ≤ H.a2iHostSignal signo → H.a2iHostSignal signo = n →
        (s.gActions signo).IsHandler ∧
          (saFlags &&& H.sa .resethand ≠ 0#32 ↔ (s.gActions signo).Resethand) ∧
          SignalEvent.current H h signo = s.gActions signo := by
      rintro signo hn rfl
      have hfollows := hs signo hn
      rw [hd] at hfollows
      obtain ⟨hhandler, hreset⟩ := hfollows.handler rfl
      exact ⟨hhandler, hreset, hfollows.current.trans (if_neg fun h => h.2 rfl)⟩
    constructor
    · rintro signo hn rfl
      obtain ⟨hhandler, -, heq⟩ := hcurrent signo hn rfl
      obtain ⟨i', hi', hspec⟩ := SignalState.a2iSignalTrampoline_spec hn hhandler i
      rw [heq, hi']
      refine ⟨iff_of_true rfl hhandler, fun j hj => ?_⟩
      obtain rfl := Option.some.inj hj
      exact hspec
    · intro signo hn
      rw [SignalEvent.current_deliver]
      by_cases hsig : H.a2iHostSignal signo = n
      · subst hsig
        obtain ⟨hhandler, hreset, heq⟩ := hcurrent signo hn rfl
        by_cases hflag : saFlags &&& H.sa .resethand ≠ 0#32
        · rw [if_pos hflag, heq, if_pos ⟨rfl, hhandler, hreset.mp hflag⟩]
          dsimp only
          rw [Function.update_self]
          exact ⟨nofun, (if_pos ⟨hhandler, nofun⟩).symm⟩
        · have hkept : ¬ (SignalEvent.current H h signo).Resethand := fun h =>
            hflag (hreset.mpr (heq ▸ h))
          rw [if_neg hflag, if_neg fun h => hkept h.2.2]
          exact hs signo hn
      · have hother : ¬ (H.a2iHostSignal signo = n ∧
            (SignalEvent.current H h signo).IsHandler ∧
            (SignalEvent.current H h signo).Resethand) := fun h => hsig h.1
        rw [if_neg hother]
        split
        · dsimp only
          rw [Function.update_of_ne hsig]
          exact hs signo hn
        · exact hs signo hn

/-- A step keeps its promises exactly when it is in step, and the table then goes on following
the host. -/
lemma SignalInv.step (hs : SignalInv H h s) (hstep : SignalStep H s e s') :
    (e.InStep H h s s' ↔ e.Meets H h s s') ∧ (e.Meets H h s s' → SignalInv H (e :: h) s') := by
  cases hstep with
  | @sigaction signo newAction oldAction answer rc old s' call =>
    refine ⟨hs.callInStep_iff call, fun hmeets => hs.call call hmeets.1 nofun ?_ ?_⟩
    · rintro action rfl rfl
      rfl
    · rintro (rfl | ⟨e, rfl⟩)
      · rfl
      · cases newAction <;> rfl
  -- `signal` is a `sigaction` whose result is the handler in place of the action
  | @signal signo handler answer result s' call =>
    obtain ⟨rc, old, hcall, rfl⟩ := SignalState.a2iSignal_cases call
    have herror : (∃ e, rc.map (fun _ => (s.gActions signo).handler) = .error e) ↔
        ∃ e, rc = .error e := by
      cases rc <;> simp [Except.map]
    refine ⟨?_, fun hmeets => hs.call hcall (fun h => hmeets.1 (herror.mpr h)) nofun ?_ ?_⟩
    · rw [SignalEvent.InStep, SignalEvent.Meets, herror]
      refine (hs.callInStep_iff hcall).trans (and_congr_right fun _ => ?_)
      rcases SignalState.a2iSigaction_cases hcall with ⟨-, rfl, -⟩ | ⟨hn, rfl, -⟩
      · exact iff_of_true nofun nofun
      · cases rc with
        | error e => exact iff_of_true nofun nofun
        | ok =>
          have haction := (hs.action_eq_iff hn).trans (hs.handler_eq_iff hn).symm
          simpa [Except.map] using haction
    · rintro action ha rfl
      obtain rfl := Option.some.inj ha
      rfl
    · rintro (h | ⟨e, rfl⟩)
      · exact nomatch h
      · rfl
  | deliver call =>
    obtain ⟨hmeets, hinv⟩ := hs.deliver call
    exact ⟨iff_of_true trivial hmeets, fun _ => hinv⟩

/-- **Signal dispositions.**  The steps of a run of calls and deliveries all do what a POSIX
host promises if and only if they are all in step: whenever the host refuses an action, it is
the recorded one, and no call that succeeds reports the recorded action of a signal whose
handler the host has reset. -/
theorem signal_dispositions_iff {host : ℤ → HostAction}
    (hhost : ∀ n, (host n).handler ≠ .trampoline) :
    SignalRun H (SignalEvent.InStep H) (SignalState.init host) h s ↔
      SignalRun H (SignalEvent.Meets H) (SignalState.init host) h s := by
  have hinv : ∀ {h s}, SignalRun H (SignalEvent.Meets H) (SignalState.init host) h s →
      SignalInv H h s := by
    intro h s hrun
    induction hrun with
    | start => exact signalInv_init hhost
    | step _ hstep hmeets ih => exact (ih.step hstep).2 hmeets
  constructor
  · intro hrun
    induction hrun with
    | start => exact .start
    | step _ hstep hin ih => exact .step ih hstep (((hinv ih).step hstep).1.mp hin)
  · intro hrun
    induction hrun with
    | start => exact .start
    | step hrun hstep hmeets ih => exact .step ih hstep (((hinv hrun).step hstep).1.mpr hmeets)

/-! ### A run on Darwin -/

/-- The signals of Darwin. -/
def darwinSignal : HostSignal → ℤ
  | .sighup => 1 | .sigint => 2 | .sigquit => 3 | .sigill => 4 | .sigtrap => 5 | .sigabrt => 6
  | .sigfpe => 8 | .sigkill => 9 | .sigbus => 10 | .sigsegv => 11 | .sigsys => 12
  | .sigpipe => 13 | .sigalrm => 14 | .sigterm => 15 | .sigurg => 16 | .sigstop => 17
  | .sigtstp => 18 | .sigcont => 19 | .sigchld => 20 | .sigttin => 21 | .sigttou => 22
  | .sigio => 23 | .sigxcpu => 24 | .sigxfsz => 25 | .sigvtalrm => 26 | .sigprof => 27
  | .sigwinch => 28 | .sigusr1 => 30 | .sigusr2 => 31

/-- The name of a number of Darwin. -/
def darwinName (n : ℤ) : HostSignal :=
  (hostSignals.find? fun entry => darwinSignal entry.2 = n).elim .sighup Prod.snd

def darwinFlag : SaFlag → BitVec 32
  | .onstack => 0x0001
  | .restart => 0x0002
  | .resethand => 0x0004
  | .nocldstop => 0x0008
  | .nodefer => 0x0010
  | .nocldwait => 0x0020
  | .siginfo => 0x0040

/-- The header of Darwin. -/
def darwin : HostHeader where
  sig := darwinSignal
  sig_pos n := by cases n <;> decide
  sig_injective := by
    have hleft : Function.LeftInverse darwinName darwinSignal := by
      intro n
      cases n <;> rfl
    exact hleft.injective
  sa := darwinFlag
  sa_ne_zero f := by cases f <;> decide
  sa_disjoint f g hne := by
    cases f <;> cases g <;> first | exact absurd rfl hne | rfl

/-- Every disposition is the default one. -/
def darwinDefaults (_ : ℤ) : HostAction := ⟨.saHandler sigDfl, ∅, 0⟩

lemma darwinDefaults_handler (n : ℤ) : (darwinDefaults n).handler ≠ .trampoline := nofun

/-- A handler that is reset when it is called. -/
def oneShot : A2iAndroidSigaction := ⟨0x80000000, 0, 4096, 0, 0⟩

/-- The handler is installed for `SIGUSR1` and called. -/
def oneShotHistory : List SignalEvent :=
  [.deliver 30 none (some ⟨4096, 10, none⟩),
    .sigaction 10 (some oneShot) true (.ok ()) (.ok ()) (some .default)]

lemma signalRun_oneShot : ∃ s, SignalRun darwin (SignalEvent.InStep darwin)
    (SignalState.init darwinDefaults) oneShotHistory s := by
  have hin : (SignalState.init darwinDefaults).CallInStep darwin 10 (some oneShot) true
      (.ok ()) := by
    rintro -
    exact ⟨fun _ _ _ h => (nomatch h), fun _ _ hreset => not_isHandler_default hreset.1⟩
  exact ⟨_, .step (.step .start (.sigaction rfl) hin) (.deliver rfl) trivial⟩

theorem signal_dispositions_iff_oneShot : ∃ s, SignalRun darwin (SignalEvent.Meets darwin)
    (SignalState.init darwinDefaults) oneShotHistory s := by
  obtain ⟨s, hrun⟩ := signalRun_oneShot
  exact ⟨s, (signal_dispositions_iff darwinDefaults_handler).mp hrun⟩

/-- A handler for `SIGKILL`, which the host refuses. -/
def killRefused : SignalEvent :=
  .sigaction 9 (some oneShot) false (.error .EINVAL) (.error .EINVAL) none

/-- The action of `SIGUSR1` is asked for after its handler was called. -/
def staleReported : SignalEvent := .sigaction 10 none true (.ok ()) (.ok ()) (some oneShot)

/-- A handler the host has refused is recorded, and one it has reset is reported. -/
theorem signal_dispositions_diverge :
    (∃ s', SignalStep darwin (SignalState.init darwinDefaults) killRefused s' ∧
      ¬ killRefused.Meets darwin [] (SignalState.init darwinDefaults) s') ∧
    ∃ s s', SignalRun darwin (fun _ _ _ _ => True) (SignalState.init darwinDefaults)
      oneShotHistory s ∧ SignalStep darwin s staleReported s' ∧
        ¬ staleReported.Meets darwin oneShotHistory s s' := by
  constructor
  · refine ⟨_, .sigaction rfl, fun hmeets => ?_⟩
    have hsame := congrFun (hmeets.1 ⟨.EINVAL, rfl⟩) 9
    exact absurd (congrArg (·.handler) hsame) (by decide)
  · refine ⟨_, _, .step (.step .start (.sigaction rfl) trivial) (.deliver rfl) trivial,
      .sigaction rfl, fun hmeets => ?_⟩
    have hcurrent : oneShot = .default := hmeets.2 rfl oneShot rfl
    exact absurd hcurrent (by decide)

end Apk2Ios
