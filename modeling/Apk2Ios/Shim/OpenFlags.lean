import Mathlib.Data.BitVec
import Mathlib.Data.Fintype.Basic

/-!
# The shim: flags of open

`a2i_open_flags` and `a2i_open` of `posix_compat.c`.  The numbers of the host are parameters: the
words of the three access modes, and one bit for each other flag.  A word of Android is read with
the constants of the shim, one of which has two bits.
-/

namespace Apk2Ios

/-! ### The flags -/

/-- The flags that are translated. -/
inductive OpenFlag where
  | creat
  | excl
  | trunc
  | append
  | nonblock
  | noctty
  | directory
  | nofollow
  | cloexec
  | dsync
  | sync
deriving DecidableEq, Repr

namespace OpenFlag

/-- The flags in the order in which they are tested. -/
def tested : List OpenFlag :=
  [creat, excl, trunc, append, nonblock, noctty, directory, nofollow, cloexec, dsync, sync]

lemma mem_tested (f : OpenFlag) : f ∈ tested := by
  cases f <;> decide

/-- The constants `A2I_O_CREAT`, …, `A2I_O_SYNC`. -/
def a2i : OpenFlag → BitVec 32
  | creat => 0o100
  | excl => 0o200
  | noctty => 0o400
  | trunc => 0o1000
  | append => 0o2000
  | nonblock => 0o4000
  | dsync => 0o10000
  | directory => 0o200000
  | nofollow => 0o400000
  | cloexec => 0o2000000
  | sync => 0o4010000

end OpenFlag

/-- `A2I_O_ACCMODE`. -/
def a2iOAccmode : BitVec 32 := 0o3

/-- The flags of the host.  Each is a bit of its own, below the sign bit and outside the mask of the
access modes, which are different words in this mask. -/
structure HostOpenFlags where
  accmode : BitVec 32
  rdonly : BitVec 32
  wronly : BitVec 32
  rdwr : BitVec 32
  bit : OpenFlag → Fin 31
  modes : ∀ mode ∈ [rdonly, wronly, rdwr], mode &&& accmode = mode
  nodup : [rdonly, wronly, rdwr].Nodup
  nonneg : accmode.msb = false
  apart : ∀ f, accmode.getLsbD (bit f) = false
  injective : Function.Injective bit

/-- The flags of Darwin. -/
def HostOpenFlags.darwin : HostOpenFlags where
  accmode := 0x3
  rdonly := 0x0
  wronly := 0x1
  rdwr := 0x2
  bit
    | .nonblock => 2
    | .append => 3
    | .sync => 7
    | .nofollow => 8
    | .creat => 9
    | .trunc => 10
    | .excl => 11
    | .noctty => 17
    | .directory => 20
    | .dsync => 22
    | .cloexec => 24
  modes := by simp
  nodup := by decide
  nonneg := by decide
  apart f := by cases f <;> decide
  injective f g h := by
    cases f <;> cases g <;> first | rfl | exact absurd h (by decide)

/-- The word of a flag of the host. -/
def HostOpenFlags.word (host : HostOpenFlags) (f : OpenFlag) : BitVec 32 :=
  BitVec.twoPow 32 (host.bit f)

/-! ### The translation -/

/-- The access mode of the host; there is none instead of `EINVAL`. -/
def hostAccessMode (host : HostOpenFlags) (flags : BitVec 32) : Option (BitVec 32) :=
  match (flags &&& a2iOAccmode).toNat with
  | 0 => some host.rdonly
  | 1 => some host.wronly
  | 2 => some host.rdwr
  | _ => none

/-- `if (flags & A2I_O_…) out |= O_…;` -/
def testFlag (host : HostOpenFlags) (flags out : BitVec 32) (f : OpenFlag) : BitVec 32 :=
  if flags &&& f.a2i ≠ 0 then out ||| host.word f else out

/-- `a2i_open_flags`; there is no word when it returns -1 with `EINVAL`. -/
def a2iOpenFlags (host : HostOpenFlags) (flags : BitVec 32) : Option (BitVec 32) :=
  (hostAccessMode host flags).map fun out ↦ OpenFlag.tested.foldl (testFlag host flags) out

/-- `a2i_open`, where `call` is `open` of the host with the mode when there is one. -/
def a2iOpen (host : HostOpenFlags) (call : BitVec 32 → Option (BitVec 16) → ℤ)
    (flags mode : BitVec 32) : ℤ :=
  match a2iOpenFlags host flags with
  | none => -1
  | some hostFlags =>
    if hostFlags.toInt < 0 then -1
    else if flags &&& OpenFlag.creat.a2i ≠ 0 then call hostFlags (some (mode.setWidth 16))
    else call hostFlags none

/-! ### What the word of the host says -/

section

variable {host : HostOpenFlags} {flags out mode : BitVec 32}

lemma hostAccessMode_mem (h : hostAccessMode host flags = some mode) :
    mode ∈ [host.rdonly, host.wronly, host.rdwr] := by
  rw [hostAccessMode] at h
  split at h <;> simp_all

lemma getLsbD_word (f : OpenFlag) (i : ℕ) :
    (host.word f).getLsbD i = true ↔ (host.bit f : ℕ) = i := by
  have hlt : (host.bit f : ℕ) < 32 := by omega
  rw [HostOpenFlags.word, BitVec.getLsbD_twoPow, Bool.and_eq_true, decide_eq_true_eq,
    decide_eq_true_eq]
  exact and_iff_right hlt

/-- The flags are or-ed to the word one after the other. -/
lemma getLsbD_foldl_testFlag (fs : List OpenFlag) (i : ℕ) :
    (fs.foldl (testFlag host flags) out).getLsbD i = true ↔
      out.getLsbD i = true ∨ ∃ f ∈ fs, flags &&& f.a2i ≠ 0 ∧ (host.bit f : ℕ) = i := by
  induction fs generalizing out with
  | nil => simp
  | cons f fs ih =>
    rw [List.foldl_cons, ih, List.exists_mem_cons_iff, ← or_assoc]
    apply or_congr_left
    by_cases hset : flags &&& f.a2i ≠ 0
    · rw [testFlag, if_pos hset, BitVec.getLsbD_or, Bool.or_eq_true, getLsbD_word]
      exact or_congr_right (and_iff_right hset).symm
    · rw [testFlag, if_neg hset]
      exact (or_iff_left fun h ↦ hset h.1).symm

/-- A bit of a mode is in the mask. -/
lemma getLsbD_mode (hmode : mode ∈ [host.rdonly, host.wronly, host.rdwr]) (f : OpenFlag) :
    mode.getLsbD (host.bit f) = false := by
  rw [← host.modes mode hmode, BitVec.getLsbD_and, host.apart, Bool.and_false]

/-- A flag of the host is set when the test of its constant succeeds. -/
lemma getLsbD_a2iOpenFlags (h : a2iOpenFlags host flags = some out) (f : OpenFlag) :
    out.getLsbD (host.bit f) = true ↔ flags &&& f.a2i ≠ 0 := by
  obtain ⟨mode, hmode, rfl⟩ := Option.map_eq_some_iff.mp h
  rw [getLsbD_foldl_testFlag, getLsbD_mode (hostAccessMode_mem hmode)]
  constructor
  · rintro (hfalse | ⟨g, -, hset, hbit⟩)
    · exact absurd hfalse Bool.false_ne_true
    · obtain rfl : g = f := host.injective (Fin.ext hbit)
      exact hset
  · intro hset
    exact Or.inr ⟨f, OpenFlag.mem_tested f, hset, rfl⟩

/-- The access mode is that of the host. -/
lemma and_accmode_a2iOpenFlags (h : a2iOpenFlags host flags = some out) :
    hostAccessMode host flags = some (out &&& host.accmode) := by
  obtain ⟨mode, hmode, rfl⟩ := Option.map_eq_some_iff.mp h
  rw [hmode]
  congr 1
  rw [← host.modes mode (hostAccessMode_mem hmode)]
  apply BitVec.eq_of_getLsbD_eq
  intro i _
  rw [Bool.eq_iff_iff]
  simp only [BitVec.getLsbD_and, Bool.and_eq_true, getLsbD_foldl_testFlag]
  constructor
  · rintro ⟨hm, ha⟩
    exact ⟨Or.inl ⟨hm, ha⟩, ha⟩
  · rintro ⟨hm | ⟨f, -, -, rfl⟩, ha⟩
    · exact hm
    · rw [host.apart] at ha
      exact absurd ha Bool.false_ne_true

/-! ### Flag by flag -/

/-- The word of the host says what the word of Android says: it has the matching access mode, and a
flag is set exactly when all bits of its constant are. -/
def Faithful (host : HostOpenFlags) (flags out : BitVec 32) : Prop :=
  (flags &&& a2iOAccmode = 0 → out &&& host.accmode = host.rdonly) ∧
    (flags &&& a2iOAccmode = 1 → out &&& host.accmode = host.wronly) ∧
    (flags &&& a2iOAccmode = 2 → out &&& host.accmode = host.rdwr) ∧
    ∀ f, out.getLsbD (host.bit f) = true ↔ flags &&& f.a2i = f.a2i

/-- A constant of one bit is there or not. -/
lemma and_a2i_ne_zero_iff {f : OpenFlag} (hf : f ≠ .sync) :
    flags &&& f.a2i ≠ 0 ↔ flags &&& f.a2i = f.a2i := by
  obtain ⟨k, hk, hne⟩ : ∃ k, f.a2i = BitVec.twoPow 32 k ∧ f.a2i ≠ 0 := by
    cases f with
    | creat => exact ⟨6, by decide, by decide⟩
    | excl => exact ⟨7, by decide, by decide⟩
    | noctty => exact ⟨8, by decide, by decide⟩
    | trunc => exact ⟨9, by decide, by decide⟩
    | append => exact ⟨10, by decide, by decide⟩
    | nonblock => exact ⟨11, by decide, by decide⟩
    | dsync => exact ⟨12, by decide, by decide⟩
    | directory => exact ⟨16, by decide, by decide⟩
    | nofollow => exact ⟨17, by decide, by decide⟩
    | cloexec => exact ⟨19, by decide, by decide⟩
    | sync => exact absurd rfl hf
  rw [hk] at hne ⊢
  rw [BitVec.and_twoPow]
  split
  · exact iff_of_true hne rfl
  · exact iff_of_false (fun h ↦ h rfl) hne.symm

/-- The constant of two bits can be there in part. -/
lemma and_sync_iff : (flags &&& OpenFlag.sync.a2i ≠ 0 ↔ flags &&& OpenFlag.sync.a2i =
    OpenFlag.sync.a2i) ↔ flags.getLsbD 12 = flags.getLsbD 20 := by
  have hbits : OpenFlag.sync.a2i = BitVec.twoPow 32 12 ||| BitVec.twoPow 32 20 := by decide
  have hand : flags &&& OpenFlag.sync.a2i =
      (if flags.getLsbD 12 then BitVec.twoPow 32 12 else 0) |||
        (if flags.getLsbD 20 then BitVec.twoPow 32 20 else 0) := by
    rw [hbits, BitVec.and_or_distrib_left, BitVec.and_twoPow, BitVec.and_twoPow]
    rfl
  rw [hand]
  cases flags.getLsbD 12 <;> cases flags.getLsbD 20 <;> decide

/-- The three access modes are translated. -/
lemma exists_hostAccessMode (host : HostOpenFlags) (hmode : flags &&& a2iOAccmode ≠ a2iOAccmode) :
    ∃ mode, hostAccessMode host flags = some mode := by
  have hle : (flags &&& a2iOAccmode).toNat ≤ 3 := by
    rw [BitVec.toNat_and]
    exact Nat.and_le_right
  have hne : (flags &&& a2iOAccmode).toNat ≠ 3 := fun h ↦ hmode (BitVec.eq_of_toNat_eq h)
  rw [hostAccessMode]
  rcases (by omega : (flags &&& a2iOAccmode).toNat = 0 ∨ (flags &&& a2iOAccmode).toNat = 1 ∨
    (flags &&& a2iOAccmode).toNat = 2) with h | h | h
  · exact ⟨host.rdonly, by rw [h]; rfl⟩
  · exact ⟨host.wronly, by rw [h]; rfl⟩
  · exact ⟨host.rdwr, by rw [h]; rfl⟩

/-- The words that are or-ed have the same access mode: so have the translations, and these are
or-ed flag by flag. -/
lemma a2iOpenFlags_or {other : BitVec 32} (hout : a2iOpenFlags host flags = some out)
    (hother : other &&& a2iOAccmode = flags &&& a2iOAccmode) :
    ∃ out', a2iOpenFlags host other = some out' ∧
      a2iOpenFlags host (flags ||| other) = some (out ||| out') := by
  obtain ⟨mode, hmode, rfl⟩ := Option.map_eq_some_iff.mp hout
  have hor : (flags ||| other) &&& a2iOAccmode = flags &&& a2iOAccmode := by
    rw [BitVec.and_or_distrib_right, hother, BitVec.or_self]
  have hmode' : hostAccessMode host other = some mode := by
    rw [hostAccessMode, hother, ← hostAccessMode, hmode]
  have hmodeOr : hostAccessMode host (flags ||| other) = some mode := by
    rw [hostAccessMode, hor, ← hostAccessMode, hmode]
  refine ⟨_, by rw [a2iOpenFlags, hmode', Option.map_some], ?_⟩
  rw [a2iOpenFlags, hmodeOr, Option.map_some]
  congr 1
  apply BitVec.eq_of_getLsbD_eq
  intro i _
  have hset : ∀ f : OpenFlag, (flags ||| other) &&& f.a2i ≠ 0 ↔
      flags &&& f.a2i ≠ 0 ∨ other &&& f.a2i ≠ 0 := by
    intro f
    rw [BitVec.and_or_distrib_right]
    exact (not_congr BitVec.or_eq_zero_iff).trans not_and_or
  rw [Bool.eq_iff_iff, BitVec.getLsbD_or, Bool.or_eq_true]
  simp only [getLsbD_foldl_testFlag, hset]
  constructor
  · rintro (hm | ⟨f, hf, h | h, hi⟩)
    · exact Or.inl (Or.inl hm)
    · exact Or.inl (Or.inr ⟨f, hf, h, hi⟩)
    · exact Or.inr (Or.inr ⟨f, hf, h, hi⟩)
  · rintro ((hm | ⟨f, hf, h, hi⟩) | (hm | ⟨f, hf, h, hi⟩))
    · exact Or.inl hm
    · exact Or.inr ⟨f, hf, Or.inl h, hi⟩
    · exact Or.inl hm
    · exact Or.inr ⟨f, hf, Or.inr h, hi⟩

/-- **When a word of flags is translated faithfully.**  The constant `A2I_O_SYNC` has two bits, and
one of them is enough for `O_SYNC`: the translation is faithful exactly when both bits are set or
both are clear.  Words with one access mode are translated flag by flag. -/
theorem a2iOpenFlags_faithful_iff (host : HostOpenFlags) (flags : BitVec 32)
    (hmode : flags &&& a2iOAccmode ≠ a2iOAccmode) :
    ∃ out, a2iOpenFlags host flags = some out ∧
      (Faithful host flags out ↔ flags.getLsbD 12 = flags.getLsbD 20) ∧
      ∀ other, other &&& a2iOAccmode = flags &&& a2iOAccmode →
        ∃ out', a2iOpenFlags host other = some out' ∧
          a2iOpenFlags host (flags ||| other) = some (out ||| out') := by
  obtain ⟨mode, hsome⟩ := exists_hostAccessMode host hmode
  have hout : a2iOpenFlags host flags =
      some (OpenFlag.tested.foldl (testFlag host flags) mode) := by
    rw [a2iOpenFlags, hsome, Option.map_some]
  refine ⟨_, hout, ?_, fun other hother ↦ a2iOpenFlags_or hout hother⟩
  have hflag := getLsbD_a2iOpenFlags hout
  have hword := fun mode h ↦
    Option.some.inj ((and_accmode_a2iOpenFlags hout).symm.trans (h : _ = some mode))
  constructor
  · rintro ⟨-, -, -, hflags⟩
    rw [← and_sync_iff, ← hflags, hflag]
  · intro hbits
    have hflags : ∀ f : OpenFlag, flags &&& f.a2i ≠ 0 ↔ flags &&& f.a2i = f.a2i := by
      intro f
      -- every flag but `O_SYNC` is one bit; `O_SYNC` has the bit of `O_DSYNC` in it
      by_cases hf : f = .sync
      · rw [hf]
        exact and_sync_iff.mpr hbits
      · exact and_a2i_ne_zero_iff hf
    refine ⟨fun hm ↦ hword _ ?_, fun hm ↦ hword _ ?_, fun hm ↦ hword _ ?_,
      fun f ↦ (hflag f).trans (hflags f)⟩
    all_goals
      rw [hostAccessMode, hm]
      rfl

/-- A file is opened for reading and writing and created. -/
theorem a2iOpenFlags_faithful_creat :
    ∃ out, a2iOpenFlags .darwin 0o102 = some out ∧ Faithful .darwin 0o102 out := by
  obtain ⟨out, hout, hfaithful, -⟩ := a2iOpenFlags_faithful_iff .darwin 0o102 (by decide)
  exact ⟨out, hout, hfaithful.mpr (by decide)⟩

/-- `A2I_O_WRONLY | A2I_O_DSYNC` opens with `O_SYNC`. -/
theorem a2iOpenFlags_dsync :
    ∃ out, a2iOpenFlags .darwin 0o10001 = some out ∧ ¬Faithful .darwin 0o10001 out := by
  refine ⟨0x400081, by decide, ?_⟩
  rintro ⟨-, -, -, hflags⟩
  exact absurd ((hflags .sync).mp (by decide)) (by decide)

/-! ### Opening a file -/

/-- The file is opened with the translated word, and with a mode when it is to be created; nothing
is opened when the access mode is refused. -/
theorem a2iOpen_eq (host : HostOpenFlags) (call : BitVec 32 → Option (BitVec 16) → ℤ)
    (flags mode : BitVec 32) :
    a2iOpen host call flags mode =
      match a2iOpenFlags host flags with
      | none => -1
      | some out =>
        call out (if flags &&& OpenFlag.creat.a2i ≠ 0 then some (mode.setWidth 16) else none) := by
  rw [a2iOpen]
  cases hout : a2iOpenFlags host flags with
  | none => rfl
  | some out =>
    -- no flag of the host is the sign bit
    have hsign : out.msb = false := by
      obtain ⟨access, haccess, rfl⟩ := Option.map_eq_some_iff.mp hout
      have hmode : access.getLsbD 31 = false := by
        rw [← host.modes access (hostAccessMode_mem haccess), BitVec.getLsbD_and]
        have hmask := host.nonneg
        rw [BitVec.msb_eq_getLsbD_last] at hmask
        rw [hmask, Bool.and_false]
      rw [BitVec.msb_eq_getLsbD_last, ← Bool.not_eq_true, getLsbD_foldl_testFlag]
      rintro (h | ⟨f, -, -, hbit⟩)
      · rw [hmode] at h
        exact Bool.false_ne_true h
      · have hlt := (host.bit f).isLt
        omega
    have hpos := BitVec.toInt_nonneg_of_msb_false hsign
    simp only [if_neg (not_lt.mpr hpos)]
    split <;> rfl

end

end Apk2Ios
