import Mathlib.Tactic.Ring
import Mathlib.Order.Lattice

/-!
# The shim: deadlines

The deadlines of timed waits: `a2i_monotonic_to_realtime` of `pthread_compat.c`, and what
`a2i_futex_wait` of `runtime_compat.c` adds to the clock.  The seconds and the nanoseconds are
numbers of 64 bits, and an operation that leaves their range has no result.
-/

namespace Apk2Ios

/-! ### Times -/

/-- `struct timespec`. -/
structure Timespec where
  tvSec : ℤ
  tvNsec : ℤ
deriving DecidableEq, Repr

namespace Timespec

/-- The nanoseconds of a time. -/
def nanos (t : Timespec) : ℤ := t.tvSec * 1000000000 + t.tvNsec

/-- A time that can be represented, with less than a second in its nanoseconds. -/
structure Normal (t : Timespec) : Prop where
  lower : -2 ^ 63 ≤ t.tvSec
  upper : t.tvSec < 2 ^ 63
  nonneg : 0 ≤ t.tvNsec
  lt : t.tvNsec < 1000000000

/-- A time that is not negative, such as the reading of a clock. -/
structure Reading (t : Timespec) : Prop extends Normal t where
  sec : 0 ≤ t.tvSec

lemma reading_mk {sec nsec : ℤ} (hsec : 0 ≤ sec ∧ sec < 2 ^ 63)
    (hnsec : 0 ≤ nsec ∧ nsec < 1000000000) : Reading ⟨sec, nsec⟩ :=
  ⟨⟨le_trans (by decide) hsec.1, hsec.2, hnsec.1, hnsec.2⟩, hsec.1⟩

/-- The latest time. -/
def latest : Timespec := ⟨2 ^ 63 - 1, 999999999⟩

end Timespec

/-- The result of an operation on `int64_t`. -/
def int64 (n : ℤ) : Option ℤ :=
  if -2 ^ 63 ≤ n ∧ n < 2 ^ 63 then some n else none

/-- Seconds and nanoseconds are added to a time, and a second is carried. -/
def advance (t : Timespec) (sec nsec : ℤ) : Option Timespec := do
  let tvSec ← int64 (t.tvSec + sec)
  let tvNsec ← int64 (t.tvNsec + nsec)
  if 1000000000 ≤ tvNsec then
    let tvNsec ← int64 (tvNsec - 1000000000)
    let tvSec ← int64 (tvSec + 1)
    some ⟨tvSec, tvNsec⟩
  else some ⟨tvSec, tvNsec⟩

/-- `a2i_monotonic_to_realtime`, with the two readings of the clocks. -/
def a2iMonotonicToRealtime (monoNow realNow androidAbsolute : Timespec) : Option Timespec := do
  let sec ← int64 (androidAbsolute.tvSec - monoNow.tvSec)
  let nsec ← int64 (androidAbsolute.tvNsec - monoNow.tvNsec)
  if nsec < 0 then
    let nsec ← int64 (nsec + 1000000000)
    let sec ← int64 (sec - 1)
    advance realNow sec nsec
  else advance realNow sec nsec

/-- `a2i_pthread_cond_timedwait`, with the clock of the condition and whether the mutex is there;
`wait` is `pthread_cond_timedwait` of the host on them.  `EINVAL` is 22. -/
def a2iPthreadCondTimedwait (wait : Timespec → ℤ) (androidClock : Option ℤ) (mutex : Bool)
    (absolute : Option Timespec) (monoNow realNow : Timespec) : Option ℤ :=
  match absolute, androidClock, mutex with
  | some absolute, some clock, true =>
    if clock = 1 then (a2iMonotonicToRealtime monoNow realNow absolute).map wait
    else some (wait absolute)
  | _, _, _ => some 22

/-- The deadline of `a2i_futex_wait`. -/
def a2iFutexDeadline (now relativeTimeout : Timespec) : Option Timespec :=
  advance now relativeTimeout.tvSec relativeTimeout.tvNsec

/-! ### Exact deadlines -/

section

variable {t absolute timeout monoNow realNow : Timespec} {n sec nsec : ℤ}

lemma int64_of_mem (hlower : -2 ^ 63 ≤ n) (hupper : n < 2 ^ 63) : int64 n = some n :=
  if_pos ⟨hlower, hupper⟩

lemma int64_of_le (h : 2 ^ 63 ≤ n) : int64 n = none := if_neg fun hn ↦ by omega

lemma int64_of_lt (h : n < -2 ^ 63) : int64 n = none := if_neg fun hn ↦ by omega

/-- A time that can still be represented is reached exactly. -/
lemma advance_of_lt (ht : t.Reading) (hsec : -2 ^ 63 ≤ sec) (hnonneg : 0 ≤ nsec)
    (hlt : nsec < 1000000000)
    (hfit : t.nanos + (sec * 1000000000 + nsec) < 2 ^ 63 * 1000000000) :
    ∃ r, advance t sec nsec = some r ∧ r.Normal ∧
      r.nanos = t.nanos + (sec * 1000000000 + nsec) := by
  obtain ⟨⟨hlower, hupper, hnsec, hnsec'⟩, hpos⟩ := ht
  rw [Timespec.nanos] at hfit
  have h1 : int64 (t.tvSec + sec) = some (t.tvSec + sec) := int64_of_mem (by omega) (by omega)
  have h2 : int64 (t.tvNsec + nsec) = some (t.tvNsec + nsec) :=
    int64_of_mem (by omega) (by omega)
  rw [advance, h1, Option.bind_eq_bind, Option.bind_some, h2, Option.bind_some]
  split
  · have h3 : int64 (t.tvNsec + nsec - 1000000000) = some (t.tvNsec + nsec - 1000000000) :=
      int64_of_mem (by omega) (by omega)
    have h4 : int64 (t.tvSec + sec + 1) = some (t.tvSec + sec + 1) :=
      int64_of_mem (by omega) (by omega)
    rw [h3, Option.bind_some, h4, Option.bind_some]
    refine ⟨_, rfl, ⟨?_, ?_, ?_, ?_⟩, ?_⟩ <;> simp only [Timespec.nanos] <;> omega
  · refine ⟨_, rfl, ⟨?_, ?_, ?_, ?_⟩, ?_⟩ <;> simp only [Timespec.nanos] <;> omega

/-- A later one overflows, when the seconds are added or when the second is carried. -/
lemma advance_of_le (ht : t.Reading) (hnonneg : 0 ≤ nsec) (hlt : nsec < 1000000000)
    (hover : 2 ^ 63 * 1000000000 ≤ t.nanos + (sec * 1000000000 + nsec)) :
    advance t sec nsec = none := by
  obtain ⟨⟨hlower, hupper, hnsec, hnsec'⟩, hpos⟩ := ht
  rw [Timespec.nanos] at hover
  by_cases hsum : 2 ^ 63 ≤ t.tvSec + sec
  · rw [advance, int64_of_le hsum]
    rfl
  · have h1 : int64 (t.tvSec + sec) = some (t.tvSec + sec) := int64_of_mem (by omega) (by omega)
    have h2 : int64 (t.tvNsec + nsec) = some (t.tvNsec + nsec) :=
      int64_of_mem (by omega) (by omega)
    have h3 : int64 (t.tvNsec + nsec - 1000000000) = some (t.tvNsec + nsec - 1000000000) :=
      int64_of_mem (by omega) (by omega)
    have h4 : int64 (t.tvSec + sec + 1) = none := int64_of_le (by omega)
    rw [advance, h1, Option.bind_eq_bind, Option.bind_some, h2, Option.bind_some,
      if_pos (by omega), h3, Option.bind_some, h4]
    rfl

/-- The time until the absolute one, with its second borrowed. -/
lemma monotonicToRealtime_of_le (realNow : Timespec) (hmono : monoNow.Reading)
    (habs : absolute.Normal)
    (hfit : -2 ^ 63 * 1000000000 ≤ absolute.nanos - monoNow.nanos) :
    ∃ sec nsec, a2iMonotonicToRealtime monoNow realNow absolute = advance realNow sec nsec ∧
      -2 ^ 63 ≤ sec ∧ 0 ≤ nsec ∧ nsec < 1000000000 ∧
      sec * 1000000000 + nsec = absolute.nanos - monoNow.nanos := by
  obtain ⟨⟨hlower, hupper, hnsec, hnsec'⟩, hpos⟩ := hmono
  obtain ⟨halower, haupper, hansec, hansec'⟩ := habs
  rw [Timespec.nanos, Timespec.nanos] at *
  have h1 : int64 (absolute.tvSec - monoNow.tvSec) = some (absolute.tvSec - monoNow.tvSec) :=
    int64_of_mem (by omega) (by omega)
  have h2 : int64 (absolute.tvNsec - monoNow.tvNsec) = some (absolute.tvNsec - monoNow.tvNsec) :=
    int64_of_mem (by omega) (by omega)
  -- the code borrows a second when the nanoseconds are negative
  by_cases hborrow : absolute.tvNsec - monoNow.tvNsec < 0
  · have h3 : int64 (absolute.tvNsec - monoNow.tvNsec + 1000000000) =
        some (absolute.tvNsec - monoNow.tvNsec + 1000000000) := int64_of_mem (by omega) (by omega)
    have h4 : int64 (absolute.tvSec - monoNow.tvSec - 1) =
        some (absolute.tvSec - monoNow.tvSec - 1) := int64_of_mem (by omega) (by omega)
    refine ⟨absolute.tvSec - monoNow.tvSec - 1, absolute.tvNsec - monoNow.tvNsec + 1000000000,
      ?_, by omega, by omega, by omega, by omega⟩
    rw [a2iMonotonicToRealtime, h1, Option.bind_eq_bind, Option.bind_some, h2, Option.bind_some,
      if_pos hborrow, h3, Option.bind_some, h4, Option.bind_some]
  · refine ⟨absolute.tvSec - monoNow.tvSec, absolute.tvNsec - monoNow.tvNsec,
      ?_, by omega, by omega, by omega, by omega⟩
    rw [a2iMonotonicToRealtime, h1, Option.bind_eq_bind, Option.bind_some, h2, Option.bind_some,
      if_neg hborrow]

/-- A time too far in the past overflows, when the seconds are subtracted or when a second is
borrowed. -/
lemma monotonicToRealtime_of_lt (realNow : Timespec) (hmono : monoNow.Reading)
    (habs : absolute.Normal)
    (hunder : absolute.nanos - monoNow.nanos < -2 ^ 63 * 1000000000) :
    a2iMonotonicToRealtime monoNow realNow absolute = none := by
  obtain ⟨⟨hlower, hupper, hnsec, hnsec'⟩, hpos⟩ := hmono
  obtain ⟨halower, haupper, hansec, hansec'⟩ := habs
  rw [Timespec.nanos, Timespec.nanos] at hunder
  by_cases hdiff : absolute.tvSec - monoNow.tvSec < -2 ^ 63
  · rw [a2iMonotonicToRealtime, int64_of_lt hdiff]
    rfl
  · have h1 : int64 (absolute.tvSec - monoNow.tvSec) = some (absolute.tvSec - monoNow.tvSec) :=
      int64_of_mem (by omega) (by omega)
    have h2 : int64 (absolute.tvNsec - monoNow.tvNsec) =
        some (absolute.tvNsec - monoNow.tvNsec) := int64_of_mem (by omega) (by omega)
    have h3 : int64 (absolute.tvNsec - monoNow.tvNsec + 1000000000) =
        some (absolute.tvNsec - monoNow.tvNsec + 1000000000) := int64_of_mem (by omega) (by omega)
    have h4 : int64 (absolute.tvSec - monoNow.tvSec - 1) = none := int64_of_lt (by omega)
    rw [a2iMonotonicToRealtime, h1, Option.bind_eq_bind, Option.bind_some, h2, Option.bind_some,
      if_pos (by omega), h3, Option.bind_some, h4]
    rfl

/-- The deadline is the exact one, or the latest time when the exact one is later. -/
def MeetsDeadline (deadline : Option Timespec) (exact : ℤ) : Prop :=
  ∃ r, deadline = some r ∧ r.Normal ∧ r.nanos = min exact Timespec.latest.nanos

lemma meetsDeadline_of_lt {deadline : Option Timespec} {r : Timespec} {exact : ℤ}
    (hr : deadline = some r) (hnormal : r.Normal) (hexact : r.nanos = exact) :
    MeetsDeadline deadline exact := by
  refine ⟨r, hr, hnormal, ?_⟩
  obtain ⟨-, hupper, -, hlt⟩ := hnormal
  have hlatest : Timespec.latest.nanos = 2 ^ 63 * 1000000000 - 1 := by decide
  rw [← hexact, hlatest, Timespec.nanos]
  omega

lemma not_meetsDeadline_none (exact : ℤ) : ¬MeetsDeadline none exact := by
  rintro ⟨r, hr, -⟩
  exact absurd hr.symm (Option.some_ne_none r)

/-- Adding meets the deadline until the seconds overflow. -/
lemma meetsDeadline_advance_iff (ht : t.Reading) (hsec : -2 ^ 63 ≤ sec) (hnonneg : 0 ≤ nsec)
    (hlt : nsec < 1000000000) :
    MeetsDeadline (advance t sec nsec) (t.nanos + (sec * 1000000000 + nsec)) ↔
      t.nanos + (sec * 1000000000 + nsec) < 2 ^ 63 * 1000000000 := by
  constructor
  · intro hmeets
    by_contra hover
    rw [advance_of_le ht hnonneg hlt (not_lt.mp hover)] at hmeets
    exact not_meetsDeadline_none _ hmeets
  · intro hfit
    obtain ⟨r, hr, hnormal, hexact⟩ := advance_of_lt ht hsec hnonneg hlt hfit
    exact meetsDeadline_of_lt hr hnormal hexact

/-- **When a deadline is right.**  The time of the monotonic clock is converted exactly when the
time until it and the deadline can be represented, and the deadline of a futex when the sum can;
otherwise a computation of 64 bits overflows where the latest time is due. -/
theorem meetsDeadline_iff (hmono : monoNow.Reading) (hreal : realNow.Reading)
    (habs : absolute.Normal) (htimeout : timeout.Reading) :
    (MeetsDeadline (a2iMonotonicToRealtime monoNow realNow absolute)
        (realNow.nanos + (absolute.nanos - monoNow.nanos)) ↔
      -2 ^ 63 * 1000000000 ≤ absolute.nanos - monoNow.nanos ∧
        realNow.nanos + (absolute.nanos - monoNow.nanos) < 2 ^ 63 * 1000000000) ∧
    (MeetsDeadline (a2iFutexDeadline realNow timeout) (realNow.nanos + timeout.nanos) ↔
      realNow.nanos + timeout.nanos < 2 ^ 63 * 1000000000) := by
  constructor
  · by_cases hfit : -2 ^ 63 * 1000000000 ≤ absolute.nanos - monoNow.nanos
    · obtain ⟨sec, nsec, heq, hsec, hnonneg, hlt, hsum⟩ :=
        monotonicToRealtime_of_le realNow hmono habs hfit
      rw [heq, ← hsum, meetsDeadline_advance_iff hreal hsec hnonneg hlt, hsum]
      exact (and_iff_right hfit).symm
    · rw [monotonicToRealtime_of_lt realNow hmono habs (not_le.mp hfit)]
      exact iff_of_false (not_meetsDeadline_none _) fun h ↦ hfit h.1
  · exact meetsDeadline_advance_iff hreal (by have := htimeout.sec; omega) htimeout.nonneg
      htimeout.lt

/-- A second and a half from the clocks, with a borrow and a carry. -/
theorem meetsDeadline_second :
    MeetsDeadline (a2iMonotonicToRealtime ⟨100, 600000000⟩ ⟨1700000000, 900000000⟩ ⟨102, 100000000⟩)
        1700000002400000000 ∧
      MeetsDeadline (a2iFutexDeadline ⟨1700000000, 900000000⟩ ⟨1, 500000000⟩)
        1700000002400000000 := by
  have hmono : Timespec.Reading ⟨100, 600000000⟩ := Timespec.reading_mk (by decide) (by decide)
  have hreal : Timespec.Reading ⟨1700000000, 900000000⟩ :=
    Timespec.reading_mk (by decide) (by decide)
  have habs : Timespec.Reading ⟨102, 100000000⟩ := Timespec.reading_mk (by decide) (by decide)
  have htimeout : Timespec.Reading ⟨1, 500000000⟩ := Timespec.reading_mk (by decide) (by decide)
  obtain ⟨hcond, hfutex⟩ := meetsDeadline_iff hmono hreal habs.toNormal htimeout
  exact ⟨hcond.mpr (by decide), hfutex.mpr (by decide)⟩

/-- The latest time, which means to wait forever, overflows in both. -/
theorem meetsDeadline_forever :
    ¬MeetsDeadline (a2iMonotonicToRealtime ⟨100, 0⟩ ⟨1700000000, 0⟩ ⟨2 ^ 63 - 1, 0⟩)
        (1700000000000000000 + ((2 ^ 63 - 1) * 1000000000 - 100000000000)) ∧
      ¬MeetsDeadline (a2iFutexDeadline ⟨1700000000, 0⟩ ⟨2 ^ 63 - 1, 0⟩)
        (1700000000000000000 + (2 ^ 63 - 1) * 1000000000) := by
  constructor
  · have hnone : a2iMonotonicToRealtime ⟨100, 0⟩ ⟨1700000000, 0⟩ ⟨2 ^ 63 - 1, 0⟩ = none := by decide
    rw [hnone]
    exact not_meetsDeadline_none _
  · have hnone : a2iFutexDeadline ⟨1700000000, 0⟩ ⟨2 ^ 63 - 1, 0⟩ = none := by decide
    rw [hnone]
    exact not_meetsDeadline_none _

/-- A wait on the monotonic clock lasts as long as it should: the deadline of the host is as far
from its clock as the time that was asked for is from the monotonic clock. -/
theorem a2iPthreadCondTimedwait_monotonic (wait : Timespec → ℤ) (hmono : monoNow.Reading)
    (hreal : realNow.Reading) (habs : absolute.Normal)
    (hfit : -2 ^ 63 * 1000000000 ≤ absolute.nanos - monoNow.nanos)
    (hfit' : realNow.nanos + (absolute.nanos - monoNow.nanos) < 2 ^ 63 * 1000000000) :
    ∃ deadline, a2iPthreadCondTimedwait wait (some 1) true (some absolute) monoNow realNow =
        some (wait deadline) ∧ deadline.Normal ∧
      deadline.nanos - realNow.nanos = absolute.nanos - monoNow.nanos := by
  obtain ⟨sec, nsec, heq, hsec, hnonneg, hlt, hsum⟩ :=
    monotonicToRealtime_of_le realNow hmono habs hfit
  rw [← hsum] at hfit' ⊢
  obtain ⟨r, hr, hnormal, hexact⟩ := advance_of_lt hreal hsec hnonneg hlt hfit'
  refine ⟨r, ?_, hnormal, by rw [hexact]; ring⟩
  rw [a2iPthreadCondTimedwait, if_pos rfl, heq, hr]
  rfl

end

end Apk2Ios
