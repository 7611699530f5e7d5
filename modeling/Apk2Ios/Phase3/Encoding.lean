import Mathlib.Data.Nat.Bitwise
import Mathlib.Tactic.NormNum
import Apk2Ios.Lib.Reader

/-!
# Phase 3: numbers

The arithmetic helpers at the top of the Phase 3 translator: alignment, protections and the
two LEB128 encoders.
-/

namespace Apk2Ios

open Lib

/-! ### Alignment -/

/-- `x & ~(m - 1)` on non-negative integers; for `m = 0` the mask is `~(-1) = 0`. -/
def maskBelow (x m : ℕ) : ℕ := if m = 0 then 0 else x - (x &&& (m - 1))

/-- `_align(value, alignment)`. -/
def align (value alignment : ℕ) : ℕ := maskBelow (value + alignment - 1) alignment

/-- `_floor(value, alignment)`. -/
def floor (value alignment : ℕ) : ℕ := maskBelow value alignment

lemma le_align {v a : ℕ} (ha : 0 < a) : v ≤ align v a := by
  have hand : (v + a - 1) &&& (a - 1) ≤ a - 1 := Nat.and_le_right
  rw [align, maskBelow, if_neg (by omega)]
  omega

lemma floor_le (v a : ℕ) : floor v a ≤ v := by
  rw [floor, maskBelow]
  split <;> omega

lemma maskBelow_two_pow (x k : ℕ) : maskBelow x (2 ^ k) = x / 2 ^ k * 2 ^ k := by
  have hpos := Nat.two_pow_pos k
  have hdiv := Nat.div_add_mod' x (2 ^ k)
  rw [maskBelow, if_neg (by omega), Nat.and_two_pow_sub_one_eq_mod]
  omega

/-- A page size: a power of two. -/
def IsPage (p : ℕ) : Prop := ∃ k, p = 2 ^ k

lemma IsPage.pos {p : ℕ} (hp : IsPage p) : 0 < p := by
  obtain ⟨k, rfl⟩ := hp
  exact Nat.two_pow_pos k

section Page

variable {p : ℕ} (hp : IsPage p)
include hp

lemma floor_eq (v : ℕ) : floor v p = v / p * p := by
  obtain ⟨k, rfl⟩ := hp
  exact maskBelow_two_pow v k

lemma align_eq (v : ℕ) : align v p = (v + p - 1) / p * p := by
  obtain ⟨k, rfl⟩ := hp
  exact maskBelow_two_pow _ k

lemma dvd_align (v : ℕ) : p ∣ align v p := by
  rw [align_eq hp]
  exact Nat.dvd_mul_left p _

lemma dvd_floor (v : ℕ) : p ∣ floor v p := by
  rw [floor_eq hp]
  exact Nat.dvd_mul_left p _

/-- `align` is the least multiple above. -/
lemma align_le_iff {v w : ℕ} (hw : p ∣ w) : align v p ≤ w ↔ v ≤ w := by
  constructor
  · exact (le_align hp.pos).trans
  · intro h
    obtain ⟨c, rfl⟩ := hw
    rw [align_eq hp, Nat.mul_comm p c]
    refine Nat.mul_le_mul_right p ?_
    rw [Nat.div_le_iff_le_mul_add_pred hp.pos]
    omega

/-- `floor` is the greatest multiple below. -/
lemma le_floor_iff {v w : ℕ} (hw : p ∣ w) : w ≤ floor v p ↔ w ≤ v := by
  constructor
  · exact fun h => h.trans (floor_le v p)
  · intro h
    obtain ⟨c, rfl⟩ := hw
    rw [floor_eq hp, Nat.mul_comm p c]
    refine Nat.mul_le_mul_right p ((Nat.le_div_iff_mul_le hp.pos).mpr ?_)
    rwa [Nat.mul_comm]

lemma align_of_dvd {v : ℕ} (hv : p ∣ v) : align v p = v :=
  le_antisymm ((align_le_iff hp hv).mpr le_rfl) (le_align hp.pos)

lemma align_mono {v w : ℕ} (h : v ≤ w) : align v p ≤ align w p :=
  (align_le_iff hp (dvd_align hp w)).mpr (h.trans (le_align hp.pos))

lemma align_add_of_dvd {v w : ℕ} (hv : p ∣ v) : v + align w p = align (v + w) p := by
  obtain ⟨c, rfl⟩ := hv
  rw [align_eq hp, align_eq hp, show p * c + w + p - 1 = w + p - 1 + p * c by
    have := hp.pos; omega, Nat.add_mul_div_left _ _ hp.pos, Nat.add_mul]
  ring

end Page

/-- `_mach_prot(elf_flags)`. -/
def machProt (elfFlags : ℕ) : ℕ :=
  (if elfFlags &&& 4 ≠ 0 then 1 else 0) ||| (if elfFlags &&& 2 ≠ 0 then 2 else 0) |||
    (if elfFlags &&& 1 ≠ 0 then 4 else 0)

lemma machProt_lt (elfFlags : ℕ) : machProt elfFlags < 8 := by
  unfold machProt
  split_ifs <;> decide

/-! ### LEB128 -/

lemma low7_or_high {n : ℕ} : (n &&& 0x7F) ||| 0x80 = n % 128 + 128 := by
  have hmod : n &&& 0x7F = n % 128 := Nat.and_two_pow_sub_one_eq_mod n 7
  have hlt : n % 128 < 2 ^ 7 := Nat.mod_lt n (by decide)
  have hor : 128 + n % 128 = 128 ||| n % 128 := Nat.two_pow_add_eq_or_of_lt hlt 1
  rw [hmod, Nat.or_comm, ← hor, Nat.add_comm]

lemma int_shiftRight_seven (z : ℤ) : z >>> (7 : ℕ) = z / 128 := by
  rw [Int.shiftRight_eq_div_pow]
  norm_num

lemma bit6_eq_zero_iff {n : ℕ} (h : n < 128) : n &&& 0x40 = 0 ↔ n < 64 := by
  revert n
  decide

/-- The last byte of a signed number is the one whose seven bits hold it with its sign. -/
lemma sleb_done_iff (z : ℤ) :
    (z >>> (7 : ℕ) = 0 ∧ (z % 128).toNat &&& 0x40 = 0 ∨
      z >>> (7 : ℕ) = -1 ∧ (z % 128).toNat &&& 0x40 ≠ 0) ↔ -64 ≤ z ∧ z < 64 := by
  have hbyte : (z % 128).toNat < 128 := by omega
  rw [ne_eq, bit6_eq_zero_iff hbyte, int_shiftRight_seven]
  omega

/-- A signed number that needs more bytes is nearer to zero without its last seven bits. -/
lemma natAbs_shiftRight_lt {z : ℤ} (h : ¬(z >>> (7 : ℕ) = 0 ∧ (z % 128).toNat &&& 0x40 = 0 ∨
    z >>> (7 : ℕ) = -1 ∧ (z % 128).toNat &&& 0x40 ≠ 0)) : (z >>> (7 : ℕ)).natAbs < z.natAbs := by
  rw [sleb_done_iff] at h
  rw [int_shiftRight_seven]
  rcases Int.le_total 0 z with h0 | h0
  · exact Int.natAbs_lt_natAbs_of_nonneg_of_lt (by omega) (by omega)
  · rw [← Int.natAbs_neg, ← Int.natAbs_neg z]
    exact Int.natAbs_lt_natAbs_of_nonneg_of_lt (by omega) (by omega)

/-- `_uleb128(value)`; the arguments are never negative. -/
def uleb128 (value : ℕ) : Bytes :=
  if value >>> 7 = 0 then [UInt8.ofNat (value &&& 0x7F)]
  else UInt8.ofNat (value &&& 0x7F ||| 0x80) :: uleb128 (value >>> 7)
termination_by value
decreasing_by
  rw [Nat.shiftRight_eq_div_pow] at *
  omega

/-- `_sleb128(value)`.  On integers `value & 0x7F` is the remainder modulo 128. -/
def sleb128 (value : ℤ) : Bytes :=
  let byte := (value % 128).toNat
  let next := value >>> (7 : ℕ)
  if next = 0 ∧ byte &&& 0x40 = 0 ∨ next = -1 ∧ byte &&& 0x40 ≠ 0 then [UInt8.ofNat byte]
  else UInt8.ofNat (byte ||| 0x80) :: sleb128 next
termination_by value.natAbs
decreasing_by exact natAbs_shiftRight_lt ‹_›

lemma shiftRight_seven (n : ℕ) : n >>> 7 = n / 128 := Nat.shiftRight_eq_div_pow n 7

lemma uleb128_of_lt {n : ℕ} (h : n < 128) : uleb128 n = [UInt8.ofNat n] := by
  have hlow : n &&& 0x7F = n := by
    rw [Nat.and_two_pow_sub_one_eq_mod n 7, Nat.mod_eq_of_lt h]
  rw [uleb128, shiftRight_seven, if_pos (by omega), hlow]

lemma uleb128_of_le {n : ℕ} (h : 128 ≤ n) :
    uleb128 n = UInt8.ofNat (n % 128 + 128) :: uleb128 (n / 128) := by
  rw [uleb128, shiftRight_seven, if_neg (by omega), low7_or_high]

lemma sleb128_of_done {z : ℤ} (h : -64 ≤ z ∧ z < 64) :
    sleb128 z = [UInt8.ofNat (z % 128).toNat] := by
  rw [sleb128, if_pos ((sleb_done_iff z).mpr h)]

lemma sleb128_of_not_done {z : ℤ} (h : ¬(-64 ≤ z ∧ z < 64)) :
    sleb128 z = UInt8.ofNat ((z % 128).toNat + 128) :: sleb128 (z / 128) := by
  have hbyte : (z % 128).toNat < 128 := by omega
  have hor := low7_or_high (n := (z % 128).toNat)
  rw [Nat.and_two_pow_sub_one_eq_mod _ 7, Nat.mod_eq_of_lt hbyte] at hor
  rw [sleb128, if_neg (mt (sleb_done_iff z).mp h), hor, int_shiftRight_seven]

lemma encodes_uleb128 (n : ℕ) : Encodes Reader.uleb n (uleb128 n) := by
  induction n using Nat.strongRecOn with
  | ind n ih =>
    rcases Nat.lt_or_ge n 128 with h | h
    · have hlt := toNat_ofNat_of_lt (show n < 256 by omega)
      have henc := Encodes.uleb_last (b := UInt8.ofNat n) (by omega)
      rwa [hlt, ← uleb128_of_lt h] at henc
    · have hlt := toNat_ofNat_of_lt (show n % 128 + 128 < 256 by omega)
      have henc := Encodes.uleb_more (b := UInt8.ofNat (n % 128 + 128)) (by omega)
        (ih (n / 128) (by omega))
      rw [hlt, ← uleb128_of_le h] at henc
      convert henc using 1
      omega

lemma encodes_sleb128 (z : ℤ) : Encodes Reader.sleb z (sleb128 z) := by
  induction z using sleb128.induct with
  | case1 z byte next h =>
    have hlt := toNat_ofNat_of_lt (show byte < 256 by omega)
    have henc := Encodes.sleb_last (b := UInt8.ofNat byte) (by omega)
    rw [sleb_done_iff] at h
    rw [sleb128_of_done h]
    rw [hlt] at henc
    convert henc using 1
    split <;> omega
  | case2 z byte next h ih =>
    have hlt := toNat_ofNat_of_lt (show byte + 128 < 256 by omega)
    have hnext : next = z / 128 := int_shiftRight_seven z
    rw [hnext] at ih
    have henc := Encodes.sleb_more (b := UInt8.ofNat (byte + 128)) (by omega) ih
    rw [sleb128_of_not_done (mt (sleb_done_iff z).mpr h)]
    rw [hlt] at henc
    convert henc using 1
    omega

end Apk2Ios
