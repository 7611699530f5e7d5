import Mathlib.Data.List.Basic
import Mathlib.Tactic.Ring

/-!
# Byte strings

Little-endian numbers and in-place assignment on lists of bytes.  Two views of a byte
string are used side by side: as a concatenation of fields, for writing and reading
records one after another, and position by position, for what an assignment leaves
unchanged.
-/

namespace Apk2Ios.Lib

/-- A byte string. -/
abbrev Bytes := List UInt8

/-! ### Little-endian numbers -/

/-- The `k` bytes of `n` modulo `256 ^ k`, least significant first. -/
def leBytes : ℕ → ℕ → Bytes
  | 0, _ => []
  | k + 1, n => UInt8.ofNat (n % 256) :: leBytes k (n / 256)

/-- The number whose little-endian bytes are given. -/
def leNat : Bytes → ℕ
  | [] => 0
  | b :: bs => b.toNat + 256 * leNat bs

@[simp] lemma length_leBytes (k n : ℕ) : (leBytes k n).length = k := by
  induction k generalizing n with
  | zero => rfl
  | succ k ih => simp [leBytes, ih]

lemma toNat_ofNat_of_lt {n : ℕ} (h : n < 256) : (UInt8.ofNat n).toNat = n := by
  simp [Nat.mod_eq_of_lt h]

lemma leNat_leBytes (k n : ℕ) : leNat (leBytes k n) = n % 256 ^ k := by
  induction k generalizing n with
  | zero => simp [leBytes, leNat, Nat.mod_one]
  | succ k ih =>
    have hlt : n % 256 < 256 := Nat.mod_lt _ (by omega)
    rw [leBytes, leNat, ih, toNat_ofNat_of_lt hlt, pow_succ', Nat.mod_mul]

lemma leNat_leBytes_of_lt {k n : ℕ} (h : n < 256 ^ k) : leNat (leBytes k n) = n := by
  rw [leNat_leBytes, Nat.mod_eq_of_lt h]

lemma leNat_lt (bs : Bytes) : leNat bs < 256 ^ bs.length := by
  induction bs with
  | nil => simp [leNat]
  | cons b bs ih =>
    have hb := b.toNat_lt
    rw [leNat, List.length_cons, pow_succ']
    omega

lemma leBytes_leNat (bs : Bytes) : leBytes bs.length (leNat bs) = bs := by
  induction bs with
  | nil => rfl
  | cons b bs ih =>
    have hb := b.toNat_lt
    have hmod : (b.toNat + 256 * leNat bs) % 256 = b.toNat := by omega
    have hdiv : (b.toNat + 256 * leNat bs) / 256 = leNat bs := by omega
    rw [leNat, List.length_cons, leBytes, hmod, hdiv, ih, UInt8.ofNat_toNat]

/-! ### Slices and assignment -/

/-- The bytes `bs[off : off + n]`. -/
def slice (bs : Bytes) (off n : ℕ) : Bytes := (bs.drop off).take n

/-- The assignment `img[lo : lo + n] = bs`, which changes the length of `img` when `bs`
does not have `n` bytes. -/
def sliceAssign (img : Bytes) (lo n : ℕ) (bs : Bytes) : Bytes :=
  img.take lo ++ bs ++ img.drop (lo + n)

/-- The byte string cut or filled with zeros to length `n`. -/
def resize (bs : Bytes) (n : ℕ) : Bytes :=
  if bs.length < n then bs ++ List.replicate (n - bs.length) 0 else bs.take n

@[simp] lemma length_resize (bs : Bytes) (n : ℕ) : (resize bs n).length = n := by
  rw [resize]
  split
  · rw [List.length_append, List.length_replicate]
    omega
  · rw [List.length_take]
    omega

lemma getElem?_resize {bs : Bytes} {n i : ℕ} (hn : i < n) (hi : i < bs.length) :
    (resize bs n)[i]? = bs[i]? := by
  rw [resize]
  split
  · rw [List.getElem?_append_left hi]
  · rw [List.getElem?_take, if_pos hn]

lemma length_slice (bs : Bytes) (off n : ℕ) :
    (slice bs off n).length = min n (bs.length - off) := by
  simp [slice]

lemma length_slice_of_le {bs : Bytes} {off n : ℕ} (h : off + n ≤ bs.length) :
    (slice bs off n).length = n := by
  rw [length_slice]
  omega

lemma getElem?_slice (bs : Bytes) (off n i : ℕ) :
    (slice bs off n)[i]? = if i < n then bs[off + i]? else none := by
  simp only [slice, List.getElem?_take, List.getElem?_drop]

/-- Two byte strings have the same slices where they have the same bytes. -/
lemma slice_congr {bs bs' : Bytes} {off off' n : ℕ}
    (h : ∀ i < n, bs[off + i]? = bs'[off' + i]?) : slice bs off n = slice bs' off' n := by
  apply List.ext_getElem?
  intro i
  rw [getElem?_slice, getElem?_slice]
  split
  · exact h i ‹_›
  · rfl

/-- Two slices next to each other. -/
lemma slice_append_slice (bs : Bytes) (off m n : ℕ) :
    slice bs off m ++ slice bs (off + m) n = slice bs off (m + n) := by
  rw [slice, slice, slice, List.take_add, List.drop_drop]

lemma length_sliceAssign {img bs : Bytes} {lo n : ℕ} (hn : bs.length = n)
    (h : lo + n ≤ img.length) : (sliceAssign img lo n bs).length = img.length := by
  simp only [sliceAssign, List.length_append, List.length_take, List.length_drop]
  omega

/-- An assignment to a part between two others. -/
lemma sliceAssign_append {a b c bs : Bytes} {lo n : ℕ} (ha : a.length = lo) (hb : b.length = n) :
    sliceAssign (a ++ (b ++ c)) lo n bs = a ++ (bs ++ c) := by
  have hdrop : (a ++ (b ++ c)).drop (lo + n) = c := by
    rw [← List.append_assoc, List.drop_left' (by rw [List.length_append, ha, hb])]
  rw [sliceAssign, List.take_left' ha, hdrop, List.append_assoc]

/-- An assignment of the right length changes the assigned bytes only. -/
lemma getElem?_sliceAssign {img bs : Bytes} {lo n : ℕ} (hn : bs.length = n)
    (hlo : lo ≤ img.length) (i : ℕ) :
    (sliceAssign img lo n bs)[i]? =
      if lo ≤ i ∧ i < lo + n then bs[i - lo]? else img[i]? := by
  have htake : (img.take lo).length = lo := by simp [hlo]
  simp only [sliceAssign, List.append_assoc]
  by_cases h1 : i < lo
  · rw [List.getElem?_append_left (by omega), List.getElem?_take, if_pos h1,
      if_neg (by omega)]
  · rw [List.getElem?_append_right (by omega), htake]
    by_cases h2 : i < lo + n
    · rw [List.getElem?_append_left (by omega), if_pos ⟨by omega, h2⟩]
    · rw [List.getElem?_append_right (by omega), List.getElem?_drop, if_neg (by omega)]
      congr 1
      omega

lemma slice_sliceAssign_self {img bs : Bytes} {lo n : ℕ} (hn : bs.length = n)
    (hlo : lo ≤ img.length) : slice (sliceAssign img lo n bs) lo n = bs := by
  apply List.ext_getElem?
  intro i
  rw [getElem?_slice]
  by_cases hi : i < n
  · rw [if_pos hi, getElem?_sliceAssign hn hlo, if_pos ⟨by omega, by omega⟩]
    congr 1
    omega
  · rw [if_neg hi, List.getElem?_eq_none (by omega)]

/-- A slice that does not meet the assigned bytes is unchanged. -/
lemma slice_sliceAssign_of_disjoint {img bs : Bytes} {lo n off m : ℕ} (hn : bs.length = n)
    (hlo : lo ≤ img.length) (h : off + m ≤ lo ∨ lo + n ≤ off) :
    slice (sliceAssign img lo n bs) off m = slice img off m := by
  apply slice_congr
  intro i hi
  rw [getElem?_sliceAssign hn hlo, if_neg (by omega)]

lemma slice_append_left {a b : Bytes} {off n : ℕ} (h : off + n ≤ a.length) :
    slice (a ++ b) off n = slice a off n := by
  apply slice_congr
  intro i hi
  rw [List.getElem?_append_left (by omega)]

@[simp] lemma slice_zero_length (bs : Bytes) : slice bs 0 bs.length = bs := by
  simp [slice]

end Apk2Ios.Lib
