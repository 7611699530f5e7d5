import Apk2Ios.MachO.Dyld
import Apk2Ios.Phase3.Encoding

/-!
# LEB128 of both phases

Phase 3 and Phase 4 have a `_uleb128` each, which differ in what they raise, and `_sleb128` is in
Phase 3 only.  Their loops are compared with the encoders of the streams, and these with what a
reader of LEB128 and the dynamic linker find.
-/

namespace Apk2Ios

open Lib MachO

/-! ### The encoders -/

/-- What `_uleb128` raises: a `Phase3Error` in Phase 3 and a `ValueError` in Phase 4. -/
inductive UlebError where
  | phase3
  | value
deriving DecidableEq, Repr

def UlebError.message : UlebError → String
  | .phase3 => "ULEB128 cannot encode a negative value"
  | .value => "ULEB128 requires non-negative value"

/-- The loop of `_uleb128`, with the bytes that are in `out`. -/
def ulebLoop (out : Bytes) (value : ℕ) : Bytes :=
  let byte := value &&& 0x7F
  let next := value >>> 7
  let byte := if next ≠ 0 then byte ||| 0x80 else byte
  if next = 0 then out ++ [UInt8.ofNat byte] else ulebLoop (out ++ [UInt8.ofNat byte]) next
termination_by value
decreasing_by
  rw [Nat.shiftRight_eq_div_pow] at *
  omega

/-- A `_uleb128` that raises `e`. -/
def ulebOrRaise (e : UlebError) (value : ℤ) : Except UlebError Bytes :=
  if value < 0 then .error e else .ok (ulebLoop [] value.toNat)

/-- `_uleb128(value)` of Phase 3. -/
def Phase3.uleb128 (value : ℤ) : Except UlebError Bytes := ulebOrRaise .phase3 value

/-- `_uleb128(value)` of Phase 4. -/
def Phase4.uleb128 (value : ℤ) : Except UlebError Bytes := ulebOrRaise .value value

/-- The loop of `_sleb128`, with the bytes that are in `out`. -/
def slebLoop (out : Bytes) (value : ℤ) : Bytes :=
  let byte := (value % 128).toNat
  let next := value >>> (7 : ℕ)
  let done := next = 0 ∧ byte &&& 0x40 = 0 ∨ next = -1 ∧ byte &&& 0x40 ≠ 0
  let byte' := if done then byte else byte ||| 0x80
  if done then out ++ [UInt8.ofNat byte'] else slebLoop (out ++ [UInt8.ofNat byte']) next
termination_by value.natAbs
decreasing_by exact natAbs_shiftRight_lt ‹_›

/-- `_sleb128(value)`. -/
def Phase3.sleb128 (value : ℤ) : Bytes := slebLoop [] value

/-! ### The loops -/

lemma ulebLoop_eq (out : Bytes) (n : ℕ) : ulebLoop out n = out ++ uleb128 n := by
  induction n using Nat.strongRecOn generalizing out with
  | ind n ih =>
    rw [ulebLoop, uleb128]
    by_cases h : n >>> 7 = 0
    · rw [if_pos h, if_pos h, if_neg (not_not_intro h)]
    · have hlt : n >>> 7 < n := by
        rw [shiftRight_seven] at *
        omega
      rw [if_neg h, if_neg h, if_pos h, ih _ hlt, List.append_assoc, List.singleton_append]

lemma slebLoop_eq (out : Bytes) (z : ℤ) : slebLoop out z = out ++ sleb128 z := by
  induction z using sleb128.induct generalizing out with
  | case1 z byte next h =>
    rw [slebLoop, sleb128, if_pos h, if_pos h, if_pos h]
  | case2 z byte next h ih =>
    rw [slebLoop, sleb128, if_neg h, if_neg h, if_neg h, ih, List.append_assoc,
      List.singleton_append]

/-- Both encoders give the bytes of the streams. -/
lemma ulebOrRaise_natCast (e : UlebError) (n : ℕ) : ulebOrRaise e n = .ok (uleb128 n) := by
  rw [ulebOrRaise, if_neg (by omega), Int.toNat_natCast, ulebLoop_eq, List.nil_append]

/-! ### Lengths -/

/-- An unsigned number has no byte more than it needs. -/
lemma length_uleb128_le {n k : ℕ} (hk : 0 < k) (h : n < 128 ^ k) : (uleb128 n).length ≤ k := by
  induction k, hk using Nat.le_induction generalizing n with
  | base =>
    rw [uleb128_of_lt h, List.length_singleton]
  | succ k hk ih =>
    rcases Nat.lt_or_ge n 128 with hn | hn
    · rw [uleb128_of_lt hn, List.length_singleton]
      omega
    · have hdiv : n / 128 < 128 ^ k := Nat.div_lt_of_lt_mul (by rwa [← Nat.pow_succ'])
      rw [uleb128_of_le hn, List.length_cons]
      exact Nat.succ_le_succ (ih hdiv)

/-- A signed number has no byte more than it needs. -/
lemma length_sleb128_le {z : ℤ} {k : ℕ} (hk : 0 < k) (hlow : -128 ^ k ≤ 2 * z)
    (hhigh : 2 * z < 128 ^ k) : (sleb128 z).length ≤ k := by
  induction k, hk using Nat.le_induction generalizing z with
  | base =>
    rw [sleb128_of_done (by omega), List.length_singleton]
  | succ k hk ih =>
    by_cases hz : -64 ≤ z ∧ z < 64
    · rw [sleb128_of_done hz, List.length_singleton]
      omega
    · obtain ⟨c, hc⟩ : (2 : ℤ) ∣ 128 ^ k := dvd_pow (by decide) (by omega)
      rw [pow_succ, hc] at hlow hhigh
      rw [hc] at ih
      rw [sleb128_of_not_done hz, List.length_cons]
      exact Nat.succ_le_succ (ih (by omega) (by omega))

lemma shortest_uleb128 (n : ℕ) : Shortest Reader.uleb n (uleb128 n) :=
  shortest_uleb (encodes_uleb128 n) fun _ hk h ↦ length_uleb128_le hk h

lemma shortest_sleb128 (z : ℤ) : Shortest Reader.sleb z (sleb128 z) :=
  shortest_sleb (encodes_sleb128 z) fun _ hk hlow hhigh ↦ length_sleb128_le hk hlow hhigh

/-- A larger number is at least as long. -/
lemma length_uleb128_mono {m n : ℕ} (h : m ≤ n) : (uleb128 m).length ≤ (uleb128 n).length := by
  obtain ⟨hne, hlt⟩ := lt_of_uleb (encodes_uleb128 n).read_self
  exact length_uleb128_le (List.length_pos_iff.mpr hne) (h.trans_lt hlt)

/-- What has 66 bits with its sign is read modulo `2 ^ 64`. -/
lemma readSleb128_sleb128 {z : ℤ} (hlow : -2 ^ 65 ≤ z) (hhigh : z < 2 ^ 65) (rest : Bytes) :
    readSleb128 (sleb128 z ++ rest) = some (BitVec.ofInt 64 z, rest) := by
  have hlen : (sleb128 z).length ≤ 10 := length_sleb128_le (by decide) (by omega) (by omega)
  exact readSleb128_append (encodes_sleb128 z).read_self hlen rest

/-! ### What the encoders promise -/

/-- **LEB128 is exact and delimits itself.**  The encoders of both phases give the same bytes, from
which a reader has the number and leaves what follows, and so does `_sleb128` for a signed number.
Every other encoding is longer, and the length of an unsigned one grows with the number.  The
dynamic linker has a signed number modulo `2 ^ 64`. -/
theorem leb128_exact :
    (∀ n : ℕ, ∃ e, Phase3.uleb128 n = .ok e ∧ Phase4.uleb128 n = .ok e ∧
      Encodes Reader.uleb n e ∧ Shortest Reader.uleb n e) ∧
    (∀ z : ℤ, Encodes Reader.sleb z (Phase3.sleb128 z) ∧
      Shortest Reader.sleb z (Phase3.sleb128 z)) ∧
    (∀ m n : ℕ, m ≤ n → ∀ e f, Phase3.uleb128 m = .ok e → Phase3.uleb128 n = .ok f →
      e.length ≤ f.length) ∧
    ∀ z : ℤ, -2 ^ 63 ≤ z → z < 2 ^ 64 + 2 ^ 63 → ∀ rest,
      ∃ r, readSleb128 (Phase3.sleb128 z ++ rest) = some (r, rest) ∧
        (r.toNat : ℤ) = z % 2 ^ 64 := by
  refine ⟨fun n ↦ ?_, fun z ↦ ?_, fun m n hmn e f he hf ↦ ?_, fun z hlow hhigh rest ↦ ?_⟩
  · exact ⟨uleb128 n, ulebOrRaise_natCast _ n, ulebOrRaise_natCast _ n, encodes_uleb128 n,
      shortest_uleb128 n⟩
  · rw [Phase3.sleb128, slebLoop_eq, List.nil_append]
    exact ⟨encodes_sleb128 z, shortest_sleb128 z⟩
  · rw [Phase3.uleb128, ulebOrRaise_natCast, Except.ok.injEq] at he hf
    subst he hf
    exact length_uleb128_mono hmn
  · rw [Phase3.sleb128, slebLoop_eq, List.nil_append]
    refine ⟨_, readSleb128_sleb128 (by omega) (by omega) rest, ?_⟩
    rw [BitVec.toNat_ofInt]
    omega

/-- Two numbers on the two sides of a bound, and a negative one. -/
theorem leb128_exact_small :
    (∀ e f, Phase3.uleb128 127 = .ok e → Phase3.uleb128 128 = .ok f → e.length ≤ f.length) ∧
    ∃ r, readSleb128 (Phase3.sleb128 (-129) ++ [7]) = some (r, [7]) ∧
      (r.toNat : ℤ) = -129 % 2 ^ 64 :=
  ⟨leb128_exact.2.2.1 127 128 (by decide), leb128_exact.2.2.2 (-129) (by decide) (by decide) [7]⟩

example : readSleb128 [0xFF, 0x7E, 7] = some (BitVec.ofInt 64 (-129), [7]) := by decide

end Apk2Ios
