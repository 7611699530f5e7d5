import Mathlib.Data.Nat.Cast.Order.Ring
import Mathlib.Tactic.Ring
import Apk2Ios.Lib.Reader

/-!
# Lengths in LEB128

A byte string of `k` bytes encodes a number below `128 ^ k`, and a signed one of half that size,
and different strings of one length encode different numbers.  So an encoder that needs no byte
too many gives the one shortest encoding.  A decoder with a register of `w` bits finds the signed
number modulo `2 ^ w` when no byte lies behind the register.
-/

namespace Apk2Ios.Lib

/-- `e` encodes `v`, and every other byte string that does is longer. -/
def Shortest {α : Type} (r : Reader α) (v : α) (e : Bytes) : Prop :=
  ∀ e', r e' = some (v, []) → e' = e ∨ e.length < e'.length

variable {b : UInt8} {bs e e' : Bytes} {n k : ℕ} {z : ℤ}

/-! ### Unsigned numbers -/

lemma uleb_cons_of_lt (hb : b.toNat < 128) (bs : Bytes) :
    Reader.uleb (b :: bs) = some (b.toNat, bs) := by
  rw [Reader.uleb, if_pos hb]

lemma uleb_cons_of_le (hb : 128 ≤ b.toNat) : Reader.uleb (b :: bs) = some (n, []) ↔
    ∃ m, Reader.uleb bs = some (m, []) ∧ n = b.toNat % 128 + 128 * m := by
  rw [Reader.uleb, if_neg (by omega), Option.map_eq_some_iff]
  constructor
  · rintro ⟨⟨m, _⟩, hm, heq⟩
    obtain ⟨rfl, rfl⟩ := Prod.mk.inj heq
    exact ⟨m, hm, rfl⟩
  · rintro ⟨m, hm, rfl⟩
    exact ⟨(m, []), hm, rfl⟩

/-- The length bounds the number. -/
lemma lt_of_uleb (h : Reader.uleb e = some (n, [])) : e ≠ [] ∧ n < 128 ^ e.length := by
  induction e generalizing n with
  | nil => exact absurd h (Option.some_ne_none _).symm
  | cons b bs ih =>
    refine ⟨List.cons_ne_nil b bs, ?_⟩
    rw [List.length_cons, Nat.pow_succ]
    rcases Nat.lt_or_ge b.toNat 128 with hb | hb
    · rw [uleb_cons_of_lt hb, Option.some.injEq, Prod.mk.injEq] at h
      have hpos := Nat.pow_pos (n := bs.length) (show 0 < 128 by decide)
      omega
    · obtain ⟨m, hm, rfl⟩ := (uleb_cons_of_le hb).mp h
      have hlt := (ih hm).2
      omega

/-- At each length a number has one encoding at most. -/
lemma uleb_unique (h : Reader.uleb e = some (n, [])) (h' : Reader.uleb e' = some (n, []))
    (hlen : e.length = e'.length) : e = e' := by
  induction e generalizing e' n with
  | nil => exact (List.length_eq_zero_iff.mp hlen.symm).symm
  | cons b bs ih =>
    obtain _ | ⟨b', bs'⟩ := e'
    · exact absurd hlen (Nat.succ_ne_zero _)
    replace hlen : bs.length = bs'.length := Nat.succ.inj hlen
    -- the first bytes end the number or do not; of equal length, both do or neither does
    rcases Nat.lt_or_ge b.toNat 128 with hb | hb
    · rw [uleb_cons_of_lt hb, Option.some.injEq, Prod.mk.injEq] at h
      obtain ⟨hn, rfl⟩ := h
      obtain rfl : bs' = [] := List.length_eq_zero_iff.mp hlen.symm
      rcases Nat.lt_or_ge b'.toNat 128 with hb' | hb'
      · rw [uleb_cons_of_lt hb', Option.some.injEq, Prod.mk.injEq] at h'
        rw [UInt8.toNat_inj.mp (hn.trans h'.1.symm)]
      · obtain ⟨m, hm, -⟩ := (uleb_cons_of_le hb').mp h'
        exact absurd rfl (lt_of_uleb hm).1
    · obtain ⟨m, hm, rfl⟩ := (uleb_cons_of_le hb).mp h
      rcases Nat.lt_or_ge b'.toNat 128 with hb' | hb'
      · rw [uleb_cons_of_lt hb', Option.some.injEq, Prod.mk.injEq] at h'
        obtain ⟨-, rfl⟩ := h'
        exact absurd (List.length_eq_zero_iff.mp hlen) (lt_of_uleb hm).1
      · obtain ⟨m', hm', heq⟩ := (uleb_cons_of_le hb').mp h'
        have hlow := b.toNat_lt
        have hlow' := b'.toNat_lt
        obtain rfl : m = m' := by omega
        rw [UInt8.toNat_inj.mp (show b.toNat = b'.toNat by omega), ih hm hm' hlen]

/-- An encoding that is as short as its number allows is the shortest. -/
lemma shortest_uleb (he : Encodes Reader.uleb n e)
    (hle : ∀ k, 0 < k → n < 128 ^ k → e.length ≤ k) : Shortest Reader.uleb n e := by
  intro e' h'
  obtain ⟨hne, hlt⟩ := lt_of_uleb h'
  rcases Nat.lt_or_eq_of_le (hle _ (List.length_pos_iff.mpr hne) hlt) with hshort | heq
  · exact .inr hshort
  · exact .inl (uleb_unique h' he.read_self heq.symm)

/-! ### Signed numbers -/

lemma sleb_cons_of_lt (hb : b.toNat < 128) : Reader.sleb (b :: bs) =
    some (if b.toNat < 64 then (b.toNat : ℤ) else b.toNat - 128, bs) := by
  rw [Reader.sleb, if_pos hb]

lemma sleb_cons_of_le (hb : 128 ≤ b.toNat) : Reader.sleb (b :: bs) = some (z, []) ↔
    ∃ y, Reader.sleb bs = some (y, []) ∧ z = b.toNat % 128 + 128 * y := by
  rw [Reader.sleb, if_neg (by omega), Option.map_eq_some_iff]
  constructor
  · rintro ⟨⟨y, _⟩, hy, heq⟩
    obtain ⟨rfl, rfl⟩ := Prod.mk.inj heq
    exact ⟨y, hy, rfl⟩
  · rintro ⟨y, hy, rfl⟩
    exact ⟨(y, []), hy, rfl⟩

/-- A signed number is the unsigned one in two's complement, of seven bits for each byte. -/
lemma exists_uleb_of_sleb (h : Reader.sleb e = some (z, [])) :
    ∃ n, Reader.uleb e = some (n, []) ∧
      (z = n ∧ 2 * n < 128 ^ e.length ∨ z = n - 128 ^ e.length ∧ 128 ^ e.length ≤ 2 * n) := by
  induction e generalizing z with
  | nil => exact absurd h (Option.some_ne_none _).symm
  | cons b bs ih =>
    rcases Nat.lt_or_ge b.toNat 128 with hb | hb
    · rw [sleb_cons_of_lt hb, Option.some.injEq, Prod.mk.injEq] at h
      obtain ⟨rfl, rfl⟩ := h
      refine ⟨b.toNat, uleb_cons_of_lt hb [], ?_⟩
      rw [List.length_singleton, pow_one, pow_one]
      split_ifs <;> omega
    · obtain ⟨y, hy, rfl⟩ := (sleb_cons_of_le hb).mp h
      obtain ⟨m, hm, hsign⟩ := ih hy
      refine ⟨b.toNat % 128 + 128 * m, (uleb_cons_of_le hb).mpr ⟨m, hm, rfl⟩, ?_⟩
      rw [List.length_cons, pow_succ, pow_succ]
      -- the sign is that of the bytes behind the first one
      have heven : (128 : ℕ) ^ bs.length % 2 = 0 := by
        have hne : bs.length ≠ 0 := fun hnil =>
          (lt_of_uleb hm).1 (List.length_eq_zero_iff.mp hnil)
        exact Nat.even_iff.mp ((by decide : Even 128).pow_of_ne_zero hne)
      rcases hsign with ⟨rfl, hlt⟩ | ⟨rfl, hle⟩
      · left
        push_cast
        omega
      · right
        push_cast
        omega

/-- The length bounds the number on both sides. -/
lemma bounds_of_sleb (h : Reader.sleb e = some (z, [])) :
    e ≠ [] ∧ -128 ^ e.length ≤ 2 * z ∧ 2 * z < 128 ^ e.length := by
  obtain ⟨n, hn, hsign⟩ := exists_uleb_of_sleb h
  obtain ⟨hne, hlt⟩ := lt_of_uleb hn
  have hlt' : (n : ℤ) < 128 ^ e.length := by exact_mod_cast hlt
  refine ⟨hne, ?_⟩
  rcases hsign with ⟨rfl, hpos⟩ | ⟨rfl, hneg⟩
  · have hpos' : 2 * (n : ℤ) < 128 ^ e.length := by exact_mod_cast hpos
    omega
  · have hneg' : 128 ^ e.length ≤ 2 * (n : ℤ) := by exact_mod_cast hneg
    omega

lemma sleb_unique (h : Reader.sleb e = some (z, [])) (h' : Reader.sleb e' = some (z, []))
    (hlen : e.length = e'.length) : e = e' := by
  obtain ⟨n, hn, hsign⟩ := exists_uleb_of_sleb h
  obtain ⟨n', hn', hsign'⟩ := exists_uleb_of_sleb h'
  have hlt := (lt_of_uleb hn).2
  have hlt' := (lt_of_uleb hn').2
  rw [← hlen] at hsign' hlt'
  have hcast : ((128 ^ e.length : ℕ) : ℤ) = 128 ^ e.length := by norm_cast
  rw [← hcast] at hsign hsign'
  obtain rfl : n = n' := by omega
  exact uleb_unique hn hn' hlen

lemma shortest_sleb (he : Encodes Reader.sleb z e)
    (hle : ∀ k, 0 < k → -128 ^ k ≤ 2 * z → 2 * z < 128 ^ k → e.length ≤ k) :
    Shortest Reader.sleb z e := by
  intro e' h'
  obtain ⟨hne, hlow, hhigh⟩ := bounds_of_sleb h'
  have hlen := hle _ (List.length_pos_iff.mpr hne) hlow hhigh
  rcases Nat.lt_or_eq_of_le hlen with hshort | heq
  · exact .inr hshort
  · exact .inl (sleb_unique h' he.read_self heq.symm)

/-! ### Decoding into a register -/

/-- Read a signed LEB128 number into a register of `w` bits, which has `value` in the bits below
`shift`.  The seven bits of a byte go to their place, and the sign of the last byte is extended
when there is room behind it.  A shift by `w` or more is undefined. -/
def Reader.slebRegister (w : ℕ) : BitVec w → ℕ → Reader (BitVec w)
  | _, _, [] => none
  | value, shift, b :: bs =>
    if shift < w then
      let value := value ||| BitVec.ofNat w (b.toNat % 128) <<< shift
      let shift := shift + 7
      if b.toNat < 128 then
        some (if 64 ≤ b.toNat ∧ shift < w then value ||| BitVec.allOnes w <<< shift else value, bs)
      else slebRegister w value shift bs
    else none

variable {w shift : ℕ} {value : BitVec w}

/-- Bits behind those of a register are added to it. -/
lemma or_shiftLeft_eq_add (hvalue : value.toNat < 2 ^ shift) (x : BitVec w) :
    value ||| x <<< shift = value + x <<< shift := by
  symm
  apply BitVec.add_eq_or_of_and_eq_zero
  ext i hi
  rw [BitVec.getElem_and, BitVec.getElem_zero, BitVec.getElem_shiftLeft]
  by_cases hlow : i < shift
  · simp [hlow]
  · have hbit : value[i] = false := by
      rw [← BitVec.getLsbD_eq_getElem, BitVec.getLsbD]
      exact Nat.testBit_lt_two_pow (hvalue.trans_le (Nat.pow_le_pow_right (by decide) (by omega)))
    rw [hbit, Bool.false_and]

lemma ofInt_shiftLeft (x : ℤ) (shift : ℕ) :
    BitVec.ofInt w x <<< shift = BitVec.ofInt w (x * 2 ^ shift) := by
  have hpow : BitVec.twoPow w shift = BitVec.ofInt w (2 ^ shift) := by
    rw [show (2 : ℤ) ^ shift = ((2 ^ shift : ℕ) : ℤ) by norm_cast, BitVec.ofInt_natCast]
    apply BitVec.eq_of_toNat_eq
    rw [BitVec.toNat_twoPow, BitVec.toNat_ofNat]
  rw [BitVec.shiftLeft_eq_mul_twoPow, hpow, BitVec.ofInt_mul]

/-- The sign bits. -/
lemma allOnes_shiftLeft (shift : ℕ) :
    BitVec.allOnes w <<< shift = BitVec.ofInt w (-2 ^ shift) := by
  have hones : BitVec.allOnes w = BitVec.ofInt w (-1) := by
    rw [BitVec.ofInt_neg, ← BitVec.neg_one_eq_allOnes]
    rfl
  rw [hones, ofInt_shiftLeft, neg_one_mul]

/-- The bits of one more byte. -/
lemma or_byte (hvalue : value.toNat < 2 ^ shift) (x : ℕ) :
    value ||| BitVec.ofNat w x <<< shift = value + BitVec.ofInt w (x * 2 ^ shift) := by
  rw [or_shiftLeft_eq_add hvalue, ← BitVec.ofInt_natCast, ofInt_shiftLeft]

lemma toNat_or_byte_lt (hvalue : value.toNat < 2 ^ shift) {x : ℕ} (hx : x < 128) :
    (value ||| BitVec.ofNat w x <<< shift).toNat < 2 ^ (shift + 7) := by
  rw [BitVec.toNat_or]
  apply Nat.or_lt_two_pow
  · exact hvalue.trans_le (Nat.pow_le_pow_right (by decide) (by omega))
  · rw [BitVec.toNat_shiftLeft, BitVec.toNat_ofNat, Nat.shiftLeft_eq]
    calc x % 2 ^ w * 2 ^ shift % 2 ^ w ≤ x % 2 ^ w * 2 ^ shift := Nat.mod_le _ _
      _ ≤ x * 2 ^ shift := Nat.mul_le_mul_right _ (Nat.mod_le _ _)
      _ < 2 ^ 7 * 2 ^ shift := Nat.mul_lt_mul_of_pos_right hx (Nat.two_pow_pos shift)
      _ = 2 ^ (shift + 7) := by rw [← Nat.pow_add, Nat.add_comm]

/-- The last byte brings the sign. -/
lemma slebRegister_last (hb : b.toNat < 128) (hvalue : value.toNat < 2 ^ shift) (hroom : shift < w)
    (rest : Bytes) : Reader.slebRegister w value shift (b :: rest) =
      some (value +
        BitVec.ofInt w ((if b.toNat < 64 then (b.toNat : ℤ) else b.toNat - 128) * 2 ^ shift),
        rest) := by
  have hbyte := toNat_or_byte_lt hvalue hb
  rw [Reader.slebRegister, if_pos hroom, Nat.mod_eq_of_lt hb]
  dsimp only
  rw [if_pos hb]
  refine congrArg some (Prod.ext ?_ rfl)
  show (if _ then _ else _) = _
  by_cases hsign : 64 ≤ b.toNat
  · have hnegative : (b.toNat - 128 : ℤ) * 2 ^ shift =
        b.toNat * 2 ^ shift + -2 ^ (shift + 7) := by
      rw [pow_add]
      ring
    rw [if_neg (by omega : ¬b.toNat < 64), hnegative, BitVec.ofInt_add, ← BitVec.add_assoc,
      ← or_byte hvalue]
    by_cases hend : shift + 7 < w
    · rw [if_pos ⟨hsign, hend⟩, or_shiftLeft_eq_add hbyte, allOnes_shiftLeft]
    · -- the sign bits lie behind the register
      have hzero : BitVec.ofInt w (-2 ^ (shift + 7)) = 0#w := by
        rw [← allOnes_shiftLeft, BitVec.shiftLeft_eq_zero (by omega)]
      rw [if_neg fun h ↦ hend h.2, hzero, BitVec.add_zero]
  · rw [if_neg fun h ↦ hsign h.1, or_byte hvalue, if_pos (by omega)]

/-- **The register has the number modulo `2 ^ w`**, as long as every byte has a bit in it. -/
theorem slebRegister_append (h : Reader.sleb e = some (z, [])) (hvalue : value.toNat < 2 ^ shift)
    (hroom : shift + 7 * e.length < w + 7) (rest : Bytes) :
    Reader.slebRegister w value shift (e ++ rest) =
      some (value + BitVec.ofInt w (z * 2 ^ shift), rest) := by
  induction e generalizing z value shift with
  | nil => exact absurd h (Option.some_ne_none _).symm
  | cons b bs ih =>
    rw [List.length_cons] at hroom
    rcases Nat.lt_or_ge b.toNat 128 with hb | hb
    · rw [sleb_cons_of_lt hb, Option.some.injEq, Prod.mk.injEq] at h
      obtain ⟨rfl, rfl⟩ := h
      exact slebRegister_last hb hvalue (by omega) rest
    · obtain ⟨y, hy, rfl⟩ := (sleb_cons_of_le hb).mp h
      have hne := List.length_pos_iff.mpr (bounds_of_sleb hy).1
      have hbyte := toNat_or_byte_lt hvalue (Nat.mod_lt b.toNat (by decide : 0 < 128))
      have hsum : ((b.toNat % 128 : ℕ) : ℤ) * 2 ^ shift + y * 2 ^ (shift + 7) =
          (b.toNat % 128 + 128 * y) * 2 ^ shift := by
        rw [pow_add]
        push_cast
        ring
      rw [List.cons_append, Reader.slebRegister, if_pos (by omega)]
      dsimp only
      rw [if_neg (by omega), ih hy hbyte (by omega), or_byte hvalue, BitVec.add_assoc,
        ← BitVec.ofInt_add, hsum]

end Apk2Ios.Lib
