import Apk2Ios.Lib.Bytes

/-!
# UTF-8

The bytes of a string, and the total decoder that puts U+FFFD in place of every maximal
ill-formed subsequence.
-/

namespace Apk2Ios.Lib

/-- The UTF-8 bytes of a string. -/
def utf8 (s : String) : Bytes := s.toByteArray.data.toList

/-- A string without the character NUL. -/
def NulFree (s : String) : Prop := '\x00' ∉ s.toList

instance (s : String) : Decidable (NulFree s) := inferInstanceAs (Decidable (_ ∉ _))

lemma utf8_eq_flatMap (s : String) : utf8 s = s.toList.flatMap String.utf8EncodeChar := by
  rw [utf8, ← String.utf8Encode_toList, List.utf8Encode]
  simp

@[simp] lemma utf8_append (s t : String) : utf8 (s ++ t) = utf8 s ++ utf8 t := by
  simp [utf8_eq_flatMap]

lemma utf8_injective : Function.Injective utf8 := by
  intro s t h
  apply String.toByteArray_inj.mp
  apply ByteArray.ext
  exact Array.toList_inj.mp h

@[simp] lemma utf8_inj {s t : String} : utf8 s = utf8 t ↔ s = t := utf8_injective.eq_iff

lemma zero_mem_utf8EncodeChar {c : Char} :
    (0 : UInt8) ∈ String.utf8EncodeChar c ↔ c = '\x00' := by
  constructor
  · intro h
    have hval : c.val.toNat = 0 := by
      simp only [String.utf8EncodeChar] at h
      split_ifs at h <;>
        simp only [List.mem_cons, List.not_mem_nil, or_false, ← UInt8.toNat_inj,
          UInt8.toNat_zero, UInt8.toNat_ofNat'] at h <;> omega
    apply Char.ext
    apply UInt32.toNat_inj.mp
    rw [hval]
    rfl
  · rintro rfl
    decide

/-- A string is free of NUL characters exactly when its bytes are free of zeros. -/
lemma zero_notMem_utf8 {s : String} : (0 : UInt8) ∉ utf8 s ↔ NulFree s := by
  rw [NulFree, utf8_eq_flatMap, not_iff_not]
  simp [zero_mem_utf8EncodeChar]

lemma NulFree.append {s t : String} (hs : NulFree s) (ht : NulFree t) : NulFree (s ++ t) := by
  simp only [NulFree, String.toList_append, List.mem_append, not_or]
  exact ⟨hs, ht⟩

/-- No character's encoding is a prefix of another's: UTF-8 is self-delimiting. -/
lemma utf8EncodeChar_append_inj {c d : Char} {l m : Bytes}
    (h : String.utf8EncodeChar c ++ l = String.utf8EncodeChar d ++ m) : c = d := by
  have hc := ByteArray.utf8DecodeChar?_utf8EncodeChar_append (b := l.toByteArray) (c := c)
  have hd := ByteArray.utf8DecodeChar?_utf8EncodeChar_append (b := m.toByteArray) (c := d)
  rw [← List.toByteArray_append, h, List.toByteArray_append, hd] at hc
  exact (Option.some.inj hc).symm

/-! ### Decoding with replacement -/

/-- A multi-byte sequence under way: the number of bytes still to come, the value so far
and the range of the next byte. -/
structure Pending where
  need : ℕ
  value : ℕ
  lo : ℕ
  hi : ℕ

/-- The character with the given scalar value. -/
def scalarChar (v : ℕ) : Char := if v.isValidChar then Char.ofNat v else '\uFFFD'

/-- The first byte of a sequence: the characters it completes by itself, or the sequence it
starts.  The ranges of the second byte exclude overlong forms, surrogates and values above
U+10FFFF. -/
def leadByte (b : ℕ) : List Char × Option Pending :=
  if b < 0x80 then ([scalarChar b], none)
  else if 0xC2 ≤ b ∧ b ≤ 0xDF then ([], some ⟨1, b % 32, 0x80, 0xBF⟩)
  else if b = 0xE0 then ([], some ⟨2, 0, 0xA0, 0xBF⟩)
  else if b = 0xED then ([], some ⟨2, 0xD, 0x80, 0x9F⟩)
  else if 0xE1 ≤ b ∧ b ≤ 0xEF then ([], some ⟨2, b % 16, 0x80, 0xBF⟩)
  else if b = 0xF0 then ([], some ⟨3, 0, 0x90, 0xBF⟩)
  else if b = 0xF4 then ([], some ⟨3, 4, 0x80, 0x8F⟩)
  else if 0xF1 ≤ b ∧ b ≤ 0xF3 then ([], some ⟨3, b % 8, 0x80, 0xBF⟩)
  else (['\uFFFD'], none)

/-- One byte of the decoder: the characters completed and the sequence under way. -/
def decodeByte (p : Option Pending) (b : ℕ) : List Char × Option Pending :=
  match p with
  | none => leadByte b
  | some p =>
    if p.lo ≤ b ∧ b ≤ p.hi then
      let value := p.value * 64 + b % 64
      if p.need ≤ 1 then ([scalarChar value], none)
      else ([], some ⟨p.need - 1, value, 0x80, 0xBF⟩)
    else ('\uFFFD' :: (leadByte b).1, (leadByte b).2)

/-- Decode the bytes, from the sequence under way. -/
def decodeFrom : Option Pending → Bytes → List Char
  | none, [] => []
  | some _, [] => ['\uFFFD']
  | p, b :: bs => (decodeByte p b.toNat).1 ++ decodeFrom (decodeByte p b.toNat).2 bs

/-- Decode UTF-8, replacing every maximal ill-formed subsequence by U+FFFD. -/
def utf8Replace (bs : Bytes) : String := String.ofList (decodeFrom none bs)

/-- A sequence under way that can not end in the value zero. -/
def Pending.Nonzero (p : Pending) : Prop := (0 < p.value ∨ 0x80 < p.lo) ∧ p.hi ≤ 0xBF

lemma scalarChar_ne_nul {v : ℕ} (h : v ≠ 0) : scalarChar v ≠ '\x00' := by
  rw [scalarChar]
  split
  · intro hv
    apply h
    have hnat : (Char.ofNat v).toNat = 0 := by rw [hv]; rfl
    rwa [Char.ofNat, dif_pos ‹_›] at hnat
  · decide

/-- The characters completed by a byte are not NUL, and the sequence under way can not end in it. -/
def NulFreeStep (r : List Char × Option Pending) : Prop :=
  '\x00' ∉ r.1 ∧ ∀ p ∈ r.2, p.Nonzero

lemma nulFreeStep_start {need value lo hi : ℕ} (hlow : 0 < value ∨ 0x80 < lo) (hhigh : hi ≤ 0xBF) :
    NulFreeStep ([], some ⟨need, value, lo, hi⟩) := by
  refine ⟨List.not_mem_nil, ?_⟩
  rintro p ⟨⟩
  exact ⟨hlow, hhigh⟩

lemma leadByte_nonzero {b : ℕ} (h : b ≠ 0) : NulFreeStep (leadByte b) := by
  rw [leadByte]
  refine iteInduction (fun _ ↦ ?_) fun _ ↦ ?_
  · exact ⟨by simp [(scalarChar_ne_nul h).symm], by simp⟩
  repeat' refine iteInduction (fun _ ↦ ?_) fun _ ↦ ?_
  rotate_right
  · exact ⟨by decide, by simp⟩
  all_goals exact nulFreeStep_start (by omega) (by omega)

lemma decodeByte_nonzero {p : Option Pending} {b : ℕ} (hp : ∀ q ∈ p, q.Nonzero) (h : b ≠ 0) :
    NulFreeStep (decodeByte p b) := by
  have hlead := leadByte_nonzero h
  match p with
  | none => exact hlead
  | some p =>
    have hnz := hp p rfl
    simp only [Pending.Nonzero] at hnz
    by_cases hrange : p.lo ≤ b ∧ b ≤ p.hi
    · have hvalue : p.value * 64 + b % 64 ≠ 0 := by omega
      have hchar := scalarChar_ne_nul hvalue
      by_cases hneed : p.need ≤ 1
      · simpa [NulFreeStep, decodeByte, hrange, hneed] using hchar.symm
      · simp only [decodeByte, if_pos hrange, if_neg hneed]
        exact nulFreeStep_start (by omega) le_rfl
    · simpa [NulFreeStep, decodeByte, hrange] using hlead

lemma nul_notMem_decodeFrom {p : Option Pending} {bs : Bytes} (hp : ∀ q ∈ p, q.Nonzero)
    (h : (0 : UInt8) ∉ bs) : '\x00' ∉ decodeFrom p bs := by
  induction bs generalizing p with
  | nil => cases p <;> simp [decodeFrom]
  | cons b bs ih =>
    have hb : b.toNat ≠ 0 := by
      intro hb
      exact h (by simp [UInt8.toNat_inj.mp (hb.trans UInt8.toNat_zero.symm)])
    have hstep := decodeByte_nonzero hp hb
    rw [decodeFrom, List.mem_append, not_or]
    exact ⟨hstep.1, ih hstep.2 (fun hbs => h (List.mem_cons_of_mem b hbs))⟩

/-- Bytes without zeros decode to a string without NUL. -/
lemma nulFree_utf8Replace {bs : Bytes} (h : (0 : UInt8) ∉ bs) : NulFree (utf8Replace bs) := by
  rw [NulFree, utf8Replace, String.toList_ofList]
  exact nul_notMem_decodeFrom (by simp) h

/-! ### Decoding what was encoded -/

lemma scalarChar_toNat (c : Char) : scalarChar c.val.toNat = c := by
  rw [scalarChar, if_pos c.valid]
  exact Char.ofNat_toNat c

lemma decodeByte_last {value lo hi b : ℕ} (hlo : lo ≤ b) (hhi : b ≤ hi) :
    decodeByte (some ⟨1, value, lo, hi⟩) b = ([scalarChar (value * 64 + b % 64)], none) := by
  simp [decodeByte, hlo, hhi]

lemma decodeByte_more {need value lo hi b : ℕ} (hlo : lo ≤ b) (hhi : b ≤ hi) :
    decodeByte (some ⟨need + 2, value, lo, hi⟩) b =
      ([], some ⟨need + 1, value * 64 + b % 64, 0x80, 0xBF⟩) := by
  simp [decodeByte, hlo, hhi]

/-- The first of three bytes allows exactly the second bytes of scalar values. -/
lemma leadByte_three {v : ℕ} (hlo : 0x800 ≤ v) (hhi : v < 0x10000)
    (hvalid : v < 0xD800 ∨ 0xDFFF < v) : ∃ lo hi,
      leadByte (v / 4096 % 16 + 0xE0) = ([], some ⟨2, v / 4096, lo, hi⟩) ∧
        lo ≤ v / 64 % 64 + 0x80 ∧ v / 64 % 64 + 0x80 ≤ hi := by
  rw [leadByte, if_neg (by omega), if_neg (by omega)]
  by_cases hzero : v / 4096 = 0
  · rw [if_pos (by omega), hzero]
    exact ⟨_, _, rfl, by omega, by omega⟩
  · rw [if_neg (by omega)]
    by_cases hsurrogate : v / 4096 = 13
    · rw [if_pos (by omega), hsurrogate]
      exact ⟨_, _, rfl, by omega, by omega⟩
    · rw [if_neg (by omega), if_pos (by omega),
        show (v / 4096 % 16 + 0xE0) % 16 = v / 4096 by omega]
      exact ⟨_, _, rfl, by omega, by omega⟩

/-- The first of four bytes allows exactly the second bytes of scalar values. -/
lemma leadByte_four {v : ℕ} (hlo : 0x10000 ≤ v) (hhi : v < 0x110000) : ∃ lo hi,
    leadByte (v / 262144 % 8 + 0xF0) = ([], some ⟨3, v / 262144, lo, hi⟩) ∧
      lo ≤ v / 4096 % 64 + 0x80 ∧ v / 4096 % 64 + 0x80 ≤ hi := by
  rw [leadByte, if_neg (by omega), if_neg (by omega), if_neg (by omega), if_neg (by omega),
    if_neg (by omega)]
  by_cases hzero : v / 262144 = 0
  · rw [if_pos (by omega), hzero]
    exact ⟨_, _, rfl, by omega, by omega⟩
  · rw [if_neg (by omega)]
    by_cases hlast : v / 262144 = 4
    · rw [if_pos (by omega), hlast]
      exact ⟨_, _, rfl, by omega, by omega⟩
    · rw [if_neg (by omega), if_pos (by omega),
        show (v / 262144 % 8 + 0xF0) % 8 = v / 262144 by omega]
      exact ⟨_, _, rfl, by omega, by omega⟩

lemma decodeFrom_utf8EncodeChar (c : Char) (rest : Bytes) :
    decodeFrom none (String.utf8EncodeChar c ++ rest) = c :: decodeFrom none rest := by
  have hchar := scalarChar_toNat c
  have hvalid : c.val.toNat < 0xD800 ∨ 0xDFFF < c.val.toNat ∧ c.val.toNat < 0x110000 := c.valid
  simp only [String.utf8EncodeChar]
  generalize c.val.toNat = v at hchar hvalid
  -- by the number of bytes, one to four
  by_cases h1 : v ≤ 0x7F
  · have hlead : leadByte v = ([scalarChar v], none) := by rw [leadByte, if_pos (by omega)]
    rw [if_pos h1, List.singleton_append, decodeFrom, toNat_ofNat_of_lt (by omega)]
    simp only [decodeByte, hlead, hchar, List.singleton_append]
  rw [if_neg h1]
  by_cases h2 : v ≤ 0x7FF
  · have hlead : leadByte (v / 64 % 0x20 + 0xC0) = ([], some ⟨1, v / 64, 0x80, 0xBF⟩) := by
      rw [leadByte, if_neg (by omega), if_pos (by omega),
        show (v / 64 % 0x20 + 0xC0) % 32 = v / 64 by omega]
    rw [if_pos h2, List.cons_append, List.singleton_append, decodeFrom, decodeFrom,
      toNat_ofNat_of_lt (by omega), toNat_ofNat_of_lt (by omega)]
    simp only [decodeByte.eq_def none, hlead, decodeByte_last (show 0x80 ≤ v % 0x40 + 0x80 by omega)
      (show v % 0x40 + 0x80 ≤ 0xBF by omega), List.nil_append, List.singleton_append,
      show v / 64 * 64 + (v % 0x40 + 0x80) % 64 = v by omega, hchar]
  rw [if_neg h2]
  by_cases h3 : v ≤ 0xFFFF
  · obtain ⟨lo, hi, hlead, hlo, hhi⟩ := leadByte_three (v := v) (by omega) (by omega) (by omega)
    rw [if_pos h3, List.cons_append, List.cons_append, List.singleton_append, decodeFrom,
      decodeFrom, decodeFrom, toNat_ofNat_of_lt (by omega), toNat_ofNat_of_lt (by omega),
      toNat_ofNat_of_lt (by omega)]
    simp only [decodeByte.eq_def none, hlead, decodeByte_more hlo hhi,
      decodeByte_last (show 0x80 ≤ v % 0x40 + 0x80 by omega)
      (show v % 0x40 + 0x80 ≤ 0xBF by omega), List.nil_append, List.singleton_append,
      show (v / 4096 * 64 + (v / 64 % 0x40 + 0x80) % 64) * 64 + (v % 0x40 + 0x80) % 64 = v by omega,
      hchar]
  · obtain ⟨lo, hi, hlead, hlo, hhi⟩ := leadByte_four (v := v) (by omega) (by omega)
    rw [if_neg h3, List.cons_append, List.cons_append, List.cons_append, List.singleton_append,
      decodeFrom, decodeFrom, decodeFrom, decodeFrom, toNat_ofNat_of_lt (by omega),
      toNat_ofNat_of_lt (by omega), toNat_ofNat_of_lt (by omega), toNat_ofNat_of_lt (by omega)]
    simp only [decodeByte.eq_def none, hlead, decodeByte_more hlo hhi,
      decodeByte_more (show 0x80 ≤ v / 64 % 0x40 + 0x80 by omega)
        (show v / 64 % 0x40 + 0x80 ≤ 0xBF by omega),
      decodeByte_last (show 0x80 ≤ v % 0x40 + 0x80 by omega)
        (show v % 0x40 + 0x80 ≤ 0xBF by omega), List.nil_append, List.singleton_append,
      show ((v / 262144 * 64 + (v / 4096 % 0x40 + 0x80) % 64) * 64 + (v / 64 % 0x40 + 0x80) % 64) *
        64 + (v % 0x40 + 0x80) % 64 = v by omega, hchar]

/-- **Decoding the bytes of a string gives the string.** -/
theorem utf8Replace_utf8 (s : String) : utf8Replace (utf8 s) = s := by
  have hlist : ∀ cs : List Char, decodeFrom none (cs.flatMap String.utf8EncodeChar) = cs := by
    intro cs
    induction cs with
    | nil => rfl
    | cons c cs ih => rw [List.flatMap_cons, decodeFrom_utf8EncodeChar, ih]
  rw [utf8Replace, utf8_eq_flatMap, hlist, String.ofList_toList]

example : utf8Replace [0x61, 0xE2, 0x82, 0x62, 0xE2, 0x82, 0xAC] = "a\uFFFDb€" := by decide

end Apk2Ios.Lib
