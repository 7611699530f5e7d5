import Mathlib.Data.List.Basic
import Mathlib.Tactic.Ring

/-!
# Integer constants and initializers of C

A constant is a string of digits, hexadecimal behind `0x`, octal behind another `0` and decimal
otherwise, with a suffix for its type.  An initializer is a list of constants in braces.
-/

namespace Apk2Ios.Lib.CSource

/-! ### Digits -/

/-- The value of a digit; other characters have no value below 36. -/
def digitValue (c : Char) : ℕ :=
  if '0' ≤ c ∧ c ≤ '9' then c.toNat - 48
  else if 'a' ≤ c ∧ c ≤ 'f' then c.toNat - 87
  else if 'A' ≤ c ∧ c ≤ 'F' then c.toNat - 55
  else 36

/-- The number of a string of digits of a base. -/
def readDigits (base : ℕ) (cs : List Char) : Option ℕ :=
  if cs ≠ [] ∧ cs.all (fun c => digitValue c < base) then
    some (cs.foldl (fun n c => base * n + digitValue c) 0)
  else none

lemma digitValue_digitChar {d : ℕ} (h : d < 16) : digitValue d.digitChar = d := by
  revert d
  decide

section

variable {base : ℕ} (hbase : 1 < base) (hle : base ≤ 16)
include hbase hle

/-- The digits of a number are digits of the base. -/
lemma digitValue_lt_of_mem_toDigits (n : ℕ) :
    ∀ c ∈ Nat.toDigits base n, digitValue c < base := by
  induction n using Nat.strongRecOn with
  | ind n ih =>
    by_cases h : n < base
    · rw [Nat.toDigits_of_lt_base h, List.forall_mem_singleton, digitValue_digitChar (by omega)]
      exact h
    · have hlt : n / base < n := Nat.div_lt_self (by omega) hbase
      have hmod : n % base < base := Nat.mod_lt n (by omega)
      rw [Nat.toDigits_of_base_le hbase (by omega), List.forall_mem_append,
        List.forall_mem_singleton, digitValue_digitChar (by omega)]
      exact ⟨ih _ hlt, hmod⟩

lemma foldl_toDigits (n : ℕ) :
    (Nat.toDigits base n).foldl (fun n c => base * n + digitValue c) 0 = n := by
  induction n using Nat.strongRecOn with
  | ind n ih =>
    by_cases h : n < base
    · rw [Nat.toDigits_of_lt_base h, List.foldl_cons, List.foldl_nil,
        digitValue_digitChar (by omega), Nat.mul_zero, Nat.zero_add]
    · have hlt : n / base < n := Nat.div_lt_self (by omega) hbase
      have hmod : n % base < base := Nat.mod_lt n (by omega)
      rw [Nat.toDigits_of_base_le hbase (by omega), List.foldl_append, ih _ hlt, List.foldl_cons,
        List.foldl_nil, digitValue_digitChar (by omega)]
      exact Nat.div_add_mod n base

/-- A number is read back from its digits. -/
lemma readDigits_toDigits (n : ℕ) : readDigits base (Nat.toDigits base n) = some n := by
  have hall : (Nat.toDigits base n).all (fun c => digitValue c < base) = true := by
    rw [List.all_eq_true]
    exact fun c hc => decide_eq_true (digitValue_lt_of_mem_toDigits hbase hle n c hc)
  rw [readDigits, if_pos ⟨Nat.toDigits_ne_nil, hall⟩, foldl_toDigits hbase hle]

/-- Only zero starts with the digit zero. -/
lemma head?_toDigits {n : ℕ} (hn : 0 < n) : (Nat.toDigits base n).head? ≠ some '0' := by
  induction n using Nat.strongRecOn with
  | ind n ih =>
    by_cases h : n < base
    · rw [Nat.toDigits_of_lt_base h, List.head?_cons]
      intro heq
      have hvalue := congrArg digitValue (Option.some.inj heq)
      rw [digitValue_digitChar (by omega)] at hvalue
      exact absurd hvalue (by change ¬ n = 0; omega)
    · have hlt : n / base < n := Nat.div_lt_self hn hbase
      have hpos : 0 < n / base := Nat.div_pos (by omega) (by omega)
      rw [Nat.toDigits_of_base_le hbase (by omega), List.head?_append_of_ne_nil _
        Nat.toDigits_ne_nil]
      exact ih _ hlt hpos

end

/-! ### Constants -/

/-- The characters of the suffixes. -/
def isSuffixChar (c : Char) : Bool := c = 'u' || c = 'U' || c = 'l' || c = 'L'

/-- The suffixes. -/
def suffixes : List (List Char) :=
  ["", "u", "U", "l", "L", "ul", "uL", "Ul", "UL", "lu", "lU", "Lu", "LU", "ll", "LL", "ull",
    "uLL", "Ull", "ULL", "llu", "llU", "LLu", "LLU"].map String.toList

/-- The digits of a constant. -/
def readBody : List Char → Option ℕ
  | '0' :: 'x' :: cs => readDigits 16 cs
  | '0' :: 'X' :: cs => readDigits 16 cs
  | '0' :: cs => readDigits 8 ('0' :: cs)
  | cs => readDigits 10 cs

/-- An integer constant; the types have at most 64 bits. -/
def readConstant (cs : List Char) : Option ℕ :=
  if cs.dropWhile (fun c => !isSuffixChar c) ∈ suffixes then
    (readBody (cs.takeWhile fun c => !isSuffixChar c)).bind fun n =>
      if n < 2 ^ 64 then some n else none
  else none

/-- The digits of a number have no suffix in them. -/
lemma isSuffixChar_toDigits {base : ℕ} (hbase : 1 < base) (hle : base ≤ 16) (n : ℕ) :
    ∀ c ∈ Nat.toDigits base n, isSuffixChar c = false := by
  intro c hc
  have hlt := digitValue_lt_of_mem_toDigits hbase hle n c hc
  by_contra hsuffix
  have hcases : c = 'u' ∨ c = 'U' ∨ c = 'l' ∨ c = 'L' := by
    simpa [isSuffixChar, or_iff_not_imp_left] using hsuffix
  rcases hcases with rfl | rfl | rfl | rfl <;> exact absurd hlt (by change ¬ 36 < base; omega)

lemma readConstant_append {body suffix : List Char} {n : ℕ}
    (hbody : ∀ c ∈ body, isSuffixChar c = false) (hsuffix : suffix ∈ suffixes)
    (hhead : suffix.head?.all isSuffixChar = true) (hread : readBody body = some n)
    (hn : n < 2 ^ 64) : readConstant (body ++ suffix) = some n := by
  have hpos : ∀ c ∈ body, (!isSuffixChar c) = true := fun c hc => by rw [hbody c hc]; rfl
  have htake : suffix.takeWhile (fun c => !isSuffixChar c) = [] := by
    cases suffix with
    | nil => rfl
    | cons c cs => exact List.takeWhile_cons_of_neg (by simp [show isSuffixChar c from hhead])
  have hdrop : suffix.dropWhile (fun c => !isSuffixChar c) = suffix := by
    cases suffix with
    | nil => rfl
    | cons c cs => exact List.dropWhile_cons_of_neg (by simp [show isSuffixChar c from hhead])
  rw [readConstant, List.dropWhile_append_of_pos hpos, List.takeWhile_append_of_pos hpos, hdrop,
    htake, List.append_nil, if_pos hsuffix, hread, Option.bind_some, if_pos hn]

/-- A decimal constant is read back; a number that starts with the digit zero is zero. -/
lemma readBody_decimal (n : ℕ) : readBody (Nat.toDigits 10 n) = some n := by
  rcases Nat.eq_zero_or_pos n with rfl | hn
  · decide
  · have hhead := head?_toDigits (show 1 < 10 by decide) (by decide) hn
    have hread := readDigits_toDigits (show 1 < 10 by decide) (by decide) n
    generalize Nat.toDigits 10 n = cs at hhead hread
    rw [readBody]
    · exact hread
    all_goals
      rintro rest rfl
      exact hhead rfl

lemma readBody_hexadecimal (n : ℕ) : readBody ('0' :: 'x' :: Nat.toDigits 16 n) = some n :=
  readDigits_toDigits (by decide) (by decide) n

/-! ### Initializers -/

/-- The constants between braces and commas. -/
def readInitializer (cs : List Char) : Option (List ℕ) :=
  match cs with
  | '\x7b' :: rest =>
    if rest.getLast? = some '\x7d' then
      (rest.dropLast.splitOn ',').mapM fun c => readConstant (c.dropWhile (· = ' '))
    else none
  | _ => none

/-- Constants that are read stand between commas. -/
lemma readInitializer_intercalate {cs : List (List Char)} {ns : List ℕ} (hne : cs ≠ [])
    (hcomma : ∀ c ∈ cs, ',' ∉ c)
    (hread : cs.mapM (fun c => readConstant (c.dropWhile (· = ' '))) = some ns) :
    readInitializer ('\x7b' :: ([','].intercalate cs ++ ['\x7d'])) = some ns := by
  show (if ([','].intercalate cs ++ ['\x7d']).getLast? = some '\x7d' then _ else none) = _
  rw [if_pos List.getLast?_concat, List.dropLast_concat, List.splitOn_intercalate _ hcomma hne]
  exact hread

end Apk2Ios.Lib.CSource
