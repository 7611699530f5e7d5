import Mathlib.Algebra.BigOperators.Group.List.Lemmas
import Mathlib.Data.List.Dedup
import Mathlib.Data.List.Sort
import Apk2Ios.Errors
import Apk2Ios.Lib.Utf8

/-!
# The parts of the Python library the tools use

`struct.pack`, `range` with a step, dictionaries in insertion order, and two's complement
for the signed field of a relocation.
-/

namespace Apk2Ios

open Lib

/-! ### `struct` -/

/-- A field of a `struct` format: `I`, `Q`, `i` (only non-negative values occur) and a byte
string written as it is. -/
inductive Field where
  | I (n : ℕ)
  | Q (n : ℕ)
  | i (n : ℕ)
  | s (bs : Bytes)

namespace Field

/-- The value is in the range of its format character. -/
def Fits : Field → Prop
  | I n => n < 2 ^ 32
  | Q n => n < 2 ^ 64
  | i n => n < 2 ^ 31
  | s _ => True

instance : DecidablePred Fits
  | I n => inferInstanceAs (Decidable (n < 2 ^ 32))
  | Q n => inferInstanceAs (Decidable (n < 2 ^ 64))
  | i n => inferInstanceAs (Decidable (n < 2 ^ 31))
  | s _ => inferInstanceAs (Decidable True)

/-- The little-endian bytes of a field. -/
def bytes : Field → Bytes
  | I n => leBytes 4 n
  | Q n => leBytes 8 n
  | i n => leBytes 4 n
  | s bs => bs

end Field

/-- `struct.pack` of a little-endian format. -/
def structPack (fields : List Field) : PyM Bytes :=
  if ∀ f ∈ fields, f.Fits then .ok (fields.flatMap Field.bytes) else .error .struct

lemma structPack_eq_ok {fields : List Field} {bs : Bytes} :
    structPack fields = .ok bs ↔ (∀ f ∈ fields, f.Fits) ∧ bs = fields.flatMap Field.bytes :=
  PyM.ite_ok_eq_ok

/-- What an access behind the end of a buffer raises.  An offset that is no `ssize_t` is refused
before the buffer is looked at, in one way by reads and in another by writes. -/
def outside (reads : Bool) (off : ℕ) : PyError :=
  if off < 2 ^ 63 then .struct else if reads then .overflow else .index

/-- The bytes `struct.unpack_from` reads for a format of the given size; it raises when the
buffer is too short. -/
def unpackFrom (size : ℕ) (buf : Bytes) (off : ℕ) : PyM Bytes :=
  if off + size ≤ buf.length then .ok (slice buf off size) else .error (outside true off)

lemma unpackFrom_eq_ok {size off : ℕ} {buf bs : Bytes} :
    unpackFrom size buf off = .ok bs ↔ off + size ≤ buf.length ∧ bs = slice buf off size :=
  PyM.ite_ok_eq_ok

/-- `struct.pack_into("<Q", buf, off, value)`; it raises when the buffer is too short. -/
def packInto (buf : Bytes) (off value : ℕ) : PyM Bytes :=
  if off + 8 ≤ buf.length then .ok (sliceAssign buf off 8 (leBytes 8 value))
  else .error (outside false off)

lemma packInto_eq_ok {off value : ℕ} {buf bs : Bytes} :
    packInto buf off value = .ok bs ↔
      off + 8 ≤ buf.length ∧ bs = sliceAssign buf off 8 (leBytes 8 value) :=
  PyM.ite_ok_eq_ok

/-- `value & 0xFFFFFFFFFFFFFFFF`. -/
def wrap64 (value : ℤ) : ℕ := (value % 2 ^ 64).toNat

/-- The number in the field of `w` bytes at `off` of an unpacked record. -/
def field (record : Bytes) (off w : ℕ) : ℕ := leNat (slice record off w)

lemma field_lt (record : Bytes) (off w : ℕ) : field record off w < 256 ^ w := by
  have hlt := leNat_lt (slice record off w)
  have hlen : (slice record off w).length ≤ w := by
    rw [length_slice]
    omega
  exact lt_of_lt_of_le hlt (Nat.pow_le_pow_right (by omega) hlen)

/-- The signed value of a 64-bit word. -/
def toSigned64 (n : ℕ) : ℤ := if n < 2 ^ 63 then n else n - 2 ^ 64

/-- `name.encode("ascii")[:16].ljust(16, b"\0")`. -/
def name16 (name : String) : Bytes :=
  ((utf8 name).take 16) ++ List.replicate (16 - ((utf8 name).take 16).length) 0

@[simp] lemma length_name16 (name : String) : (name16 name).length = 16 := by
  simp only [name16, List.length_append, List.length_take, List.length_replicate]
  omega

/-- The value of a hexadecimal digit. -/
def hexDigit (c : Char) : ℕ := if c.toNat < 58 then c.toNat - 48 else c.toNat - 87

/-- `int(s, 16)` for a string in the format of `hex`. -/
def intHex (s : String) : ℕ := (s.toList.drop 2).foldl (fun n c => 16 * n + hexDigit c) 0

lemma hexDigit_digitChar {d : ℕ} (h : d < 16) : hexDigit d.digitChar = d := by
  revert d
  decide

lemma intHex_hex (n : ℕ) : intHex (hex n) = n := by
  have hlist : (hex n).toList.drop 2 = Nat.toDigits 16 n := by simp [hex]
  rw [intHex, hlist]
  induction n using Nat.strongRecOn with
  | ind n ih =>
    by_cases h : n < 16
    · rw [Nat.toDigits_of_lt_base h]
      simp [hexDigit_digitChar h]
    · have hlt : n / 16 < n := by omega
      have hlist' : (hex (n / 16)).toList.drop 2 = Nat.toDigits 16 (n / 16) := by simp [hex]
      rw [Nat.toDigits_of_base_le (by decide) (by omega), List.foldl_append, ih _ hlt hlist']
      simp only [List.foldl_cons, List.foldl_nil, hexDigit_digitChar (Nat.mod_lt n (by decide))]
      omega

/-! ### `range` and `sorted` -/

/-- `range(start, stop, step)` for a positive step. -/
def rangeStep (start stop step : ℕ) : List ℕ :=
  (List.range ((stop - start + step - 1) / step)).map fun i => start + i * step

lemma rangeStep_cons {start stop step : ℕ} (hlt : start < stop) (hstep : 0 < step) :
    rangeStep start stop step = start :: rangeStep (start + step) stop step := by
  have hcount : (stop - start + step - 1) / step =
      (stop - (start + step) + step - 1) / step + 1 := by
    rcases Nat.lt_or_ge stop (start + step) with hlast | hmore
    · have hone : (stop - start + step - 1) / step = 1 := Nat.div_eq_of_lt_le (by omega) (by omega)
      have hzero : (stop - (start + step) + step - 1) / step = 0 := Nat.div_eq_of_lt (by omega)
      rw [hone, hzero]
    · rw [← Nat.add_div_right _ hstep]
      congr 1
      omega
  rw [rangeStep, hcount, List.range_succ_eq_map, List.map_cons, List.map_map, rangeStep]
  simp [Function.comp_def, Nat.succ_mul, Nat.add_assoc, Nat.add_comm step]

/-- The order of pairs of numbers. -/
def pairLe (a b : ℕ × ℕ) : Prop := a.1 < b.1 ∨ a.1 = b.1 ∧ a.2 ≤ b.2

instance : DecidableRel pairLe := fun _ _ => inferInstanceAs (Decidable (_ ∨ _ ∧ _))

instance : Std.Total pairLe := ⟨fun a b => by simp only [pairLe]; omega⟩

instance : IsTrans (ℕ × ℕ) pairLe := ⟨fun a b c => by simp only [pairLe]; omega⟩

/-- `sorted(xs, key=key)` for a key that is a pair of numbers.  The sort is stable. -/
def sortedBy {α : Type} (key : α → ℕ × ℕ) (xs : List α) : List α :=
  xs.insertionSort fun a b => pairLe (key a) (key b)

lemma sortedBy_perm {α : Type} (key : α → ℕ × ℕ) (xs : List α) :
    (sortedBy key xs).Perm xs := List.perm_insertionSort _ xs

@[simp] lemma mem_sortedBy {α : Type} {key : α → ℕ × ℕ} {xs : List α} {a : α} :
    a ∈ sortedBy key xs ↔ a ∈ xs := (sortedBy_perm key xs).mem_iff

/-- Sorting forgets the order when no two different elements have one key. -/
lemma sortedBy_congr {α : Type} {key : α → ℕ × ℕ} {xs ys : List α} (hperm : xs.Perm ys)
    (hkey : ∀ a ∈ xs, ∀ b ∈ xs, key a = key b → a = b) : sortedBy key xs = sortedBy key ys := by
  have hsorted : ∀ zs : List α, (sortedBy key zs).Pairwise fun a b => pairLe (key a) (key b) :=
    fun zs => List.pairwise_insertionSort _ zs
  refine List.Perm.eq_of_pairwise ?_ (hsorted xs) (hsorted ys)
    ((sortedBy_perm key xs).trans (hperm.trans (sortedBy_perm key ys).symm))
  intro a b ha hb hab hba
  refine hkey a (mem_sortedBy.mp ha) b (hperm.mem_iff.mpr (mem_sortedBy.mp hb)) ?_
  simp only [pairLe] at hab hba
  exact Prod.ext (by omega) (by omega)

/-- `sorted(set(xs))` for strings, which are ordered by their characters. -/
def sortedSet (xs : List String) : List String := xs.dedup.insertionSort (· ≤ ·)

@[simp] lemma mem_sortedSet {xs : List String} {s : String} : s ∈ sortedSet xs ↔ s ∈ xs := by
  rw [sortedSet, List.mem_insertionSort, List.mem_dedup]

lemma nodup_sortedSet (xs : List String) : (sortedSet xs).Nodup :=
  (List.perm_insertionSort _ _).nodup_iff.mpr xs.nodup_dedup

/-- `sorted(xs)` for strings. -/
def sortedStrings (xs : List String) : List String := xs.insertionSort (· ≤ ·)

lemma sortedStrings_perm (xs : List String) : (sortedStrings xs).Perm xs :=
  List.perm_insertionSort _ xs

/-- `sorted(items)` for pairs whose first components differ, so that the second ones are never
compared. -/
def sortedItems {κ α : Type} [LE κ] [DecidableLE κ] (items : List (κ × α)) : List (κ × α) :=
  items.insertionSort fun a b => a.1 ≤ b.1

lemma sortedItems_perm {κ α : Type} [LE κ] [DecidableLE κ] (items : List (κ × α)) :
    (sortedItems items).Perm items := List.perm_insertionSort _ items

/-! ### Dictionaries -/

/-- A dictionary: its items in insertion order, with no key twice. -/
structure Dict (κ α : Type) where
  items : List (κ × α)
  nodup : (items.map Prod.fst).Nodup

namespace Dict

variable {κ α : Type} [DecidableEq κ]

/-- The empty dictionary. -/
def empty : Dict κ α := ⟨[], by simp⟩

/-- The items after `d[k] = v`: a new key goes to the end, an old one keeps its place. -/
def setItems (k : κ) (v : α) : List (κ × α) → List (κ × α)
  | [] => [(k, v)]
  | (k', v') :: rest => if k' = k then (k, v) :: rest else (k', v') :: setItems k v rest

lemma fst_mem_setItems {k k' : κ} {v : α} {items : List (κ × α)} :
    k' ∈ (setItems k v items).map Prod.fst ↔ k' = k ∨ k' ∈ items.map Prod.fst := by
  induction items with
  | nil => simp [setItems]
  | cons p rest ih =>
    obtain ⟨k₀, v₀⟩ := p
    by_cases h : k₀ = k
    · simp [setItems, h]
    · simp only [setItems, if_neg h, List.map_cons, List.mem_cons, ih]
      tauto

lemma setItems_nodup {k : κ} {v : α} {items : List (κ × α)}
    (h : (items.map Prod.fst).Nodup) : ((setItems k v items).map Prod.fst).Nodup := by
  induction items with
  | nil => simp [setItems]
  | cons p rest ih =>
    obtain ⟨k₀, v₀⟩ := p
    rw [List.map_cons, List.nodup_cons] at h
    by_cases hk : k₀ = k
    · subst hk
      simpa [setItems] using h
    · simp only [setItems, if_neg hk, List.map_cons, List.nodup_cons, fst_mem_setItems, not_or]
      exact ⟨⟨hk, h.1⟩, ih h.2⟩

/-- `d[k] = v`. -/
def set (d : Dict κ α) (k : κ) (v : α) : Dict κ α := ⟨setItems k v d.items, setItems_nodup d.nodup⟩

/-- `d.get(k)`. -/
def get? (d : Dict κ α) (k : κ) : Option α := (d.items.find? fun p => p.1 = k).map Prod.snd

lemma find?_setItems {k k' : κ} {v : α} {items : List (κ × α)} :
    ((setItems k v items).find? fun p => p.1 = k').map Prod.snd =
      if k' = k then some v else (items.find? fun p => p.1 = k').map Prod.snd := by
  induction items with
  | nil =>
    by_cases h : k' = k
    · simp [setItems, h]
    · simp [setItems, h, Ne.symm h]
  | cons p rest ih =>
    obtain ⟨k₀, v₀⟩ := p
    by_cases hk : k₀ = k
    · subst hk
      by_cases h : k' = k₀
      · simp [setItems, h]
      · simp [setItems, h, Ne.symm h]
    · by_cases h₀ : k₀ = k'
      · subst h₀
        simp [setItems, hk]
      · simpa [setItems, hk, List.find?_cons, h₀] using ih

@[simp] lemma get?_empty (k : κ) : (empty : Dict κ α).get? k = none := rfl

lemma get?_set (d : Dict κ α) (k k' : κ) (v : α) :
    (d.set k v).get? k' = if k' = k then some v else d.get? k' := find?_setItems

/-- The items are what `get?` returns. -/
lemma mem_items_iff (d : Dict κ α) {k : κ} {v : α} : (k, v) ∈ d.items ↔ d.get? k = some v := by
  obtain ⟨items, hnodup⟩ := d
  simp only [get?]
  induction items with
  | nil => simp
  | cons p rest ih =>
    obtain ⟨k₀, v₀⟩ := p
    rw [List.map_cons, List.nodup_cons] at hnodup
    by_cases h : k₀ = k
    · subst h
      have hrest : (k₀, v) ∉ rest := by
        intro hmem
        have hfst : (k₀, v).1 ∈ rest.map Prod.fst := List.mem_map_of_mem hmem
        exact hnodup.1 hfst
      simp [hrest, eq_comm]
    · simpa [List.find?_cons, h, Ne.symm h] using ih hnodup.2

/-- `dict(sorted(d.items()))`. -/
def sorted [LE κ] [DecidableLE κ] (d : Dict κ α) : Dict κ α :=
  ⟨sortedItems d.items, ((sortedItems_perm d.items).map Prod.fst).nodup_iff.mpr d.nodup⟩

lemma get?_sorted [LE κ] [DecidableLE κ] (d : Dict κ α) (k : κ) : d.sorted.get? k = d.get? k := by
  refine Option.ext fun v => ?_
  rw [← mem_items_iff, ← mem_items_iff]
  exact (sortedItems_perm d.items).mem_iff

/-! ### Dictionaries that are filled from a list -/

variable {β : Type} (key : β → κ) (step : β → Option α → α)

/-- Every item of a list changes the value at its key. -/
def fill (xs : List β) : Dict κ α :=
  xs.foldl (fun d x => d.set (key x) (step x (d.get? (key x)))) .empty

lemma get?_foldl_set (xs : List β) (d : Dict κ α) (k : κ) :
    (xs.foldl (fun d x => d.set (key x) (step x (d.get? (key x)))) d).get? k =
      (xs.filter fun x => key x = k).foldl (fun o x => some (step x o)) (d.get? k) := by
  induction xs generalizing d with
  | nil => rfl
  | cons x xs ih =>
    rw [List.foldl_cons, ih, get?_set]
    by_cases hk : key x = k
    · subst hk
      simp
    · simp [hk, Ne.symm hk]

/-- The value at a key depends on the items with that key, in their order. -/
lemma get?_fill (xs : List β) (k : κ) :
    (fill key step xs).get? k =
      (xs.filter fun x => key x = k).foldl (fun o x => some (step x o)) none :=
  get?_foldl_set key step xs .empty k

/-- The keys are those of the list. -/
lemma fst_items_fill_perm (xs : List β) :
    ((fill key step xs).items.map Prod.fst).Perm (xs.map key).dedup := by
  have hfold : ∀ (l : List β) (o : Option α),
      (l.foldl (fun o x => some (step x o)) o).isSome ↔ o.isSome ∨ l ≠ [] := by
    intro l
    induction l with
    | nil => simp
    | cons x l ih => simp [ih]
  refine (List.perm_ext_iff_of_nodup (fill key step xs).nodup (List.nodup_dedup _)).mpr fun k => ?_
  have hmem : k ∈ (fill key step xs).items.map Prod.fst ↔
      ((fill key step xs).get? k).isSome := by
    rw [Option.isSome_iff_exists]
    simp only [← mem_items_iff, List.mem_map, Prod.exists, exists_and_right, exists_eq_right]
  rw [hmem, get?_fill, hfold, List.mem_dedup]
  simp [List.filter_eq_nil_iff]

variable {key step} {m : α → ℕ}

/-- A value that every item with the key raises by one counts these items. -/
lemma measure_get?_fill (hstep : ∀ x o, m (step x o) = o.elim 0 m + 1) (xs : List β) (k : κ) :
    ((fill key step xs).get? k).elim 0 m = (xs.map key).count k := by
  have hfold : ∀ (l : List β) (o : Option α),
      (l.foldl (fun o x => some (step x o)) o).elim 0 m = o.elim 0 m + l.length := by
    intro l
    induction l with
    | nil => simp
    | cons x l ih =>
      intro o
      rw [List.foldl_cons, ih, Option.elim_some, hstep, List.length_cons]
      omega
  rw [get?_fill, hfold, Option.elim_none, Nat.zero_add, ← List.countP_eq_length_filter,
    List.count, List.countP_map]
  rfl

/-- The counts add up to the length of the list. -/
lemma sum_measure_fill (hstep : ∀ x o, m (step x o) = o.elim 0 m + 1) (xs : List β) :
    ((fill key step xs).items.map fun p => m p.2).sum = xs.length := by
  have hitems : ((fill key step xs).items.map fun p => m p.2) =
      ((fill key step xs).items.map Prod.fst).map fun k => (xs.map key).count k := by
    rw [List.map_map]
    refine List.map_congr_left fun p hp => ?_
    have hget := (mem_items_iff _).mp hp
    rw [Function.comp_apply, ← measure_get?_fill hstep, hget, Option.elim_some]
  rw [hitems, ((fst_items_fill_perm key step xs).map _).sum_eq,
    List.sum_map_count_dedup_eq_length, List.length_map]

end Dict

end Apk2Ios
