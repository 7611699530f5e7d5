import Mathlib.Data.List.Nodup
import Mathlib.Data.List.Range
import Mathlib.Logic.Function.Basic

/-!
# A heap with a ledger

Blocks are numbered in the order of their allocation and a number is not used again, and the heap
keeps every call of `free`.  The ledger is balanced for a list of live blocks when each block that
was allocated is either live or has been freed, and this once.  The second part is about linked
lists: a segment is a chain of nodes from one pointer to another.
-/

namespace Apk2Ios.Lib

/-! ### Blocks -/

/-- The blocks that are there, how many have been allocated, and what has been freed, in order. -/
structure Heap (B : Type*) where
  block : ℕ → Option B
  allocated : ℕ
  freed : List ℕ

namespace Heap

variable {B : Type*} {h : Heap B} {live live' : List ℕ} {b : B} {p q : ℕ}

/-- No block has been allocated. -/
def empty : Heap B := ⟨fun _ ↦ none, 0, []⟩

/-- One more block. -/
def push (h : Heap B) (b : B) : Heap B :=
  { h with block := Function.update h.block h.allocated (some b), allocated := h.allocated + 1 }

/-- An allocation, which can fail. -/
def alloc (h : Heap B) (fails : Bool) (b : B) : Option ℕ × Heap B :=
  if fails then (none, h) else (some h.allocated, h.push b)

@[simp] lemma alloc_true : h.alloc true b = (none, h) := rfl

@[simp] lemma alloc_false : h.alloc false b = (some h.allocated, h.push b) := rfl

/-- A pointer is freed; nothing happens for the null pointer. -/
def free (h : Heap B) : Option ℕ → Heap B
  | none => h
  | some p => { h with block := Function.update h.block p none, freed := h.freed ++ [p] }

/-- A block gets another content. -/
def write (h : Heap B) (p : ℕ) (b : B) : Heap B :=
  { h with block := Function.update h.block p (some b) }

@[simp] lemma block_write_self : (h.write p b).block p = some b := Function.update_self ..

lemma block_write_of_ne (hq : q ≠ p) : (h.write p b).block q = h.block q :=
  Function.update_of_ne hq ..

lemma block_free_of_ne {p : Option ℕ} (hq : some q ≠ p) : (h.free p).block q = h.block q := by
  cases p with
  | none => rfl
  | some p => exact Function.update_of_ne (fun hpq ↦ hq (congrArg some hpq)) ..

@[simp] lemma block_push_self : (h.push b).block h.allocated = some b := Function.update_self ..

lemma block_push_of_lt (hq : q < h.allocated) : (h.push b).block q = h.block q :=
  Function.update_of_ne hq.ne ..

/-! ### The ledger -/

/-- Each block that was allocated is in `live` or was freed, once. -/
def Balanced (h : Heap B) (live : List ℕ) : Prop :=
  (List.range h.allocated).Perm (h.freed ++ live)

lemma balanced_empty : (empty : Heap B).Balanced [] := List.Perm.refl []

lemma Balanced.perm (hb : h.Balanced live) (hp : live.Perm live') : h.Balanced live' :=
  List.Perm.trans hb (hp.append_left h.freed)

lemma Balanced.nodup (hb : h.Balanced live) : live.Nodup :=
  (List.nodup_append.mp (hb.nodup_iff.mp List.nodup_range)).2.1

lemma Balanced.lt (hb : h.Balanced live) (hp : p ∈ live) : p < h.allocated :=
  List.mem_range.mp (hb.mem_iff.mpr (List.mem_append_right _ hp))

lemma Balanced.length_le (hb : h.Balanced live) : live.length ≤ h.allocated := by
  have hlength := List.Perm.length_eq hb
  rw [List.length_range, List.length_append] at hlength
  omega

/-- What the ledger says about one block. -/
theorem Balanced.count_add_count (hb : h.Balanced live) (hp : p < h.allocated) :
    h.freed.count p + live.count p = 1 := by
  have hcount := hb.count_eq p
  rw [List.count_append, List.nodup_range.count, if_pos (List.mem_range.mpr hp)] at hcount
  exact hcount.symm

lemma Balanced.push (hb : h.Balanced live) (b : B) :
    (h.push b).Balanced (live ++ [h.allocated]) := by
  show (List.range (h.allocated + 1)).Perm (h.freed ++ (live ++ [h.allocated]))
  rw [List.range_succ, ← List.append_assoc]
  exact List.Perm.append_right _ hb

lemma Balanced.write (hb : h.Balanced live) (p : ℕ) (b : B) : (h.write p b).Balanced live := hb

lemma Balanced.free (hb : h.Balanced (p :: live)) : (h.free (some p)).Balanced live := by
  show (List.range h.allocated).Perm (h.freed ++ [p] ++ live)
  rw [List.append_assoc]
  exact hb

/-- A pointer that can be null is freed. -/
lemma Balanced.free_option {p : Option ℕ} (hb : h.Balanced (p.toList ++ live)) :
    (h.free p).Balanced live := by
  cases p with
  | none => exact hb
  | some p => exact Balanced.free hb

end Heap

/-! ### Linked lists -/

section

variable {A N : Type*} {addr : N → A} {At At' : N → Option A → Prop} {p q : Option A}
  {ms ns : List N}

/-- The nodes from `p` up to `q`, where `At n next` says that the node `n` is stored at its address
with the link `next`. -/
def Segment (addr : N → A) (At : N → Option A → Prop) : Option A → List N → Option A → Prop
  | p, [], q => p = q
  | p, n :: ns, q => p = some (addr n) ∧ ∃ next, At n next ∧ Segment addr At next ns q

lemma segment_append : Segment addr At p (ms ++ ns) q ↔
    ∃ r, Segment addr At p ms r ∧ Segment addr At r ns q := by
  induction ms generalizing p with
  | nil =>
    constructor
    · intro h
      exact ⟨p, rfl, h⟩
    · rintro ⟨r, rfl, h⟩
      exact h
  | cons n ms ih =>
    constructor
    · rintro ⟨hp, next, hn, h⟩
      obtain ⟨r, hms, hns⟩ := ih.mp h
      exact ⟨r, ⟨hp, next, hn, hms⟩, hns⟩
    · rintro ⟨r, ⟨hp, next, hn, hms⟩, hns⟩
      exact ⟨hp, next, hn, ih.mpr ⟨r, hms, hns⟩⟩

/-- A segment stays while its nodes do. -/
lemma Segment.imp (h : Segment addr At p ns q)
    (hns : ∀ n ∈ ns, ∀ next, At n next → At' n next) : Segment addr At' p ns q := by
  induction ns generalizing p with
  | nil => exact h
  | cons n ns ih =>
    obtain ⟨hp, next, hn, h⟩ := h
    have htail := ih h (fun m hm ↦ hns m (List.mem_cons_of_mem n hm))
    exact ⟨hp, next, hns n List.mem_cons_self next hn, htail⟩

/-- A node is linked behind the last one. -/
lemma Segment.concat {l n : N} (h : Segment addr At p (ns ++ [l]) none)
    (hns : ∀ m ∈ ns, ∀ next, At m next → At' m next)
    (hl : At l none → At' l (some (addr n))) (hn : At' n none) :
    Segment addr At' p (ns ++ [l] ++ [n]) none := by
  obtain ⟨r, hinit, hr, next, hlast, hnext⟩ := segment_append.mp h
  obtain rfl : next = none := hnext
  rw [List.append_assoc]
  exact segment_append.mpr ⟨r, hinit.imp hns, hr, _, hl hlast, rfl, none, hn, rfl⟩

/-- The list that is stored at a pointer is determined when the node at an address is. -/
lemma Segment.unique
    (hAt : ∀ m n next next', addr m = addr n → At m next → At n next' → m = n ∧ next = next')
    (hms : Segment addr At p ms none) (hns : Segment addr At p ns none) : ms = ns := by
  induction ms generalizing p ns with
  | nil =>
    cases ns with
    | nil => rfl
    | cons n ns => exact absurd (hns.1.symm.trans hms) (Option.some_ne_none _)
  | cons m ms ih =>
    obtain ⟨hp, next, hm, hms⟩ := hms
    cases ns with
    | nil => exact absurd (hp.symm.trans hns) (Option.some_ne_none _)
    | cons n ns =>
      obtain ⟨hp', next', hn, hns⟩ := hns
      obtain ⟨rfl, rfl⟩ := hAt m n next next' (Option.some.inj (hp.symm.trans hp')) hm hn
      rw [ih hms hns]

end

end Apk2Ios.Lib
