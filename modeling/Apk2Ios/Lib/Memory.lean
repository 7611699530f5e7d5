import Mathlib.Data.Set.Lattice
import Mathlib.Order.CompletePartialOrder
import Apk2Ios.Lib.Words

/-!
# Memory

A byte at every address.  A loader maps parts of a file into memory, each followed by zeros,
and then updates words.  Two memories are the same on a set when they have the same words at
given addresses and the same bytes everywhere else.
-/

namespace Apk2Ios.Lib

/-- A byte at every address. -/
abbrev Memory := ℕ → UInt8

/-- The addresses of the eight bytes of a word. -/
def window (a : ℕ) : Set ℕ := Set.Ico a (a + 8)

lemma mem_window {a b : ℕ} : b ∈ window a ↔ a ≤ b ∧ b < a + 8 := Iff.rfl

namespace Memory

/-- The eight bytes at `a`. -/
def wordBytes (m : Memory) (a : ℕ) : Bytes := (List.range 8).map fun i => m (a + i)

/-- The number in the eight little-endian bytes at `a`. -/
def word (m : Memory) (a : ℕ) : ℕ := leNat (m.wordBytes a)

/-- The bytes of a string at `a`, and a zero behind them. -/
def HasCString (m : Memory) (a : ℕ) (s : Bytes) : Prop :=
  ∀ i b, (s ++ [0])[i]? = some b → m (a + i) = b

instance (m : Memory) (a : ℕ) (s : Bytes) : Decidable (m.HasCString a s) :=
  decidable_of_iff (∀ i < (s ++ [0]).length, (s ++ [0])[i]? = some (m (a + i))) <| by
    constructor
    · intro h i b hi
      have hbyte := h i (List.getElem?_eq_some_iff.mp hi).1
      rw [hi] at hbyte
      exact (Option.some.inj hbyte).symm
    · intro h i hi
      rw [List.getElem?_eq_getElem hi, h i _ (List.getElem?_eq_getElem hi)]

/-- Replace the word at `a`. -/
def store (m : Memory) (a w : ℕ) : Memory := fun b =>
  if a ≤ b ∧ b < a + 8 then (leBytes 8 w).getD (b - a) 0 else m b

/-- Update the word at its address. -/
def update (m : Memory) (u : WordUpdate) : Memory := m.store u.pos (u.f (m.word u.pos))

/-- Make updates one after another. -/
def updates (m : Memory) (us : List WordUpdate) : Memory := us.foldl update m

@[simp] lemma updates_nil (m : Memory) : m.updates [] = m := rfl

@[simp] lemma updates_cons (m : Memory) (u : WordUpdate) (us : List WordUpdate) :
    m.updates (u :: us) = (m.update u).updates us := rfl

lemma updates_append (m : Memory) (us vs : List WordUpdate) :
    m.updates (us ++ vs) = (m.updates us).updates vs := List.foldl_append

section

variable {m m' : Memory} {a a' b w : ℕ} {u : WordUpdate} {us vs : List WordUpdate}

@[simp] lemma length_wordBytes (m : Memory) (a : ℕ) : (m.wordBytes a).length = 8 := by
  simp [wordBytes]

lemma getElem?_wordBytes {i : ℕ} (hi : i < 8) : (m.wordBytes a)[i]? = some (m (a + i)) := by
  simp [wordBytes, hi]

/-- Words are equal exactly where the bytes are. -/
lemma word_eq_iff : m.word a = m'.word a' ↔ ∀ i < 8, m (a + i) = m' (a' + i) := by
  constructor
  · intro h i hi
    have hbytes : m.wordBytes a = m'.wordBytes a' := by
      rw [← leBytes_leNat (m.wordBytes a), ← leBytes_leNat (m'.wordBytes a'), length_wordBytes,
        length_wordBytes]
      exact congrArg (leBytes 8) h
    have hbyte := congrArg (·[i]?) hbytes
    simpa only [getElem?_wordBytes hi, Option.some.injEq] using hbyte
  · intro h
    have hbytes : m.wordBytes a = m'.wordBytes a' :=
      List.map_congr_left fun i hi => h i (List.mem_range.mp hi)
    rw [word, word, hbytes]

/-- The word of a memory that has the bytes of a file. -/
lemma word_eq_of_bytes {file : Bytes} {off : ℕ} (h : ∀ i < 8, file[off + i]? = some (m (a + i))) :
    m.word a = Lib.word file off := by
  have hbytes : m.wordBytes a = slice file off 8 := by
    apply List.ext_getElem?
    intro i
    rw [getElem?_slice]
    by_cases hi : i < 8
    · rw [if_pos hi, getElem?_wordBytes hi, h i hi]
    · rw [if_neg hi, List.getElem?_eq_none (by rw [length_wordBytes]; omega)]
  rw [word, Lib.word, hbytes]

lemma store_of_notMem (h : b ∉ window a) : m.store a w b = m b := by
  rw [mem_window] at h
  rw [store, if_neg h]

lemma word_store_self : (m.store a w).word a = w % 2 ^ 64 := by
  have hbytes : (m.store a w).wordBytes a = leBytes 8 w := by
    apply List.ext_getElem?
    intro i
    by_cases hi : i < 8
    · rw [getElem?_wordBytes hi, store, if_pos ⟨by omega, by omega⟩, Nat.add_sub_cancel_left,
        List.getD_eq_getElem?_getD, List.getElem?_eq_getElem (by rwa [length_leBytes])]
      rfl
    · rw [List.getElem?_eq_none (by rw [length_wordBytes]; omega),
        List.getElem?_eq_none (by rw [length_leBytes]; omega)]
  rw [word, hbytes, leNat_leBytes, show 256 ^ 8 = 2 ^ 64 by norm_num]

lemma update_of_notMem (h : b ∉ window u.pos) : m.update u b = m b := store_of_notMem h

lemma word_update_self : (m.update u).word u.pos = u.f (m.word u.pos) % 2 ^ 64 := word_store_self

/-- Bytes outside all updated words stay. -/
lemma updates_of_notMem (h : ∀ u ∈ us, b ∉ window u.pos) : m.updates us b = m b := by
  induction us generalizing m with
  | nil => rfl
  | cons u us ih =>
    obtain ⟨hu, hus⟩ := List.forall_mem_cons.mp h
    rw [updates_cons, ih hus, update_of_notMem hu]

/-- A word that is apart from all updated words stays. -/
lemma word_updates_of_apart (h : ∀ u ∈ us, Apart u.pos a) : (m.updates us).word a = m.word a := by
  refine word_eq_iff.mpr fun i hi => updates_of_notMem fun u hu => ?_
  have hapart := h u hu
  rw [Apart] at hapart
  rw [mem_window]
  omega

/-- **Every word of pairwise apart updates becomes the update of its original value.** -/
theorem word_updates (hapart : us.Pairwise fun u v => Apart u.pos v.pos) (hu : u ∈ us) :
    (m.updates us).word u.pos = u.f (m.word u.pos) % 2 ^ 64 := by
  obtain ⟨pre, post, rfl⟩ := List.append_of_mem hu
  rw [List.pairwise_append, List.pairwise_cons] at hapart
  obtain ⟨-, ⟨hpost, -⟩, hpre⟩ := hapart
  rw [updates_append, updates_cons, word_updates_of_apart fun v hv => (hpost v hv).symm,
    word_update_self, word_updates_of_apart fun v hv => hpre v hv u List.mem_cons_self]

/-- **Memories are the same on a set exactly when their words at some addresses are, and their
bytes outside these words.** -/
theorem eqOn_iff_words {P : Set ℕ} {S : Set ℕ} (hP : ∀ a ∈ P, window a ⊆ S) :
    Set.EqOn m m' S ↔ (∀ a ∈ P, m.word a = m'.word a) ∧
      ∀ b ∈ S, (∀ a ∈ P, b ∉ window a) → m b = m' b := by
  constructor
  · intro h
    refine ⟨fun a ha => word_eq_iff.mpr fun i hi => h (hP a ha ?_), fun b hb _ => h hb⟩
    rw [mem_window]
    omega
  · rintro ⟨hwords, hbytes⟩ b hb
    by_cases hin : ∃ a ∈ P, b ∈ window a
    · obtain ⟨a, ha, hmem⟩ := hin
      rw [mem_window] at hmem
      have hbyte := word_eq_iff.mp (hwords a ha) (b - a) (by omega)
      rwa [Nat.add_sub_cancel' hmem.1] at hbyte
    · exact hbytes b hb fun a ha hmem => hin ⟨a, ha, hmem⟩

end

end Memory

/-! ### Mapped files -/

/-- `size` bytes of memory at `addr`: the first `backed` of them come from a file, from `src`
on, the others are zero. -/
structure Region where
  addr : ℕ
  size : ℕ
  src : ℕ
  backed : ℕ

namespace Region

/-- The addresses of the region. -/
def addresses (r : Region) : Set ℕ := Set.Ico r.addr (r.addr + r.size)

/-- The address is in the region. -/
def Covers (r : Region) (a : ℕ) : Prop := r.addr ≤ a ∧ a < r.addr + r.size

instance (r : Region) : DecidablePred r.Covers := fun _ => inferInstanceAs (Decidable (_ ∧ _))

/-- The byte at an address of the region. -/
def byte (source : Bytes) (r : Region) (a : ℕ) : UInt8 :=
  if a - r.addr < r.backed then source.getD (r.src + (a - r.addr)) 0 else 0

end Region

/-- The memory with the regions of a file. -/
def Memory.mapped (source : Bytes) (rs : List Region) : Memory := fun a =>
  ((rs.find? fun r => r.Covers a).map fun r => r.byte source a).getD 0

/-- When the regions are disjoint, the region of an address gives its byte. -/
lemma Memory.mapped_of_covers {source : Bytes} {rs : List Region} {r : Region} {a : ℕ}
    (hdisj : rs.Pairwise fun r s => Disjoint r.addresses s.addresses) (hr : r ∈ rs)
    (ha : r.Covers a) : mapped source rs a = r.byte source a := by
  induction rs with
  | nil => simp at hr
  | cons s rs ih =>
    rw [List.pairwise_cons] at hdisj
    rcases List.mem_cons.mp hr with rfl | hr
    · simp [mapped, ha]
    · have hs : ¬ s.Covers a := fun hs => Set.disjoint_left.mp (hdisj.1 r hr) hs ha
      have hrest := ih hdisj.2 hr
      rw [mapped] at hrest ⊢
      rwa [List.find?_cons_of_neg (by simpa using hs)]

end Apk2Ios.Lib
