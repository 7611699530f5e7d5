import Mathlib.Order.CompletePartialOrder
import Mathlib.Order.Interval.Set.Disjoint
import Apk2Ios.Lib.Words

/-!
# Placing pieces of a source file

A loader or a linker copies pieces of a source file into an output file and finds an address
by the piece that covers it.  When the pieces take different parts of the output, every
piece is found there unchanged, and words that are apart in memory are apart in the output.
-/

namespace Apk2Ios.Lib

/-- `size` bytes of a source file, at address `addr` in memory and at `dst` in the output. -/
structure Piece where
  addr : ℕ
  src : ℕ
  size : ℕ
  dst : ℕ

namespace Piece

/-- The addresses of the piece. -/
def addresses (p : Piece) : Set ℕ := Set.Ico p.addr (p.addr + p.size)

/-- The address is in the piece. -/
def Covers (p : Piece) (a : ℕ) : Prop := p.addr ≤ a ∧ a < p.addr + p.size

instance (p : Piece) : DecidablePred p.Covers := fun _ => inferInstanceAs (Decidable (_ ∧ _))

/-- The place of an address in the output. -/
def position (p : Piece) (a : ℕ) : ℕ := p.dst + (a - p.addr)

/-- The word at the address lies in the piece. -/
def Holds (p : Piece) (a : ℕ) : Prop := p.addr ≤ a ∧ a + 8 ≤ p.addr + p.size

instance (p : Piece) : DecidablePred p.Holds := fun _ => inferInstanceAs (Decidable (_ ∧ _))

lemma Holds.covers {p : Piece} {a : ℕ} (h : p.Holds a) : p.Covers a := ⟨h.1, by have := h.2; omega⟩

/-- Copy a piece into the output. -/
def copy (source : Bytes) (out : Bytes) (p : Piece) : Bytes :=
  sliceAssign out p.dst p.size (slice source p.src p.size)

end Piece

/-- Copy pieces one after another. -/
def copyPieces (source : Bytes) (ps : List Piece) (out : Bytes) : Bytes :=
  ps.foldl (Piece.copy source) out

/-- The pieces take ascending parts of the output. -/
def Ascending (ps : List Piece) : Prop := ps.Pairwise fun p q => p.dst + p.size ≤ q.dst

/-- The pieces lie inside the source and inside the output. -/
def Fit (ps : List Piece) (source : Bytes) (n : ℕ) : Prop :=
  ∀ p ∈ ps, p.src + p.size ≤ source.length ∧ p.dst + p.size ≤ n

/-- The addresses of different pieces are different. -/
def Separate (ps : List Piece) : Prop := ps.Pairwise fun p q => Disjoint p.addresses q.addresses

/-- The first piece that covers an address. -/
def findPiece (ps : List Piece) (a : ℕ) : Option Piece := ps.find? fun p => p.Covers a

/-- The place of an address, in the first piece that covers it. -/
def locate (ps : List Piece) (a : ℕ) : Option ℕ := (findPiece ps a).map fun p => p.position a

/-- The piece in which an address is found holds the whole word. -/
def FoundWhole (ps : List Piece) (a : ℕ) : Prop := ∃ p, findPiece ps a = some p ∧ p.Holds a

section

variable {source out : Bytes} {ps : List Piece} {p q : Piece}

@[simp] lemma copyPieces_cons (p : Piece) (ps : List Piece) :
    copyPieces source (p :: ps) out = copyPieces source ps (p.copy source out) := rfl

/-- A copy from a source that is too short makes the output shorter, or moves its end. -/
lemma Piece.length_copy_eq : (p.copy source out).length =
    min p.dst out.length + min p.size (source.length - p.src) +
      (out.length - (p.dst + p.size)) := by
  rw [copy, sliceAssign, List.length_append, List.length_append, List.length_take, length_slice,
    List.length_drop]

lemma Piece.length_copy (hsrc : p.src + p.size ≤ source.length)
    (hdst : p.dst + p.size ≤ out.length) : (p.copy source out).length = out.length :=
  length_sliceAssign (length_slice_of_le hsrc) hdst

lemma Piece.getElem?_copy (hsrc : p.src + p.size ≤ source.length)
    (hdst : p.dst + p.size ≤ out.length) (i : ℕ) :
    (p.copy source out)[i]? =
      if p.dst ≤ i ∧ i < p.dst + p.size then source[p.src + (i - p.dst)]? else out[i]? := by
  rw [copy, getElem?_sliceAssign (length_slice_of_le hsrc) (by omega)]
  split
  · rw [getElem?_slice, if_pos (by omega)]
  · rfl

/-- Nothing changes in front of the pieces, even when the source is too short for them. -/
lemma take_copyPieces {n : ℕ} (h : ∀ p ∈ ps, n ≤ p.dst) (hn : n ≤ out.length) :
    (copyPieces source ps out).take n = out.take n := by
  induction ps generalizing out with
  | nil => rfl
  | cons p ps ih =>
    obtain ⟨hp, hps⟩ := List.forall_mem_cons.mp h
    have hlen : n ≤ (p.copy source out).length := by
      rw [Piece.length_copy_eq]
      omega
    have hlen' : n ≤ (out.take p.dst).length := by
      rw [List.length_take]
      omega
    rw [copyPieces_cons, ih hps hlen, Piece.copy, sliceAssign, List.append_assoc,
      List.take_append_of_le_length hlen', List.take_take, Nat.min_eq_left hp]

/-- A source that is too short makes the output shorter, never longer. -/
lemma length_copyPieces_le {n : ℕ} (h : ∀ p ∈ ps, p.dst + p.size ≤ n) (hn : out.length ≤ n) :
    (copyPieces source ps out).length ≤ n := by
  induction ps generalizing out with
  | nil => exact hn
  | cons p ps ih =>
    obtain ⟨hp, hps⟩ := List.forall_mem_cons.mp h
    refine ih hps ?_
    rw [Piece.length_copy_eq]
    omega

lemma length_copyPieces (h : Fit ps source out.length) :
    (copyPieces source ps out).length = out.length := by
  induction ps generalizing out with
  | nil => rfl
  | cons p ps ih =>
    have hp := h p List.mem_cons_self
    have hlen := Piece.length_copy hp.1 hp.2
    rw [copyPieces_cons, ih (by rw [hlen]; exact fun q hq => h q (List.mem_cons_of_mem p hq)),
      hlen]

/-- Outside the pieces nothing changes. -/
lemma getElem?_copyPieces_of_notMem (h : Fit ps source out.length) {i : ℕ}
    (hi : ∀ p ∈ ps, i < p.dst ∨ p.dst + p.size ≤ i) :
    (copyPieces source ps out)[i]? = out[i]? := by
  induction ps generalizing out with
  | nil => rfl
  | cons p ps ih =>
    have hp := h p List.mem_cons_self
    have hout := hi p List.mem_cons_self
    have hlen := Piece.length_copy hp.1 hp.2
    rw [copyPieces_cons, ih (by rw [hlen]; exact fun q hq => h q (List.mem_cons_of_mem p hq))
      fun q hq => hi q (List.mem_cons_of_mem p hq), Piece.getElem?_copy hp.1 hp.2,
      if_neg (by omega)]

/-- **Every byte of every piece is found in the output.** -/
theorem getElem?_copyPieces (h : Fit ps source out.length) (hasc : Ascending ps) (hp : p ∈ ps)
    {a : ℕ} (ha : p.Covers a) :
    (copyPieces source ps out)[p.position a]? = source[p.src + (a - p.addr)]? := by
  rw [Piece.Covers] at ha
  induction ps generalizing out with
  | nil => simp at hp
  | cons q ps ih =>
    have hq := h q List.mem_cons_self
    have hlen := Piece.length_copy hq.1 hq.2
    have hfit : Fit ps source (q.copy source out).length := by
      rw [hlen]
      exact fun r hr => h r (List.mem_cons_of_mem q hr)
    rw [Ascending, List.pairwise_cons] at hasc
    rw [copyPieces_cons]
    rcases List.mem_cons.mp hp with rfl | hp
    · rw [getElem?_copyPieces_of_notMem hfit, Piece.getElem?_copy hq.1 hq.2, Piece.position,
        if_pos (by omega)]
      · congr 2
        omega
      · intro r hr
        have hlt := hasc.1 r hr
        rw [Piece.position]
        omega
    · exact ih hfit hasc.2 hp

/-- A piece without bytes may lie anywhere: copying it does nothing. -/
lemma Piece.copy_of_size_eq_zero (h : p.size = 0) : p.copy source out = out := by
  rw [copy, h, sliceAssign, slice, List.take_zero, List.append_nil, Nat.add_zero,
    List.take_append_drop]

/-- Only the pieces with bytes are copied. -/
lemma copyPieces_filter :
    copyPieces source (ps.filter fun p => p.size ≠ 0) out = copyPieces source ps out := by
  induction ps generalizing out with
  | nil => rfl
  | cons p ps ih =>
    by_cases hp : p.size = 0
    · rw [List.filter_cons_of_neg (by simp [hp]), copyPieces_cons,
        Piece.copy_of_size_eq_zero hp, ih]
    · rw [List.filter_cons_of_pos (by simp [hp]), copyPieces_cons, copyPieces_cons, ih]

/-- Two pieces are one and the same, or one is in front of the other. -/
lemma Ascending.trichotomy (hasc : Ascending ps) (hp : p ∈ ps) (hq : q ∈ ps) :
    p = q ∨ p.dst + p.size ≤ q.dst ∨ q.dst + q.size ≤ p.dst := by
  obtain ⟨i, hi, rfl⟩ := List.getElem_of_mem hp
  obtain ⟨j, hj, rfl⟩ := List.getElem_of_mem hq
  have hlt := List.pairwise_iff_getElem.mp hasc
  rcases Nat.lt_trichotomy i j with hij | rfl | hij
  · exact .inr (.inl (hlt i j hi hj hij))
  · exact .inl rfl
  · exact .inr (.inr (hlt j i hj hi hij))

/-- Words of different pieces, or apart in one piece, are apart in the output. -/
lemma apart_position (hasc : Ascending ps) (hp : p ∈ ps) (hq : q ∈ ps) {a b : ℕ}
    (ha : p.Holds a) (hb : q.Holds b) (hab : Apart a b) :
    Apart (p.position a) (q.position b) := by
  simp only [Piece.Holds, Apart, Piece.position] at *
  rcases hasc.trichotomy hp hq with rfl | hfront | hbehind <;> omega

/-- A byte outside the window of an address is outside it in the output. -/
lemma notMem_window (hasc : Ascending ps) (hp : p ∈ ps) (hq : q ∈ ps) {a b : ℕ}
    (ha : p.Covers a) (hb : q.Holds b) (hab : a < b ∨ b + 8 ≤ a) :
    p.position a < q.position b ∨ q.position b + 8 ≤ p.position a := by
  simp only [Piece.Holds, Piece.Covers, Piece.position] at *
  rcases hasc.trichotomy hp hq with rfl | hfront | hbehind <;> omega

lemma findPiece_eq_some {a : ℕ} (h : findPiece ps a = some p) : p ∈ ps ∧ p.Covers a :=
  ⟨List.mem_of_find?_eq_some h, by simpa using List.find?_some h⟩

/-- When the pieces are separate, any piece that covers an address is the one that is
found. -/
lemma findPiece_of_covers (hsep : Separate ps) (hp : p ∈ ps) {a : ℕ} (ha : p.Covers a) :
    findPiece ps a = some p := by
  induction ps with
  | nil => simp at hp
  | cons q ps ih =>
    rw [Separate, List.pairwise_cons] at hsep
    rcases List.mem_cons.mp hp with rfl | hp
    · simp [findPiece, ha]
    · have hdisj := hsep.1 p hp
      have hq : ¬ q.Covers a := fun hq => Set.disjoint_left.mp hdisj hq ha
      rw [findPiece, List.find?_cons_of_neg (by simpa using hq)]
      exact ih hsep.2 hp

lemma foundWhole_of_holds (hsep : Separate ps) (hp : p ∈ ps) {a : ℕ} (ha : p.Holds a) :
    FoundWhole ps a :=
  ⟨p, findPiece_of_covers hsep hp ha.covers, ha⟩

end

/-! ### Tilings -/

/-- Ranges, each with its start and its size, that follow each other from `a` to `b` without a
gap. -/
def Tiles : ℕ → List (ℕ × ℕ) → ℕ → Prop
  | a, [], b => a = b
  | a, r :: rs, b => r.1 = a ∧ Tiles (a + r.2) rs b

section

variable {a b c : ℕ} {rs ss : List (ℕ × ℕ)}

lemma tiles_append : Tiles a (rs ++ ss) c ↔ ∃ b, Tiles a rs b ∧ Tiles b ss c := by
  induction rs generalizing a with
  | nil => simp [Tiles]
  | cons r rs ih => simp [Tiles, ih, and_assoc]

lemma Tiles.bounds (h : Tiles a rs b) : a ≤ b ∧ ∀ r ∈ rs, a ≤ r.1 ∧ r.1 + r.2 ≤ b := by
  induction rs generalizing a with
  | nil => exact ⟨Nat.le_of_eq h, by simp⟩
  | cons r rs ih =>
    obtain ⟨rfl, hrest⟩ := h
    obtain ⟨hle, hmem⟩ := ih hrest
    refine ⟨by omega, List.forall_mem_cons.mpr ⟨by omega, fun s hs => ?_⟩⟩
    have := hmem s hs
    omega

/-- The ranges of a tiling do not overlap. -/
lemma Tiles.pairwise (h : Tiles a rs b) : rs.Pairwise fun r s => r.1 + r.2 ≤ s.1 := by
  induction rs generalizing a with
  | nil => exact .nil
  | cons r rs ih =>
    obtain ⟨rfl, hrest⟩ := h
    exact .cons (fun s hs => (hrest.bounds.2 s hs).1) (ih hrest)

end

end Apk2Ios.Lib
