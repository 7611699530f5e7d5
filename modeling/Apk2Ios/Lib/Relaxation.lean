import Mathlib.Algebra.BigOperators.Group.List.Basic
import Mathlib.Algebra.Order.BigOperators.Group.List
import Mathlib.Algebra.Group.Action.Defs
import Mathlib.Algebra.GroupWithZero.Nat
import Mathlib.Algebra.Order.BigOperators.Group.Finset
import Mathlib.Algebra.BigOperators.Group.Finset.Piecewise
import Mathlib.Data.Finset.Max
import Mathlib.Data.List.Flatten
import Mathlib.Order.Interval.Finset.Nat

/-!
# Relaxation

Records lie one after another, and a record contains the places of others, each in as many bytes
as it needs.  The places depend on the sizes and the sizes on the places, so a layout starts with
all places zero and is repeated until nothing changes.

The places only grow.  A place becomes wider where it reaches a bound, and records that are some
bytes apart cannot reach a bound together unless something in front of them has grown by as much:
a pass that changes little is followed by passes that change less.
-/

namespace Apk2Ios.Lib.Relaxation

/-- A record: the bytes that it has in every layout, and the records whose places it contains. -/
structure Record where
  own : ℕ
  refs : List ℕ
deriving DecidableEq, Repr

/-- The bytes for a place: one more from each bound on. -/
def width (bounds : List ℕ) (x : ℕ) : ℕ := 1 + bounds.countP (· ≤ x)

/-- The bytes of a record when the records have the places `o`. -/
def Record.size (bounds : List ℕ) (o : ℕ → ℕ) (r : Record) : ℕ :=
  r.own + (r.refs.map fun c => width bounds (o c)).sum

/-- The place of the record `i` behind records that contain the places `o`. -/
def start (bounds : List ℕ) (rs : List Record) (o : ℕ → ℕ) (i : ℕ) : ℕ :=
  ((rs.take i).map (Record.size bounds o)).sum

/-- The places after some passes. -/
def place (bounds : List ℕ) (rs : List Record) : ℕ → ℕ → ℕ
  | 0 => fun _ => 0
  | k + 1 => start bounds rs (place bounds rs k)

/-- Every place is contained in one record at most. -/
structure Once (rs : List Record) : Prop where
  nodup : (rs.flatMap Record.refs).Nodup
  lt : ∀ c ∈ rs.flatMap Record.refs, c < rs.length

/-- The number of records at a bound or behind it. -/
def reached (rs : List Record) (o : ℕ → ℕ) (b : ℕ) : ℕ :=
  ((Finset.range rs.length).filter fun i => b ≤ o i).card

variable {bounds : List ℕ} {rs : List Record} {o o' : ℕ → ℕ} {r : Record} {i j k m b s : ℕ}

/-! ### Places grow -/

lemma width_mono (h : i ≤ j) : width bounds i ≤ width bounds j :=
  Nat.add_le_add_left (List.countP_mono_left fun b _ hb => by
    simp only [decide_eq_true_eq] at hb ⊢
    omega) 1

lemma width_le (x : ℕ) : width bounds x ≤ 1 + bounds.length :=
  Nat.add_le_add_left List.countP_le_length 1

lemma size_mono (h : ∀ i, o i ≤ o' i) (r : Record) : r.size bounds o ≤ r.size bounds o' :=
  Nat.add_le_add_left (List.sum_le_sum fun c _ => width_mono (h c)) r.own

lemma start_mono (h : ∀ i, o i ≤ o' i) (i : ℕ) : start bounds rs o i ≤ start bounds rs o' i :=
  List.sum_le_sum fun r _ => size_mono h r

lemma start_succ (hi : rs[i]? = some r) :
    start bounds rs o (i + 1) = start bounds rs o i + r.size bounds o := by
  rw [start, start, List.take_add_one, hi, Option.toList_some, List.map_append, List.sum_append,
    List.map_singleton, List.sum_singleton]

/-- From one pass to the next no place decreases. -/
lemma place_le_succ (k i : ℕ) : place bounds rs k i ≤ place bounds rs (k + 1) i := by
  induction k generalizing i with
  | zero => exact Nat.zero_le _
  | succ k ih => exact start_mono ih i

lemma place_mono (h : j ≤ k) (i : ℕ) : place bounds rs j i ≤ place bounds rs k i :=
  monotone_nat_of_le_succ (f := fun k => place bounds rs k i) (fun k => place_le_succ k i) h

/-! ### Growth -/

lemma start_eq (i : ℕ) : start bounds rs o i = ((rs.take i).map Record.own).sum +
    (((rs.take i).flatMap Record.refs).map fun c => width bounds (o c)).sum := by
  rw [start]
  induction rs.take i with
  | nil => rfl
  | cons r rest ih =>
    rw [List.map_cons, List.sum_cons, ih, List.map_cons, List.sum_cons, List.flatMap_cons,
      List.map_append, List.sum_append, Record.size]
    omega

/-- The bytes of all places, by the bounds that they have reached. -/
lemma sum_width (rs : List Record) : ∑ c ∈ Finset.range rs.length, width bounds (o c) =
    rs.length + (bounds.map (reached rs o)).sum := by
  induction bounds with
  | nil => simp [width]
  | cons b bounds ih =>
    have hwidth : ∀ c, width (b :: bounds) (o c) =
        (if b ≤ o c then 1 else 0) + width bounds (o c) := by
      intro c
      by_cases h : b ≤ o c
      · simp [width, h]
        omega
      · simp [width, h]
    rw [Finset.sum_congr rfl fun c _ => hwidth c, Finset.sum_add_distrib, ih, List.map_cons,
      List.sum_cons, reached, Finset.card_filter]
    omega

/-- What is in front of a record grows by no more than all places together. -/
lemma start_add_le (honce : Once rs) (h : ∀ i, o i ≤ o' i) (i : ℕ) :
    start bounds rs o' i + (bounds.map (reached rs o)).sum ≤
      start bounds rs o i + (bounds.map (reached rs o')).sum := by
  have hsub : ((rs.take i).flatMap Record.refs).Sublist (rs.flatMap Record.refs) :=
    (List.take_sublist i rs).flatMap _
  have hnodup := honce.nodup.sublist hsub
  have hrange : ((rs.take i).flatMap Record.refs).toFinset ⊆ Finset.range rs.length := by
    intro c hc
    exact Finset.mem_range.mpr (honce.lt c (hsub.subset (List.mem_toFinset.mp hc)))
  -- the places that are not in front of the record do not decrease
  have hrest : ∑ c ∈ Finset.range rs.length \ ((rs.take i).flatMap Record.refs).toFinset,
      width bounds (o c) ≤
        ∑ c ∈ Finset.range rs.length \ ((rs.take i).flatMap Record.refs).toFinset,
          width bounds (o' c) := Finset.sum_le_sum fun c _ => width_mono (h c)
  have hsplit := Finset.sum_sdiff hrange (f := fun c => width bounds (o c))
  have hsplit' := Finset.sum_sdiff hrange (f := fun c => width bounds (o' c))
  rw [sum_width, List.sum_toFinset _ hnodup] at hsplit hsplit'
  rw [start_eq, start_eq]
  omega

/-- Records in a row are as far apart as neighbours are, together. -/
lemma add_mul_le (hspace : ∀ i, i + 1 < rs.length → o i + s ≤ o (i + 1)) (d u : ℕ)
    (hu : u + d < rs.length) : o u + s * d ≤ o (u + d) := by
  induction d with
  | zero => simp
  | succ d ih =>
    have hlast := hspace (u + d) (by omega)
    have hrest := ih (by omega)
    have hmul : s * (d + 1) = s * d + s := Nat.mul_succ s d
    rw [← Nat.add_assoc]
    omega

/-- The records that are in front of a bound and then at it or behind it. -/
def crossing (rs : List Record) (o o' : ℕ → ℕ) (b : ℕ) : Finset ℕ :=
  (Finset.range rs.length).filter fun i => o i < b ∧ b ≤ o' i

lemma mem_crossing : i ∈ crossing rs o o' b ↔ i < rs.length ∧ o i < b ∧ b ≤ o' i := by
  rw [crossing, Finset.mem_filter, Finset.mem_range]

lemma reached_le_add_card : reached rs o' b ≤ reached rs o b + (crossing rs o o' b).card := by
  refine (Finset.card_le_card ?_).trans (Finset.card_union_le _ _)
  intro i hi
  rw [Finset.mem_filter, Finset.mem_range] at hi
  rw [Finset.mem_union, Finset.mem_filter, Finset.mem_range, mem_crossing]
  by_cases hb : b ≤ o i
  · exact .inl ⟨hi.1, hb⟩
  · exact .inr ⟨hi.1, Nat.lt_of_not_le hb, hi.2⟩

/-- The records that reach a bound lie close together: the first of them is not far in front of
it. -/
lemma exists_of_reached_lt (hspace : ∀ i, i + 1 < rs.length → o i + s ≤ o (i + 1))
    (h : reached rs o b < reached rs o' b) : ∃ u < rs.length, o u < b ∧ b ≤ o' u ∧
      s * (reached rs o' b - reached rs o b) + o u < b + s := by
  have hcard : reached rs o' b ≤ reached rs o b + (crossing rs o o' b).card := reached_le_add_card
  have hne : (crossing rs o o' b).Nonempty := by
    rw [← Finset.card_pos]
    omega
  have hmem : ∀ i ∈ crossing rs o o' b, i < rs.length ∧ o i < b ∧ b ≤ o' i :=
    fun i hi => mem_crossing.mp hi
  generalize crossing rs o o' b = S at hcard hne hmem
  have hmin := hmem _ (S.min'_mem hne)
  have hmax := hmem _ (S.max'_mem hne)
  have hle := S.min'_le_max' hne
  refine ⟨S.min' hne, hmin.1, hmin.2.1, hmin.2.2, ?_⟩
  -- the crossing nodes lie between the first and the last of them, `s` apart from each other
  have hinterval : S.card ≤ S.max' hne - S.min' hne + 1 := by
    have hsub : S ⊆ Finset.Icc (S.min' hne) (S.max' hne) := fun i hi =>
      Finset.mem_Icc.mpr ⟨S.min'_le i hi, S.le_max' i hi⟩
    have := Finset.card_le_card hsub
    rw [Nat.card_Icc] at this
    omega
  have hdist := add_mul_le hspace (S.max' hne - S.min' hne) (S.min' hne) (by omega)
  rw [Nat.add_sub_cancel' hle] at hdist
  have hmul : s * (reached rs o' b - reached rs o b) ≤
      s * (S.max' hne - S.min' hne + 1) := Nat.mul_le_mul_left s (by omega)
  rw [Nat.mul_succ] at hmul
  omega

/-- When no record reaches a bound, the next pass changes nothing. -/
lemma place_eq_of_reached (honce : Once rs)
    (h : ∀ b ∈ bounds, reached rs (place bounds rs (k + 1)) b ≤ reached rs (place bounds rs k) b) :
    place bounds rs (k + 2) = place bounds rs (k + 1) := by
  have hwidth : ∀ c < rs.length,
      width bounds (place bounds rs (k + 1) c) = width bounds (place bounds rs k c) := by
    intro c hc
    refine congrArg (1 + ·) (List.countP_congr fun b hb => ?_)
    have hsub : ((Finset.range rs.length).filter fun i => b ≤ place bounds rs k i) ⊆
        (Finset.range rs.length).filter fun i => b ≤ place bounds rs (k + 1) i := by
      intro i hi
      rw [Finset.mem_filter] at hi ⊢
      exact ⟨hi.1, hi.2.trans (place_le_succ k i)⟩
    have heq := Finset.eq_of_subset_of_card_le hsub (h b hb)
    have hmem : ∀ i < rs.length, b ≤ place bounds rs k i ↔ b ≤ place bounds rs (k + 1) i := by
      intro i hi
      have := Finset.ext_iff.mp heq i
      simpa [hi] using this
    simpa using (hmem c hc).symm
  funext i
  show start bounds rs _ i = start bounds rs _ i
  refine congrArg List.sum (List.map_congr_left fun r hr => ?_)
  refine congrArg (r.own + ·) (congrArg List.sum (List.map_congr_left fun c hc => hwidth c ?_))
  exact honce.lt c (List.mem_flatMap.mpr ⟨r, List.mem_of_mem_take hr, hc⟩)

/-- Places grow by no larger factor than records. -/
lemma mul_start_le {p q : ℕ} (h : ∀ r ∈ rs, p * r.size bounds o' ≤ q * r.size bounds o) (i : ℕ) :
    p * start bounds rs o' i ≤ q * start bounds rs o i := by
  have hall : ∀ l : List Record, (∀ r ∈ l, r ∈ rs) →
      p * (l.map (Record.size bounds o')).sum ≤ q * (l.map (Record.size bounds o)).sum := by
    intro l
    induction l with
    | nil => simp
    | cons r l ih =>
      intro hl
      have hr := h r (hl r List.mem_cons_self)
      have hrest := ih fun x hx => hl x (List.mem_cons_of_mem r hx)
      simp only [List.map_cons, List.sum_cons, Nat.mul_add]
      omega
  exact hall _ fun r hr => List.mem_of_mem_take hr

lemma size_bounds (bounds : List ℕ) (o : ℕ → ℕ) (r : Record) :
    r.own + r.refs.length ≤ r.size bounds o ∧
      r.size bounds o ≤ r.own + r.refs.length * (1 + bounds.length) := by
  have hlow := List.card_nsmul_le_sum (r.refs.map fun c => width bounds (o c)) 1 (by
    simp only [List.forall_mem_map]
    exact fun c _ => Nat.le_add_right 1 _)
  have hhigh := List.sum_le_card_nsmul (r.refs.map fun c => width bounds (o c))
    (1 + bounds.length) (by
      simp only [List.forall_mem_map]
      exact fun c _ => width_le _)
  rw [List.length_map, smul_eq_mul] at hlow hhigh
  rw [Record.size]
  omega

/-- No record ends behind all bytes with the widest places. -/
lemma start_add_own_le (hr : rs[i]? = some r) : start bounds rs o i + r.own ≤
    (rs.map fun r => r.own + r.refs.length * (1 + bounds.length)).sum := by
  have hsize := (size_bounds bounds o r).1
  have hend : start bounds rs o (i + 1) ≤ (rs.map (Record.size bounds o)).sum :=
    ((List.take_sublist (i + 1) rs).map _).sum_le_sum fun _ _ => Nat.zero_le _
  have hwide : (rs.map (Record.size bounds o)).sum ≤
      (rs.map fun r => r.own + r.refs.length * (1 + bounds.length)).sum :=
    List.sum_le_sum fun r _ => (size_bounds bounds o r).2
  rw [start_succ hr] at hend
  omega

/-! ### How many records reach a bound -/

/-- Records other than the last one have `s` bytes in every layout. -/
def Spaced (s : ℕ) (rs : List Record) : Prop :=
  ∀ i r, i + 1 < rs.length → rs[i]? = some r → s ≤ r.own + r.refs.length

lemma Spaced.add_le (h : Spaced s rs) (k : ℕ) (hi : i + 1 < rs.length) :
    place bounds rs (k + 1) i + s ≤ place bounds rs (k + 1) (i + 1) := by
  have hr : rs[i]? = some rs[i] := List.getElem?_eq_getElem _
  have hsize := (size_bounds bounds (place bounds rs k) rs[i]).1
  have hs := h i _ hi hr
  show start bounds rs _ i + s ≤ start bounds rs _ (i + 1)
  rw [start_succ hr]
  omega

lemma reached_mono (h : ∀ i, o i ≤ o' i) : reached rs o b ≤ reached rs o' b := by
  refine Finset.card_le_card fun i hi => ?_
  rw [Finset.mem_filter] at hi ⊢
  exact ⟨hi.1, hi.2.trans (h i)⟩

/-- More records reach a bound only where as much has been added in front of them. -/
lemma Spaced.reached_growth (h : Spaced s rs) (honce : Once rs) (hs : 0 < s)
    (bounds : List ℕ) (hjm : j ≤ m) (b : ℕ) :
    s * reached rs (place bounds rs (m + 1)) b +
        (bounds.map (reached rs (place bounds rs j))).sum <
      s * reached rs (place bounds rs (j + 1)) b +
        (bounds.map (reached rs (place bounds rs m))).sum + s := by
  have hmono : (bounds.map (reached rs (place bounds rs j))).sum ≤
      (bounds.map (reached rs (place bounds rs m))).sum :=
    List.sum_le_sum fun b _ => reached_mono (place_mono hjm)
  by_cases hlt : reached rs (place bounds rs (j + 1)) b < reached rs (place bounds rs (m + 1)) b
  · obtain ⟨u, -, -, hu, hclose⟩ := exists_of_reached_lt (o := place bounds rs (j + 1))
      (fun _ hi => h.add_le j hi) hlt
    have hadd : place bounds rs (m + 1) u + (bounds.map (reached rs (place bounds rs j))).sum ≤
        place bounds rs (j + 1) u + (bounds.map (reached rs (place bounds rs m))).sum :=
      start_add_le honce (place_mono hjm) u
    have hsub := Nat.mul_sub s (reached rs (place bounds rs (m + 1)) b)
      (reached rs (place bounds rs (j + 1)) b)
    have hle := Nat.mul_le_mul_left s hlt.le
    omega
  · have hle := Nat.mul_le_mul_left s (Nat.le_of_not_lt hlt)
    omega

/-- The places in front of a record take three fifths of the bytes at most, however wide they
are, so few records reach a bound after the first pass. -/
lemma Spaced.reached_ratio (h : Spaced 4 rs)
    (hratio : ∀ i, 3 * o i ≤ 5 * place bounds rs 1 i) (b : ℕ) :
    20 * reached rs o b < 20 * reached rs (place bounds rs 1) b + 2 * b + 20 := by
  by_cases hlt : reached rs (place bounds rs 1) b < reached rs o b
  · obtain ⟨u, -, -, hu, hclose⟩ := exists_of_reached_lt (o := place bounds rs 1)
      (fun _ hi => h.add_le 0 hi) hlt
    have hu' := hratio u
    omega
  · omega

/-! ### Places in groups of seven bits -/

/-- The bounds for places below `2 ^ 21` in groups of seven bits. -/
def sevenBits : List ℕ := [128, 16384]

/-- The first pass puts a record at no less than three fifths of its place. -/
lemma place_ratio (hown : ∀ r ∈ rs, 2 * r.refs.length ≤ r.own) (m i : ℕ) :
    3 * place sevenBits rs (m + 1) i ≤ 5 * place sevenBits rs 1 i := by
  refine mul_start_le (fun r hr => ?_) i
  have hlow := (size_bounds sevenBits (place sevenBits rs 0) r).1
  have hhigh := (size_bounds sevenBits (place sevenBits rs m) r).2
  have htwo := hown r hr
  simp only [sevenBits, List.length_cons, List.length_nil] at hhigh hlow ⊢
  omega

section

variable {P Q : ℕ → ℕ}

/-- When few records reach the first bound, the numbers of those that reach the second one fall
from 1639 to 6. -/
lemma growth_seven (hP : ∀ j m, P (m + 1) ≤ P (j + 1) + 13) (hQ : Q 2 ≤ Q 1 + 1639)
    (hgrowth : ∀ j m, j ≤ m → 4 * Q (m + 1) + P j + Q j < 4 * Q (j + 1) + P m + Q m + 4) :
    Q 7 ≤ Q 6 + 6 := by
  have h3 : Q 3 ≤ Q 2 + 413 := by
    have hg : 4 * Q 3 + P 1 + Q 1 < 4 * Q 2 + P 2 + Q 2 + 4 := hgrowth 1 2 (by decide)
    have hp : P 2 ≤ P 1 + 13 := hP 0 1
    omega
  have h4 : Q 4 ≤ Q 3 + 107 := by
    have hg : 4 * Q 4 + P 2 + Q 2 < 4 * Q 3 + P 3 + Q 3 + 4 := hgrowth 2 3 (by decide)
    have hp : P 3 ≤ P 2 + 13 := hP 1 2
    omega
  have h5 : Q 5 ≤ Q 4 + 30 := by
    have hg : 4 * Q 5 + P 3 + Q 3 < 4 * Q 4 + P 4 + Q 4 + 4 := hgrowth 3 4 (by decide)
    have hp : P 4 ≤ P 3 + 13 := hP 2 3
    omega
  have h6 : Q 6 ≤ Q 5 + 11 := by
    have hg : 4 * Q 6 + P 4 + Q 4 < 4 * Q 5 + P 5 + Q 5 + 4 := hgrowth 4 5 (by decide)
    have hp : P 5 ≤ P 4 + 13 := hP 3 4
    omega
  have hg : 4 * Q 7 + P 5 + Q 5 < 4 * Q 6 + P 6 + Q 6 + 4 := hgrowth 5 6 (by decide)
  have hp : P 6 ≤ P 5 + 13 := hP 4 5
  omega

/-- Numbers that grow so little stand still once in 31 passes. -/
lemma exists_not_lt (hmono : ∀ k, Q k ≤ Q (k + 1)) (hP : ∀ j m, P (m + 1) ≤ P (j + 1) + 13)
    (hQ : Q 2 ≤ Q 1 + 1639)
    (hgrowth : ∀ j m, j ≤ m → 4 * Q (m + 1) + P j + Q j < 4 * Q (j + 1) + P m + Q m + 4) :
    ∃ k < 31, P (k + 1) + Q (k + 1) ≤ P k + Q k := by
  -- otherwise the sum grows in every pass, by 24 from pass 7 to pass 31
  by_contra hno
  have hmoves : ∀ k < 31, P k + Q k < P (k + 1) + Q (k + 1) := by
    intro k hk
    by_contra hle
    exact hno ⟨k, hk, Nat.le_of_not_lt hle⟩
  have hsum : ∀ d ≤ 24, P 7 + Q 7 + d ≤ P (7 + d) + Q (7 + d) := by
    intro d
    induction d with
    | zero => simp
    | succ d ih =>
      intro hd
      have hstep := hmoves (7 + d) (by omega)
      have hrest := ih (by omega)
      show _ ≤ P (7 + d + 1) + Q (7 + d + 1)
      omega
  have h24 : P 7 + Q 7 + 24 ≤ P 31 + Q 31 := hsum 24 le_rfl
  have h7 := growth_seven hP hQ hgrowth
  have h31 : 4 * Q 31 + P 6 + Q 6 < 4 * Q 7 + P 30 + Q 30 + 4 := hgrowth 6 30 (by decide)
  have hP30 : P 30 ≤ P 6 + 13 := hP 5 29
  have hP31 : P 31 ≤ P 7 + 13 := hP 6 30
  have hQ30 : Q 30 ≤ Q 31 := hmono 30
  omega

end

/-- **Relaxation ends.**  For records that are at least four bytes apart, with two bytes for each
place besides the place, the layout is stable after 31 passes at most. -/
theorem exists_stable (honce : Once rs) (hown : ∀ r ∈ rs, 2 * r.refs.length ≤ r.own)
    (hspace : Spaced 4 rs) :
    ∃ k < 32, place sevenBits rs (k + 1) = place sevenBits rs k := by
  -- the numbers of records at the two bounds
  obtain ⟨P, hP⟩ : ∃ P : ℕ → ℕ, ∀ k, P k = reached rs (place sevenBits rs k) 128 :=
    ⟨_, fun _ => rfl⟩
  obtain ⟨Q, hQ⟩ : ∃ Q : ℕ → ℕ, ∀ k, Q k = reached rs (place sevenBits rs k) 16384 :=
    ⟨_, fun _ => rfl⟩
  have hmono : ∀ k, P k ≤ P (k + 1) ∧ Q k ≤ Q (k + 1) := by
    intro k
    rw [hP, hP, hQ, hQ]
    exact ⟨reached_mono (place_le_succ k), reached_mono (place_le_succ k)⟩
  have hfewP : ∀ j m, P (m + 1) ≤ P (j + 1) + 13 := by
    intro j m
    have hfew := hspace.reached_ratio (place_ratio hown m) 128
    have hfirst : P 1 ≤ P (j + 1) := by
      rw [hP, hP]
      exact reached_mono (place_mono (by omega))
    rw [← hP, ← hP] at hfew
    omega
  have hfewQ : Q 2 ≤ Q 1 + 1639 := by
    have hfew := hspace.reached_ratio (place_ratio hown 1) 16384
    rw [← hQ, ← hQ] at hfew
    change 20 * Q 2 < _ at hfew
    omega
  have hgrowth : ∀ j m, j ≤ m → 4 * Q (m + 1) + P j + Q j < 4 * Q (j + 1) + P m + Q m + 4 := by
    intro j m hjm
    have hsum : ∀ k, (sevenBits.map (reached rs (place sevenBits rs k))).sum = P k + Q k := by
      intro k
      rw [hP, hQ]
      rfl
    have h := hspace.reached_growth honce (by decide) sevenBits hjm 16384
    rw [hsum, hsum, ← hQ, ← hQ] at h
    omega
  obtain ⟨k, hk, hstill⟩ := exists_not_lt (fun k => (hmono k).2) hfewP hfewQ hgrowth
  obtain ⟨hPk, hQk⟩ := hmono k
  refine ⟨k + 1, by omega, place_eq_of_reached honce ?_⟩
  intro b hb
  rcases List.mem_pair.mp hb with rfl | rfl
  · rw [← hP, ← hP]
    omega
  · rw [← hQ, ← hQ]
    omega

end Apk2Ios.Lib.Relaxation
