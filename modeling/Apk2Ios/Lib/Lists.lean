import Mathlib.Data.List.Forall2

/-!
# Lists

Lists that are related element by element, the maximum of a list, and `mapM` of a function
that returns on every element.
-/

namespace Apk2Ios.Lib

/-- Every element of the second of two related lists is related to one of the first. -/
lemma exists_of_mem_forall₂ {α β : Type} {R : α → β → Prop} {xs : List α} {ys : List β} {y : β}
    (h : List.Forall₂ R xs ys) (hy : y ∈ ys) : ∃ x ∈ xs, R x y := by
  induction h with
  | nil => simp at hy
  | @cons x y' xs ys hx _ ih =>
    rcases List.mem_cons.mp hy with rfl | hy
    · exact ⟨x, List.mem_cons_self, hx⟩
    · obtain ⟨x', hx', hR⟩ := ih hy
      exact ⟨x', List.mem_cons_of_mem x hx', hR⟩

/-- Related lists have the same image under functions that agree on related elements. -/
lemma map_eq_map_of_forall₂ {α β γ : Type} {R : α → β → Prop} {f : α → γ} {g : β → γ}
    {xs : List α} {ys : List β} (h : List.Forall₂ R xs ys) (hfg : ∀ x y, R x y → f x = g y) :
    xs.map f = ys.map g := by
  induction h with
  | nil => rfl
  | cons hxy _ ih => rw [List.map_cons, List.map_cons, hfg _ _ hxy, ih]

lemma le_foldl_max {l : List ℕ} {m : ℕ} : m ≤ l.foldl max m ∧ ∀ n ∈ l, n ≤ l.foldl max m := by
  induction l generalizing m with
  | nil => simp
  | cons a l ih =>
    obtain ⟨hle, hmem⟩ := ih (m := max m a)
    rw [List.foldl_cons]
    refine ⟨by omega, fun n hn => ?_⟩
    rcases List.mem_cons.mp hn with rfl | hn
    · omega
    · exact hmem n hn

lemma foldl_max_le {l : List ℕ} {m b : ℕ} (hm : m ≤ b) (h : ∀ n ∈ l, n ≤ b) :
    l.foldl max m ≤ b := by
  induction l generalizing m with
  | nil => exact hm
  | cons a l ih =>
    have ha := h a List.mem_cons_self
    exact ih (by omega) fun n hn => h n (List.mem_cons_of_mem a hn)

lemma dvd_foldl_max {l : List ℕ} {m d : ℕ} (hm : d ∣ m) (h : ∀ n ∈ l, d ∣ n) :
    d ∣ l.foldl max m := by
  induction l generalizing m with
  | nil => exact hm
  | cons a l ih =>
    refine ih ?_ fun n hn => h n (List.mem_cons_of_mem a hn)
    rcases Nat.le_total m a with hle | hle
    · rw [Nat.max_eq_right hle]
      exact h a List.mem_cons_self
    · rwa [Nat.max_eq_left hle]

/-- Only one element passes a filter that no two elements pass. -/
lemma filter_eq_singleton {α : Type} {l : List α} {P : α → Bool} {i : ℕ} {a : α}
    (ha : l[i]? = some a) (hP : P a) (hpair : l.Pairwise fun x y => ¬ (P x ∧ P y)) :
    l.filter P = [a] := by
  induction l generalizing i with
  | nil => simp at ha
  | cons b l ih =>
    rw [List.pairwise_cons] at hpair
    cases i with
    | zero =>
      obtain rfl := Option.some.inj ha
      have hrest : l.filter P = [] :=
        List.filter_eq_nil_iff.mpr fun x hx hPx => hpair.1 x hx ⟨hP, hPx⟩
      rw [List.filter_cons_of_pos hP, hrest]
    | succ i =>
      have ha' : l[i]? = some a := ha
      have hb : ¬ P b := fun hPb => hpair.1 a (List.mem_of_getElem? ha') ⟨hPb, hP⟩
      rw [List.filter_cons_of_neg hb]
      exact ih ha' hpair.2

lemma mapM_eq_some_map {α β : Type} {f : α → Option β} {g : α → β} {l : List α}
    (h : ∀ a ∈ l, f a = some (g a)) : l.mapM f = some (l.map g) := by
  induction l with
  | nil => rfl
  | cons a l ih =>
    rw [List.mapM_cons, h a List.mem_cons_self, ih fun b hb => h b (List.mem_cons_of_mem a hb)]
    rfl

/-- `mapM` gives a list only when every element has a value. -/
lemma exists_of_mapM_eq_some {α β : Type} {f : α → Option β} {l : List α} {bs : List β}
    (h : l.mapM f = some bs) : ∀ a ∈ l, ∃ b, f a = some b := by
  induction l generalizing bs with
  | nil => simp
  | cons a l ih =>
    rw [List.mapM_cons, Option.bind_eq_bind, Option.bind_eq_some_iff] at h
    obtain ⟨b, hb, h⟩ := h
    rw [Option.bind_eq_bind, Option.bind_eq_some_iff] at h
    obtain ⟨rest, hrest, -⟩ := h
    exact List.forall_mem_cons.mpr ⟨⟨b, hb⟩, ih hrest⟩

/-- The values of a `mapM` that gives a list, element by element. -/
lemma mapM_eq_some_iff {α β : Type} {f : α → Option β} {l : List α} {bs : List β} :
    l.mapM f = some bs ↔ List.Forall₂ (fun a b => f a = some b) l bs := by
  induction l generalizing bs with
  | nil => simp [eq_comm]
  | cons a l ih =>
    simp only [List.mapM_cons, Option.bind_eq_bind, Option.bind_eq_some_iff, ih]
    constructor
    · rintro ⟨b, hb, rest, hrest, h⟩
      obtain rfl := Option.some.inj h
      exact .cons hb hrest
    · rintro (_ | ⟨hb, hrest⟩)
      exact ⟨_, hb, _, hrest, rfl⟩

lemma exists_forall₂ {α β : Type} {R : α → β → Prop} {l : List α} (h : ∀ a ∈ l, ∃ b, R a b) :
    ∃ bs, List.Forall₂ R l bs := by
  induction l with
  | nil => exact ⟨[], .nil⟩
  | cons a l ih =>
    obtain ⟨⟨b, hb⟩, hl⟩ := List.forall_mem_cons.mp h
    obtain ⟨bs, hbs⟩ := ih hl
    exact ⟨b :: bs, .cons hb hbs⟩

end Apk2Ios.Lib
