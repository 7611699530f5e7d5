import Mathlib.Data.List.Induction

/-!
# Runs

A component that answers one event after another visits a state before each event and one at
the end.  When every event keeps a property exactly under some condition, a run visits good
states only exactly when each of its events meets the condition.
-/

namespace Apk2Ios.Lib.Runs

variable {σ ε : Type*} (step : σ → ε → σ)

/-- The states of a run, the one at the start and the one at the end among them. -/
def visited : σ → List ε → List σ
  | s, [] => [s]
  | s, e :: es => s :: visited (step s e) es

/-- Every event meets the condition in the state before it. -/
def Along (P : σ → ε → Prop) : σ → List ε → Prop
  | _, [] => True
  | s, e :: es => P s e ∧ Along P (step s e) es

instance (P : σ → ε → Prop) [∀ s e, Decidable (P s e)] :
    ∀ (s : σ) (es : List ε), Decidable (Along step P s es)
  | _, [] => inferInstanceAs (Decidable True)
  | s, e :: es =>
    have := instDecidableAlong P (step s e) es
    inferInstanceAs (Decidable (P s e ∧ Along step P (step s e) es))

variable {step} {P : σ → ε → Prop} {G I : σ → Prop} {s : σ} {es : List ε}

lemma mem_visited (s : σ) (es : List ε) : s ∈ visited step s es := by
  cases es <;> exact List.mem_cons_self

/-- A condition that does not depend on the state. -/
lemma along_of_forall (h : ∀ e ∈ es, ∀ s, P s e) : Along step P s es := by
  induction es generalizing s with
  | nil => trivial
  | cons e es ih =>
    exact ⟨h e List.mem_cons_self s, ih fun e' he' => h e' (List.mem_cons_of_mem e he')⟩

/-- An invariant holds in every visited state. -/
lemma Along.invariant (hstep : ∀ s e, I s → P s e → I (step s e)) (hI : I s)
    (hP : Along step P s es) : ∀ t ∈ visited step s es, I t := by
  induction es generalizing s with
  | nil => exact fun t ht => List.mem_singleton.mp ht ▸ hI
  | cons e es ih =>
    intro t ht
    rcases List.mem_cons.mp ht with rfl | ht
    · exact hI
    · exact ih (hstep s e hI hP.1) hP.2 t ht

/-- **A run is good exactly when its events are**, if each event keeps a good state good exactly
under its condition. -/
theorem forall_visited_iff
    (hstep : ∀ s e, I s → G s → I (step s e) ∧ (G (step s e) ↔ P s e)) (hI : I s) (hG : G s) :
    (∀ t ∈ visited step s es, G t) ↔ Along step P s es := by
  induction es generalizing s with
  | nil => exact ⟨fun _ => trivial, fun _ t ht => List.mem_singleton.mp ht ▸ hG⟩
  | cons e es ih =>
    obtain ⟨hinv, hiff⟩ := hstep s e hI hG
    rw [visited, List.forall_mem_cons, Along, ← hiff]
    constructor
    · rintro ⟨-, h⟩
      have hnext := h _ (mem_visited _ es)
      exact ⟨hnext, (ih hinv hnext).mp h⟩
    · rintro ⟨hnext, h⟩
      exact ⟨hG, (ih hinv hnext).mpr h⟩

/-- An element of a list is the last one, or one of the others. -/
lemma append_singleton_eq_append_cons {es before after : List ε} {last e : ε} :
    es ++ [last] = before ++ e :: after ↔ es = before ∧ last = e ∧ after = [] ∨
      ∃ rest, after = rest ++ [last] ∧ es = before ++ e :: rest := by
  constructor
  · intro heq
    rcases List.eq_nil_or_concat after with rfl | ⟨rest, last', rfl⟩
    · obtain ⟨hes, hlast⟩ := List.append_inj' heq rfl
      exact .inl ⟨hes, List.singleton_inj.mp hlast, rfl⟩
    · rw [List.concat_eq_append, ← List.cons_append, ← List.append_assoc] at heq
      obtain ⟨hes, hlast⟩ := List.append_inj' heq rfl
      exact .inr ⟨rest, by rw [hlast, List.concat_eq_append], hes⟩
  · rintro (⟨rfl, rfl, rfl⟩ | ⟨rest, rfl, rfl⟩)
    · rfl
    · simp

/-- **The last write decides.**  When the property of a key is, after an event that writes the key,
the condition of this event, and stays as it is otherwise, it holds at the end of a run exactly when
the last event that has written the key, if any, has met its condition. -/
theorem foldl_iff_last {κ : Type*} {G : σ → κ → Prop} {writes : κ → ε → Prop}
    (hstep : ∀ s e, I s → I (step s e) ∧ ∀ a, (writes a e → (G (step s e) a ↔ P s e)) ∧
      (¬ writes a e → (G (step s e) a ↔ G s a)))
    (hI : I s) (hG : ∀ a, G s a) (es : List ε) (a : κ) :
    I (es.foldl step s) ∧
      (G (es.foldl step s) a ↔ ∀ before e after, es = before ++ e :: after → writes a e →
        (∀ e' ∈ after, ¬ writes a e') → P (before.foldl step s) e) := by
  induction es using List.reverseRecOn with
  | nil => exact ⟨hI, iff_of_true (hG a) fun before e after h => absurd h (by simp)⟩
  | append_singleton es last ih =>
    obtain ⟨hinv, hiff⟩ := ih
    obtain ⟨hinv', hkeys⟩ := hstep _ last hinv
    obtain ⟨hwrites, hother⟩ := hkeys a
    simp only [append_singleton_eq_append_cons]
    rw [List.foldl_append, List.foldl_cons, List.foldl_nil]
    refine ⟨hinv', ?_⟩
    by_cases hlast : writes a last
    · rw [hwrites hlast]
      constructor
      · rintro hP before e after (⟨rfl, rfl, rfl⟩ | ⟨rest, rfl, rfl⟩) _ hafter
        · exact hP
        · exact absurd hlast (hafter last (by simp))
      · exact fun h => h es last [] (.inl ⟨rfl, rfl, rfl⟩) hlast (by simp)
    · rw [hother hlast, hiff]
      constructor
      · rintro h before e after (⟨rfl, rfl, rfl⟩ | ⟨rest, rfl, rfl⟩) he hafter
        · exact absurd he hlast
        · exact h before e rest rfl he fun e' he' => hafter e' (List.mem_append_left _ he')
      · intro h before e rest heq he hafter
        refine h before e (rest ++ [last]) (.inr ⟨rest, rfl, heq⟩) he fun e' he' => ?_
        rcases List.mem_append.mp he' with hmem | hmem
        · exact hafter e' hmem
        · exact List.mem_singleton.mp hmem ▸ hlast

end Apk2Ios.Lib.Runs
