import Apk2Ios.Lib.Threads

/-!
# Histories

A run of threads in which some steps leave a record.  Every run has a history, and the records of
one thread are a part of it.
-/

namespace Apk2Ios.Lib.Threads

variable {ι σ π ε : Type*} [DecidableEq ι]

/-- A run from `c₀` with its records, the oldest first; `record s p s' p'` is what a step leaves. -/
inductive Recorded (P : Threads ι σ π) (record : σ → π → σ → π → Option ε) (c₀ : Config ι σ π) :
    List (ι × ε) → Config ι σ π → Prop
  | start : Recorded P record c₀ [] c₀
  | thread {es : List (ι × ε)} {c : Config ι σ π} (i : ι) {s' : σ} {p' : π} :
      Recorded P record c₀ es c → P.thread i c.memory (c.point i) s' p' →
      Recorded P record c₀ (es ++ ((record c.memory (c.point i) s' p').map (Prod.mk i)).toList)
        ⟨s', Function.update c.point i p'⟩
  | env {es : List (ι × ε)} {c : Config ι σ π} {s' : σ} :
      Recorded P record c₀ es c → P.env c.memory s' → Recorded P record c₀ es ⟨s', c.point⟩

variable {P : Threads ι σ π} {record : σ → π → σ → π → Option ε} {c₀ c : Config ι σ π}
  {es : List (ι × ε)} {i j : ι}

lemma Recorded.reaches (h : P.Recorded record c₀ es c) : P.Reaches c₀ c := by
  induction h with
  | start => exact .refl
  | thread i _ hstep ih => exact ih.tail (.thread i hstep)
  | env _ hstep ih => exact ih.tail (.env hstep)

/-- A step of the only thread there is. -/
lemma Recorded.tail_alone [Subsingleton ι] (i : ι) {s s' : σ} {p p' : π}
    (h : P.Recorded record c₀ es ⟨s, fun _ ↦ p⟩) (hstep : P.thread i s p s' p') :
    P.Recorded record c₀ (es ++ ((record s p s' p').map (Prod.mk i)).toList)
      ⟨s', fun _ ↦ p'⟩ := by
  have hupdate : (fun _ ↦ p') = Function.update (fun _ ↦ p) i p' :=
    (Function.update_eq_const_of_subsingleton i p' _).symm
  rw [hupdate]
  exact h.thread i hstep

/-- Every run has a history, so what holds of all histories holds of all runs. -/
lemma Reaches.exists_recorded (h : P.Reaches c₀ c) : ∃ es, P.Recorded record c₀ es c := by
  induction h with
  | refl => exact ⟨[], .start⟩
  | tail _ hlast ih =>
    obtain ⟨es, hes⟩ := ih
    cases hlast with
    | thread i hstep => exact ⟨_, hes.thread i hstep⟩
    | env hstep => exact ⟨es, hes.env hstep⟩

/-- The records of one thread. -/
def recordsOf (i : ι) (es : List (ι × ε)) : List ε :=
  (es.filter fun e ↦ e.1 = i).map Prod.snd

lemma recordsOf_append_self (e : Option ε) :
    recordsOf i (es ++ (e.map (Prod.mk i)).toList) = recordsOf i es ++ e.toList := by
  cases e <;> simp [recordsOf]

lemma recordsOf_append_of_ne (hij : i ≠ j) (e : Option ε) :
    recordsOf j (es ++ (e.map (Prod.mk i)).toList) = recordsOf j es := by
  cases e <;> simp [recordsOf, hij]

end Apk2Ios.Lib.Threads
