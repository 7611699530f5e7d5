import Apk2Ios.Lib.Reader

/-!
# Opcode machines

A table of locations is often stored as a program: a sequence of one-byte opcodes with
operands, run by a machine whose registers keep their value until an opcode changes them.
The relation `Executes` says what a piece of such a program does from given registers; it
composes along concatenation, which is how a writer of programs is verified.
-/

namespace Apk2Ios.Lib

/-- A machine with registers `σ` whose opcodes emit events `ε`.  `step` reads the operands
of an opcode; an unknown opcode fails. -/
structure OpcodeMachine (σ ε : Type) where
  /-- The opcodes that end the program. -/
  isDone : UInt8 → Bool
  /-- The events and the new registers of one opcode. -/
  step : σ → UInt8 → Reader (List ε × σ)

namespace OpcodeMachine

variable {σ ε : Type} (M : OpcodeMachine σ ε)

/-- Run at most `fuel` opcodes and collect the events. -/
def run : ℕ → σ → Bytes → Option (List ε)
  | _, _, [] => some []
  | 0, _, _ :: _ => none
  | fuel + 1, s, b :: bs =>
    if M.isDone b then some []
    else do
      let p ← M.step s b bs
      let more ← run fuel p.1.2 p.2
      return p.1.1 ++ more

/-- All events of a program.  Every opcode takes at least one byte, so its length is
enough fuel. -/
def events (s : σ) (program : Bytes) : Option (List ε) := M.run program.length s program

/-- From the registers `s` the code emits `out` and leaves the registers `s'`, whatever
follows it. -/
def Executes (s : σ) (code : Bytes) (out : List ε) (s' : σ) : Prop :=
  ∀ fuel rest more, M.run fuel s' rest = some more →
    M.run (fuel + code.length) s (code ++ rest) = some (out ++ more)

variable {M}

lemma run_mono {fuel k : ℕ} {s : σ} {bs : Bytes} {out : List ε}
    (h : M.run fuel s bs = some out) : M.run (fuel + k) s bs = some out := by
  induction fuel generalizing s bs out with
  | zero =>
    cases bs with
    | nil => cases k <;> exact h
    | cons b bs => simp [run] at h
  | succ fuel ih =>
    cases bs with
    | nil => rw [show fuel + 1 + k = fuel + k + 1 by omega]; exact h
    | cons b bs =>
      rw [show fuel + 1 + k = fuel + k + 1 by omega]
      simp only [run] at h ⊢
      split
      · rwa [if_pos ‹_›] at h
      · rw [if_neg ‹_›] at h
        obtain ⟨p, hp, h⟩ := Option.bind_eq_some_iff.mp h
        obtain ⟨more, hmore, h⟩ := Option.bind_eq_some_iff.mp h
        exact Option.bind_eq_some_iff.mpr ⟨p, hp, Option.bind_eq_some_iff.mpr ⟨more, ih hmore, h⟩⟩

namespace Executes

lemma nil (s : σ) : M.Executes s [] [] s := fun _ _ _ h => h

lemma append {s s' s'' : σ} {c c' : Bytes} {o o' : List ε}
    (h : M.Executes s c o s') (h' : M.Executes s' c' o' s'') :
    M.Executes s (c ++ c') (o ++ o') s'' := by
  intro fuel rest more hmore
  have hrun := h _ _ _ (h' fuel rest more hmore)
  rw [List.append_assoc, List.append_assoc, List.length_append,
    show fuel + (c.length + c'.length) = fuel + c'.length + c.length by omega]
  exact hrun

/-- One opcode with its operands. -/
lemma op {s s' : σ} {b : UInt8} {operands : Bytes} {o : List ε} (hb : M.isDone b = false)
    (h : Encodes (M.step s b) (o, s') operands) : M.Executes s (b :: operands) o s' := by
  intro fuel rest more hmore
  have hlen : fuel + (b :: operands).length = fuel + operands.length + 1 := by
    simp only [List.length_cons]
    omega
  have hmono := run_mono (k := operands.length) hmore
  rw [hlen, List.cons_append, run, if_neg (by simp [hb]), h rest]
  simp [hmono]

/-- A program whose code executes up to the end opcode emits exactly the events of its
code. -/
lemma events_eq {s s' : σ} {code tail : Bytes} {b : UInt8} {o : List ε}
    (h : M.Executes s code o s') (hb : M.isDone b = true) :
    M.events s (code ++ b :: tail) = some o := by
  have hdone : M.run (tail.length + 1) s' (b :: tail) = some [] := by simp [run, hb]
  have hrun := h _ _ _ hdone
  rw [List.append_nil] at hrun
  rw [events, List.length_append, List.length_cons]
  rwa [show code.length + (tail.length + 1) = tail.length + 1 + code.length by omega]

end Executes

end OpcodeMachine

end Apk2Ios.Lib
