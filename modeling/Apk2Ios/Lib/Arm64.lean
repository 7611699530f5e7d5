import Apk2Ios.Lib.Memory

/-!
# A small part of AArch64

The registers and the memory of a processor, and a few instructions: branches, the computation
of an address, stores and moves.  Targets are symbols, which a linker has placed.  A block of
instructions that all go on with the next one runs from its start to its end.
-/

namespace Apk2Ios.Arm64

open Lib

/-- There is a general register, with number `0`. -/
scoped instance (priority := high) neZero_general : NeZero 31 := ⟨by decide⟩

/-- The registers and the memory.  Of a vector register only the low half is here. -/
@[ext] structure State where
  x : Fin 31 → BitVec 64
  sp : BitVec 64
  d : Fin 32 → BitVec 64
  memory : Memory
  pc : BitVec 64

/-- The instructions; their text is in the comments. -/
inductive Instr where
  /-- `b target` -/
  | b (target : String)
  /-- `ret` -/
  | ret
  /-- `adrp xd, target@PAGE` -/
  | adrp (rd : Fin 31) (target : String)
  /-- `add xd, xn, target@PAGEOFF` -/
  | addPageoff (rd rn : Fin 31) (target : String)
  /-- `stp xt, xu, [xn, #off]` -/
  | stpX (rt ru rn : Fin 31) (off : ℕ)
  /-- `stp dt, du, [xn, #off]` -/
  | stpD (rt ru : Fin 32) (rn : Fin 31) (off : ℕ)
  /-- `str xt, [xn, #off]` -/
  | str (rt rn : Fin 31) (off : ℕ)
  /-- `mov xd, sp` -/
  | movSp (rd : Fin 31)
  /-- `mov wd, #imm` -/
  | movW (rd : Fin 31) (imm : ℕ)
deriving DecidableEq, Repr

namespace State

variable (s : State)

/-- Go on with the next instruction. -/
def next : State := { s with pc := s.pc + 4 }

def setX (r : Fin 31) (v : BitVec 64) : State := { s with x := Function.update s.x r v }

/-- Store a word. -/
def store (a v : BitVec 64) : State := { s with memory := s.memory.store a.toNat v.toNat }

@[simp] lemma next_x : s.next.x = s.x := rfl

@[simp] lemma next_sp : s.next.sp = s.sp := rfl

@[simp] lemma next_d : s.next.d = s.d := rfl

@[simp] lemma next_memory : s.next.memory = s.memory := rfl

@[simp] lemma setX_x (r : Fin 31) (v : BitVec 64) : (s.setX r v).x = Function.update s.x r v := rfl

@[simp] lemma setX_sp (r : Fin 31) (v : BitVec 64) : (s.setX r v).sp = s.sp := rfl

@[simp] lemma setX_d (r : Fin 31) (v : BitVec 64) : (s.setX r v).d = s.d := rfl

@[simp] lemma setX_memory (r : Fin 31) (v : BitVec 64) : (s.setX r v).memory = s.memory := rfl

@[simp] lemma setX_pc (r : Fin 31) (v : BitVec 64) : (s.setX r v).pc = s.pc := rfl

@[simp] lemma store_x (a v : BitVec 64) : (s.store a v).x = s.x := rfl

@[simp] lemma store_sp (a v : BitVec 64) : (s.store a v).sp = s.sp := rfl

@[simp] lemma store_d (a v : BitVec 64) : (s.store a v).d = s.d := rfl

@[simp] lemma store_pc (a v : BitVec 64) : (s.store a v).pc = s.pc := rfl

@[simp] lemma store_memory (a v : BitVec 64) :
    (s.store a v).memory = s.memory.store a.toNat v.toNat := rfl

end State

/-- The start of the page of an address. -/
def page (a : BitVec 64) : BitVec 64 := a - BitVec.ofNat 64 (a.toNat % 4096)

lemma page_add (a : BitVec 64) : page a + BitVec.ofNat 64 (a.toNat % 4096) = a :=
  BitVec.sub_add_cancel _ _

/-- What an instruction does, when `place` has the addresses of the symbols. -/
def exec (place : String → BitVec 64) : Instr → State → State
  | .b target, s => { s with pc := place target }
  | .ret, s => { s with pc := s.x 30 }
  | .adrp rd target, s => (s.setX rd (page (place target))).next
  | .addPageoff rd rn target, s =>
    (s.setX rd (s.x rn + BitVec.ofNat 64 ((place target).toNat % 4096))).next
  | .stpX rt ru rn off, s =>
    ((s.store (s.x rn + BitVec.ofNat 64 off) (s.x rt)).store
      (s.x rn + BitVec.ofNat 64 off + 8) (s.x ru)).next
  | .stpD rt ru rn off, s =>
    ((s.store (s.x rn + BitVec.ofNat 64 off) (s.d rt)).store
      (s.x rn + BitVec.ofNat 64 off + 8) (s.d ru)).next
  | .str rt rn off, s => (s.store (s.x rn + BitVec.ofNat 64 off) (s.x rt)).next
  | .movSp rd, s => (s.setX rd s.sp).next
  | .movW rd imm, s => (s.setX rd (BitVec.ofNat 64 (imm % 2 ^ 32))).next

/-- The instruction goes on with the next one. -/
def Instr.Sequential : Instr → Prop
  | .b _ | .ret => False
  | _ => True

instance : DecidablePred Instr.Sequential
  | .b _ | .ret => inferInstanceAs (Decidable False)
  | .adrp _ _ | .addPageoff _ _ _ | .stpX _ _ _ _ | .stpD _ _ _ _ | .str _ _ _ | .movSp _
  | .movW _ _ => inferInstanceAs (Decidable True)

/-- Linked code: the instruction at an address, and the addresses of the symbols. -/
structure Program where
  fetch : BitVec 64 → Option Instr
  place : String → BitVec 64

namespace Program

variable (P : Program)

/-- One step, when there is an instruction. -/
def step (s : State) : Option State := (P.fetch s.pc).map fun i => exec P.place i s

/-- `n` steps. -/
def run : ℕ → State → Option State
  | 0, s => some s
  | n + 1, s => (P.step s).bind (run n)

/-- The instructions are at the address and behind it. -/
def Has (a : BitVec 64) (is : List Instr) : Prop :=
  ∀ i instr, is[i]? = some instr → P.fetch (a + BitVec.ofNat 64 (4 * i)) = some instr

instance (a : BitVec 64) (is : List Instr) : Decidable (P.Has a is) :=
  decidable_of_iff (∀ i < is.length, P.fetch (a + BitVec.ofNat 64 (4 * i)) = is[i]?) <| by
    constructor
    · intro h i instr hi
      rw [h i (List.getElem?_eq_some_iff.mp hi).1, hi]
    · intro h i hi
      rw [h i is[i] (List.getElem?_eq_getElem hi), List.getElem?_eq_getElem hi]

variable {P} {s : State} {a : BitVec 64} {i : Instr} {is js : List Instr}

lemma Has.cons (h : P.Has a (i :: is)) : P.fetch a = some i ∧ P.Has (a + 4) is := by
  refine ⟨by simpa using h 0 i rfl, fun n instr hn => ?_⟩
  have hnext := h (n + 1) instr hn
  rwa [show BitVec.ofNat 64 (4 * (n + 1)) = 4 + BitVec.ofNat 64 (4 * n) by
    rw [Nat.mul_succ, Nat.add_comm, BitVec.ofNat_add]; rfl, ← BitVec.add_assoc] at hnext

lemma pc_exec (h : i.Sequential) : (exec P.place i s).pc = s.pc + 4 := by
  cases i with
  | b => exact h.elim
  | ret => exact h.elim
  | _ => rfl

lemma run_succ_of_fetch {n : ℕ} (h : P.fetch s.pc = some i) :
    P.run (n + 1) s = P.run n (exec P.place i s) := by
  rw [run, step, h]
  rfl

/-- **A block runs to its last instruction**, which may go elsewhere. -/
lemma run_block {last : Instr} (h : P.Has s.pc (is ++ [last])) (hseq : ∀ i ∈ is, i.Sequential) :
    P.run (is.length + 1) s =
      some (exec P.place last (is.foldl (fun s i => exec P.place i s) s)) := by
  induction is generalizing s with
  | nil =>
    rw [List.length_nil, run_succ_of_fetch h.cons.1]
    rfl
  | cons i is ih =>
    obtain ⟨hi, hrest⟩ := h.cons
    obtain ⟨hseqi, hseqis⟩ := List.forall_mem_cons.mp hseq
    rw [← pc_exec (P := P) (s := s) hseqi] at hrest
    rw [List.length_cons, run_succ_of_fetch hi, ih hrest hseqis, List.foldl_cons]

end Program

end Apk2Ios.Arm64
