import Apk2Ios.Shim.Stubs

/-!
# The shim: `setjmp`

`runtime_compat.S` stores the registers that a function has to preserve in the buffer of the
caller and returns 0.
-/

namespace Apk2Ios

open Lib Arm64

/-- The code of `setjmp`, less the return. -/
def setjmpCode : List Instr :=
  [.stpX 19 20 0 0, .stpX 21 22 0 16, .stpX 23 24 0 32, .stpX 25 26 0 48, .stpX 27 28 0 64,
    .stpX 29 30 0 80, .movSp 1, .str 1 0 96, .stpD 8 9 0 112, .stpD 10 11 0 128,
    .stpD 12 13 0 144, .stpD 14 15 0 160, .movW 0 0]

/-- The general registers that a function preserves, with the frame pointer and the link
register. -/
def calleeX (i : Fin 12) : Fin 31 := ⟨19 + i, by omega⟩

/-- The vector registers that a function preserves. -/
def calleeD (i : Fin 8) : Fin 32 := ⟨8 + i, by omega⟩

/-- The words of the buffer: offsets, and what is stored there. -/
def savedWords (s : State) : List (ℕ × BitVec 64) :=
  ((List.finRange 12).map fun i => (8 * i.val, s.x (calleeX i))) ++ [(96, s.sp)] ++
    (List.finRange 8).map fun i => (112 + 8 * i.val, s.d (calleeD i))

/-- The stores into the buffer at `a`. -/
def savedUpdates (s : State) (a : ℕ) : List WordUpdate :=
  (savedWords s).map fun p => ⟨a + p.1, fun _ => p.2.toNat⟩

lemma assemble_runtimeCompatS : assemble (runtimeCompatS.map AsmLine.text) =
    some ⟨setjmpCode ++ [.ret], [(shimLabel "setjmp", 0)], []⟩ := by decide +kernel

section

variable {P : Program} {s : State} {a : ℕ}

lemma mem_savedWords {p : ℕ × BitVec 64} : p ∈ savedWords s ↔
    ((∃ i, (8 * i.val, s.x (calleeX i)) = p) ∨ p = (96, s.sp)) ∨
      ∃ i, (112 + 8 * i.val, s.d (calleeD i)) = p := by
  simp only [savedWords, List.mem_append, List.mem_map, List.mem_finRange, true_and,
    List.mem_singleton]

/-- The words lie in the first 176 bytes, and leave a gap in front of the vector registers. -/
lemma offset_savedWords {p : ℕ × BitVec 64} (hp : p ∈ savedWords s) :
    p.1 + 8 ≤ 104 ∨ 112 ≤ p.1 ∧ p.1 + 8 ≤ 176 := by
  rcases mem_savedWords.mp hp with (⟨i, rfl⟩ | rfl) | ⟨i, rfl⟩
  · exact .inl (by show 8 * i.val + 8 ≤ 104; omega)
  · exact .inl le_rfl
  · exact .inr (by show 112 ≤ 112 + 8 * i.val ∧ 112 + 8 * i.val + 8 ≤ 176; omega)

/-- The words of the buffer do not overlap. -/
lemma pairwise_savedUpdates (s : State) (a : ℕ) :
    (savedUpdates s a).Pairwise fun u v => Apart u.pos v.pos := by
  have hoffsets : ((savedWords s).map Prod.fst).Pairwise Apart := by
    have hfst : (savedWords s).map Prod.fst =
        (List.finRange 12).map (fun i => 8 * i.val) ++ [96] ++
          (List.finRange 8).map fun i => 112 + 8 * i.val := by
      simp [savedWords, Function.comp_def]
    rw [hfst]
    decide
  rw [List.pairwise_map] at hoffsets
  rw [savedUpdates, List.pairwise_map]
  refine hoffsets.imp fun {p q} h => ?_
  rw [Apart] at h ⊢
  show a + p.1 + 8 ≤ a + q.1 ∨ a + q.1 + 8 ≤ a + p.1
  omega

/-- The stores of the code. -/
lemma memory_setjmp (hbuf : (s.x 0).toNat + 176 ≤ 2 ^ 64) :
    (setjmpCode.foldl (fun s i => exec P.place i s) s).memory =
      s.memory.updates (savedUpdates s (s.x 0).toNat) := by
  have hlt : (s.x 0).toNat + 176 ≤ 18446744073709551616 := hbuf
  simp only [setjmpCode, exec, List.foldl_cons, List.foldl_nil, State.next_memory,
    State.next_x, State.next_sp, State.next_d, State.store_x, State.store_sp, State.store_d,
    State.store_memory, State.setX_x, State.setX_d, State.setX_memory]
  simp only [BitVec.add_zero, BitVec.ofNat_eq_ofNat, BitVec.toNat_add, BitVec.toNat_ofNat,
    Nat.reducePow, Nat.reduceMod, Nat.mod_add_mod, ne_eq, Fin.zero_eq_one_iff,
    OfNat.ofNat_ne_one, not_false_eq_true, Function.update_of_ne, Function.update_self]
  simp (disch := omega) only [Nat.mod_eq_of_lt]
  rfl

/-- The registers after the code. -/
lemma registers_setjmp {s' : State} (h : setjmpCode.foldl (fun s i => exec P.place i s) s = s') :
    s'.x = Function.update (Function.update s.x 1 s.sp) 0 0 ∧ s'.sp = s.sp ∧ s'.d = s.d := by
  subst h
  simp only [setjmpCode, exec, List.foldl_cons, List.foldl_nil, State.next_x, State.next_sp,
    State.next_d, State.store_x, State.store_sp, State.store_d, State.setX_x, State.setX_sp,
    State.setX_d]
  exact ⟨rfl, trivial, trivial⟩

/-- **`setjmp` saves the registers of the caller and returns 0.**  From every state in which the
buffer does not wrap around, the assembled code is back at the return address after 14 steps.  It
has stored `x19` to `x30`, the stack pointer and `d8` to `d15`, changed no other byte and no
register but `x0` and `x1`. -/
theorem setjmp_saves {o : Object} {base : BitVec 64}
    (ho : assemble (runtimeCompatS.map AsmLine.text) = some o)
    (hload : o.LoadedAt P s.memory base) (hpc : s.pc = P.place (shimLabel "setjmp"))
    (hbuf : (s.x 0).toNat + 176 ≤ 2 ^ 64) :
    ∃ s', P.run 14 s = some s' ∧ s'.pc = s.x 30 ∧ s'.sp = s.sp ∧ s'.d = s.d ∧ s'.x 0 = 0 ∧
      (∀ r, r ≠ 0 → r ≠ 1 → s'.x r = s.x r) ∧
      (∀ i, s'.memory.word ((s.x 0).toNat + 8 * i.val) = (s.x (calleeX i)).toNat) ∧
      s'.memory.word ((s.x 0).toNat + 96) = s.sp.toNat ∧
      (∀ i, s'.memory.word ((s.x 0).toNat + 112 + 8 * i.val) = (s.d (calleeD i)).toNat) ∧
      ∀ b, b < (s.x 0).toNat ∨ b ∈ Set.Ico ((s.x 0).toNat + 104) ((s.x 0).toNat + 112) ∨
        (s.x 0).toNat + 176 ≤ b → s'.memory b = s.memory b := by
  obtain rfl := Option.some.inj (ho.symm.trans assemble_runtimeCompatS)
  have hcode : P.Has s.pc (setjmpCode ++ [.ret]) := by
    have hlabel := hload.labels (shimLabel "setjmp", 0) (List.mem_singleton_self _)
    rw [hpc, hlabel]
    simpa using hload.code
  have hrun := Program.run_block hcode (by decide)
  obtain ⟨s₁, hs₁⟩ : ∃ s₁, setjmpCode.foldl (fun s i => exec P.place i s) s = s₁ := ⟨_, rfl⟩
  obtain ⟨hx, hsp, hd⟩ := registers_setjmp hs₁
  have hmemory : s₁.memory = s.memory.updates (savedUpdates s (s.x 0).toNat) := by
    rw [← hs₁, memory_setjmp hbuf]
  -- the slots do not overlap, so each keeps the word stored to it
  have hword : ∀ p ∈ savedWords s, s₁.memory.word ((s.x 0).toNat + p.1) = p.2.toNat := by
    intro p hp
    have hmem : (⟨(s.x 0).toNat + p.1, fun _ => p.2.toNat⟩ : WordUpdate) ∈
        savedUpdates s (s.x 0).toNat := List.mem_map_of_mem hp
    rw [hmemory]
    exact (Memory.word_updates (pairwise_savedUpdates s _) hmem).trans (Nat.mod_eq_of_lt p.2.isLt)
  rw [hs₁] at hrun
  refine ⟨_, hrun, ?_, hsp, hd, ?_, ?_, fun i => ?_, ?_, fun i => ?_, ?_⟩
  · show s₁.x 30 = s.x 30
    rw [hx]
    rfl
  · show s₁.x 0 = 0
    rw [hx, Function.update_self]
  · intro r h0 h1
    show s₁.x r = s.x r
    rw [hx, Function.update_of_ne h0, Function.update_of_ne h1]
  · exact hword (8 * i.val, s.x (calleeX i)) (mem_savedWords.mpr (.inl (.inl ⟨i, rfl⟩)))
  · exact hword (96, s.sp) (mem_savedWords.mpr (.inl (.inr rfl)))
  · rw [Nat.add_assoc]
    exact hword (112 + 8 * i.val, s.d (calleeD i)) (mem_savedWords.mpr (.inr ⟨i, rfl⟩))
  -- a byte outside every slot, the gap at offset 104 included
  · intro b hb
    show s₁.memory b = s.memory b
    rw [hmemory]
    refine Memory.updates_of_notMem fun u hu hwindow => ?_
    obtain ⟨p, hp, rfl⟩ := List.mem_map.mp hu
    have hoffset := offset_savedWords hp
    have hlo : (s.x 0).toNat + p.1 ≤ b := hwindow.1
    have hhi : b < (s.x 0).toNat + p.1 + 8 := hwindow.2
    rw [Set.mem_Ico] at hb
    omega

/-- The code of `setjmp` at `0x1000`. -/
def setjmpProgram : Program where
  fetch a :=
    if a.toNat % 4 = 0 then (setjmpCode ++ [.ret])[(a - 0x1000).toNat / 4]? else none
  place _ := 0x1000

/-- A state with the buffer at `0x2000`. -/
def setjmpState : State where
  x r := if r = 0 then 0x2000 else if r = 30 then 0x1234 else BitVec.ofNat 64 r
  sp := 0x8000
  d r := BitVec.ofNat 64 (100 + r)
  memory _ := 0xFF
  pc := 0x1000

theorem setjmp_saves_small : ∃ s', setjmpProgram.run 14 setjmpState = some s' ∧
    s'.pc = 0x1234 ∧ s'.x 0 = 0 ∧ s'.memory.word 0x2060 = 0x8000 ∧
    s'.memory.word 0x20A8 = 115 ∧ s'.memory 0x206F = 0xFF := by
  have hload : (⟨setjmpCode ++ [.ret], [(shimLabel "setjmp", 0)], []⟩ : Object).LoadedAt
      setjmpProgram setjmpState.memory 0x1000 := ⟨by decide, by decide, by decide⟩
  obtain ⟨s', hrun, hpc, -, -, h0, -, -, hsp, hd, hrest⟩ :=
    setjmp_saves assemble_runtimeCompatS hload rfl (by decide)
  exact ⟨s', hrun, hpc, h0, hsp, hd 7, hrest 0x206F (.inr (.inl (by decide)))⟩

end

end Apk2Ios
