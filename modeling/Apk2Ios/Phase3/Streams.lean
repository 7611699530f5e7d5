import Mathlib.Data.List.Chain
import Apk2Ios.MachO.Dyld
import Apk2Ios.Phase3.Encoding
import Apk2Ios.Python

/-!
# Phase 3: the rebase and bind streams

The writers of the two opcode programs, and what the dynamic linker reads from them.  Every
entry of a rebase stream sets all the registers it uses.  An entry of a bind stream leaves
the addend register alone when its own addend is zero, so what is read back depends on the
entry before.
-/

namespace Apk2Ios

open Lib MachO

/-- One entry of the list of bindings. -/
structure Binding where
  offset : ℕ
  type : ℕ
  symbol : String
  shimSymbol : String
  symbolType : ℕ
  segmentIndex : ℕ
  segmentOffset : ℕ
  addend : ℤ
deriving DecidableEq, Repr

/-- The sort key of a binding. -/
def Binding.location (b : Binding) : ℕ × ℕ := (b.segmentIndex, b.segmentOffset)

/-! ### Opcodes -/

/-- `REBASE_TYPE_POINTER` and `BIND_TYPE_POINTER`. -/
def typePointer : ℕ := 1

/-- `REBASE_OPCODE_SET_TYPE_IMM`. -/
def rebaseSetTypeImm : ℕ := 0x10

/-- `REBASE_OPCODE_SET_SEGMENT_AND_OFFSET_ULEB`. -/
def rebaseSetSegmentAndOffsetUleb : ℕ := 0x20

/-- `REBASE_OPCODE_DO_REBASE_IMM_TIMES`. -/
def rebaseDoRebaseImmTimes : ℕ := 0x50

/-- `BIND_OPCODE_SET_DYLIB_ORDINAL_IMM`. -/
def bindSetDylibOrdinalImm : ℕ := 0x10

/-- `BIND_OPCODE_SET_SYMBOL_TRAILING_FLAGS_IMM`. -/
def bindSetSymbolTrailingFlagsImm : ℕ := 0x40

/-- `BIND_OPCODE_SET_TYPE_IMM`. -/
def bindSetTypeImm : ℕ := 0x50

/-- `BIND_OPCODE_SET_ADDEND_SLEB`. -/
def bindSetAddendSleb : ℕ := 0x60

/-- `BIND_OPCODE_SET_SEGMENT_AND_OFFSET_ULEB`. -/
def bindSetSegmentAndOffsetUleb : ℕ := 0x70

/-- `BIND_OPCODE_DO_BIND`. -/
def bindDoBind : ℕ := 0x90

/-- `REBASE_OPCODE_DONE` and `BIND_OPCODE_DONE`. -/
def opcodeDone : ℕ := 0x00

/-- The byte of an opcode and its immediate. -/
def opcode (op imm : ℕ) : UInt8 := UInt8.ofNat (op ||| imm)

lemma opcode_toNat {op imm : ℕ} (hop : op < 16) (himm : imm < 16) :
    (opcode (16 * op) imm).toNat = 16 * op + imm := by
  have hor := Nat.two_pow_add_eq_or_of_lt (show imm < 2 ^ 4 from himm) op
  rw [opcode, ← show 2 ^ 4 * op = 16 * op from rfl, ← hor]
  exact toNat_ofNat_of_lt (by omega)

lemma opcode_div {imm : ℕ} (op : ℕ) (hop : op < 16) (himm : imm < 16) :
    (opcode (16 * op) imm).toNat / 16 = op := by
  rw [opcode_toNat hop himm]
  omega

lemma opcode_mod {imm : ℕ} (op : ℕ) (hop : op < 16) (himm : imm < 16) :
    (opcode (16 * op) imm).toNat % 16 = imm := by
  rw [opcode_toNat hop himm]
  omega

/-! ### `_rebase_stream` -/

/-- The opcodes of one location. -/
def rebaseCode (loc : ℕ × ℕ) : Bytes :=
  opcode rebaseSetSegmentAndOffsetUleb loc.1 ::
    (uleb128 loc.2 ++ [opcode rebaseDoRebaseImmTimes 1])

def rebaseEntry (loc : ℕ × ℕ) : PyM Bytes := do
  raiseIf (15 < loc.1) (.phase3 .rebaseSegment)
  return rebaseCode loc

/-- `_rebase_stream(locations)`. -/
def rebaseStream (locations : List (ℕ × ℕ)) : PyM Bytes := do
  let entries ← (sortedBy id locations).mapM rebaseEntry
  return [opcode rebaseSetTypeImm typePointer] ++ entries.flatten ++ [opcode opcodeDone 0]

lemma rebaseEntry_eq_ok {loc : ℕ × ℕ} {bs : Bytes} :
    rebaseEntry loc = .ok bs ↔ loc.1 ≤ 15 ∧ rebaseCode loc = bs := by
  simp only [rebaseEntry, PyM.bind_eq_ok, PyM.raiseIf_eq_ok, PyM.pure_eq_ok, not_lt,
    exists_const]

lemma rebaseStream_eq_ok {locations : List (ℕ × ℕ)} {bs : Bytes} :
    rebaseStream locations = .ok bs ↔ (∀ loc ∈ locations, loc.1 ≤ 15) ∧
      bs = [opcode rebaseSetTypeImm typePointer] ++
        (sortedBy id locations).flatMap rebaseCode ++ [opcode opcodeDone 0] := by
  simp only [rebaseStream, PyM.bind_eq_ok, PyM.mapM_eq_ok_map (fun _ _ => rebaseEntry_eq_ok),
    PyM.pure_eq_ok, mem_sortedBy]
  constructor
  · rintro ⟨_, ⟨h, rfl⟩, rfl⟩
    exact ⟨h, rfl⟩
  · rintro ⟨h, rfl⟩
    exact ⟨_, ⟨h, rfl⟩, rfl⟩

/-- The rebase of a location. -/
def pointerRebase (loc : ℕ × ℕ) : Rebase := ⟨typePointer, loc.1, loc.2⟩

/-- One entry emits its location, whatever the location registers held. -/
lemma executes_rebaseCode {loc : ℕ × ℕ} (h : loc.1 ≤ 15) {r : RebaseRegs}
    (hr : r.type = typePointer) :
    rebaseMachine.Executes r (rebaseCode loc) [pointerRebase loc]
      ⟨typePointer, loc.1, loc.2 + 8⟩ := by
  have hseg : loc.1 < 16 := by omega
  have hset : rebaseMachine.Executes r (opcode rebaseSetSegmentAndOffsetUleb loc.1 :: uleb128 loc.2)
      [] ⟨typePointer, loc.1, loc.2⟩ := by
    have hdiv := opcode_div 2 (by omega) hseg
    have hmod := opcode_mod 2 (by omega) hseg
    refine OpcodeMachine.Executes.op ?_ ?_
    · exact decide_eq_false (by rw [rebaseSetSegmentAndOffsetUleb, hdiv]; decide)
    · simp only [rebaseMachine, rebaseSetSegmentAndOffsetUleb, hdiv, hmod, ← hr]
      exact (encodes_uleb128 loc.2).bind_pure
  have hdo : rebaseMachine.Executes ⟨typePointer, loc.1, loc.2⟩ [opcode rebaseDoRebaseImmTimes 1]
      [pointerRebase loc] ⟨typePointer, loc.1, loc.2 + 8⟩ := by
    refine OpcodeMachine.Executes.op (by decide) ?_
    exact Encodes.pure _
  exact hset.append hdo

lemma executes_rebases (locs : List (ℕ × ℕ)) (h : ∀ loc ∈ locs, loc.1 ≤ 15) {r : RebaseRegs}
    (hr : r.type = typePointer) :
    ∃ r', rebaseMachine.Executes r (locs.flatMap rebaseCode) (locs.map pointerRebase) r' := by
  induction locs generalizing r with
  | nil => exact ⟨r, .nil r⟩
  | cons loc locs ih =>
    have hloc := executes_rebaseCode (h loc List.mem_cons_self) hr
    obtain ⟨r', hr'⟩ := ih (fun l hl => h l (List.mem_cons_of_mem loc hl)) (r :=
      ⟨typePointer, loc.1, loc.2 + 8⟩) rfl
    exact ⟨r', hloc.append hr'⟩

/-- **The dynamic linker reads the sorted locations back from a rebase stream.** -/
theorem rebaseTable_rebaseStream {locations : List (ℕ × ℕ)} {bs : Bytes}
    (h : rebaseStream locations = .ok bs) :
    rebaseTable bs = some ((sortedBy id locations).map pointerRebase) := by
  obtain ⟨hseg, rfl⟩ := rebaseStream_eq_ok.mp h
  have htype : rebaseMachine.Executes ⟨0, 0, 0⟩ [opcode rebaseSetTypeImm typePointer] []
      ⟨typePointer, 0, 0⟩ := by
    refine OpcodeMachine.Executes.op (by decide) ?_
    exact Encodes.pure _
  obtain ⟨r', hr'⟩ := executes_rebases (sortedBy id locations)
    (fun loc hloc => hseg loc (mem_sortedBy.mp hloc)) (r := ⟨typePointer, 0, 0⟩) rfl
  exact (htype.append hr').events_eq (by decide)

/-! ### `_bind_stream` -/

/-- The opcodes of one binding. -/
def bindCode (item : Binding) : Bytes :=
  opcode bindSetSymbolTrailingFlagsImm 0 :: (utf8 item.shimSymbol ++ [0]) ++
    (if item.addend ≠ 0 then opcode bindSetAddendSleb 0 :: sleb128 item.addend else []) ++
    (opcode bindSetSegmentAndOffsetUleb item.segmentIndex :: uleb128 item.segmentOffset) ++
    [opcode bindDoBind 0]

def bindEntry (item : Binding) : PyM Bytes := do
  raiseIf (15 < item.segmentIndex) (.phase3 .bindSegment)
  return bindCode item

/-- `_bind_stream(bindings, shim_ordinal)`. -/
def bindStream (bindings : List Binding) (shimOrdinal : ℕ := 1) : PyM Bytes := do
  raiseIf (¬ (1 ≤ shimOrdinal ∧ shimOrdinal ≤ 15)) (.phase3 .shimOrdinal)
  let entries ← (sortedBy Binding.location bindings).mapM bindEntry
  return [opcode bindSetDylibOrdinalImm shimOrdinal, opcode bindSetTypeImm typePointer] ++
    entries.flatten ++ [opcode opcodeDone 0]

lemma bindEntry_eq_ok {item : Binding} {bs : Bytes} :
    bindEntry item = .ok bs ↔ item.segmentIndex ≤ 15 ∧ bindCode item = bs := by
  simp only [bindEntry, PyM.bind_eq_ok, PyM.raiseIf_eq_ok, PyM.pure_eq_ok, not_lt, exists_const]

lemma bindStream_eq_ok {bindings : List Binding} {ordinal : ℕ} {bs : Bytes} :
    bindStream bindings ordinal = .ok bs ↔
      ((1 ≤ ordinal ∧ ordinal ≤ 15) ∧ ∀ b ∈ bindings, b.segmentIndex ≤ 15) ∧
      bs = [opcode bindSetDylibOrdinalImm ordinal, opcode bindSetTypeImm typePointer] ++
        (sortedBy Binding.location bindings).flatMap bindCode ++ [opcode opcodeDone 0] := by
  simp only [bindStream, PyM.bind_eq_ok, PyM.raiseIf_eq_ok, not_not,
    PyM.mapM_eq_ok_map (fun _ _ => bindEntry_eq_ok), PyM.pure_eq_ok, mem_sortedBy]
  constructor
  · rintro ⟨_, hord, _, ⟨h, rfl⟩, rfl⟩
    exact ⟨⟨hord, h⟩, rfl⟩
  · rintro ⟨⟨hord, h⟩, rfl⟩
    exact ⟨(), hord, _, ⟨h, rfl⟩, rfl⟩

/-- The bind of a binding with the given addend register. -/
def pointerBind (ordinal addend : ℕ) (b : Binding) : Bind :=
  ⟨ordinal, typePointer, utf8 b.shimSymbol, 0, addend, b.segmentIndex, b.segmentOffset⟩

/-- An addend as the 64-bit value that is added. -/
def addendWord (addend : ℤ) : ℕ := (addend % 2 ^ 64).toNat

/-- The bind that a binding asks for. -/
def Binding.bind (ordinal : ℕ) (b : Binding) : Bind := pointerBind ordinal (addendWord b.addend) b

/-- The addend register after an entry. -/
def carriedAddend (addend : ℕ) (b : Binding) : ℕ :=
  if b.addend ≠ 0 then addendWord b.addend else addend

/-- The binds of a sorted list, from the value of the addend register. -/
def carriedBinds (ordinal : ℕ) : ℕ → List Binding → List Bind
  | _, [] => []
  | addend, b :: bs =>
    pointerBind ordinal (carriedAddend addend b) b ::
      carriedBinds ordinal (carriedAddend addend b) bs

/-- One entry emits a bind with its own symbol and location, and with the addend register as
it was left by the last nonzero addend. -/
lemma executes_bindCode {b : Binding} {ordinal : ℕ} (hseg : b.segmentIndex ≤ 15)
    (hname : NulFree b.shimSymbol) {r : BindRegs} (hord : r.ordinal = ordinal)
    (htype : r.type = typePointer) :
    ∃ r' : BindRegs, r'.ordinal = ordinal ∧ r'.type = typePointer ∧
      r'.addend = carriedAddend r.addend b ∧
      bindMachine.Executes r (bindCode b)
        [pointerBind ordinal (carriedAddend r.addend b) b] r' := by
  have hseg' : b.segmentIndex < 16 := by omega
  have hsymbol : bindMachine.Executes r
      (opcode bindSetSymbolTrailingFlagsImm 0 :: (utf8 b.shimSymbol ++ [0])) []
      { r with symbol := utf8 b.shimSymbol, flags := 0 } := by
    refine OpcodeMachine.Executes.op (by decide) ?_
    exact (Encodes.cstring (zero_notMem_utf8.mpr hname)).bind_pure
  have haddend : bindMachine.Executes { r with symbol := utf8 b.shimSymbol, flags := 0 }
      (if b.addend ≠ 0 then opcode bindSetAddendSleb 0 :: sleb128 b.addend else []) []
      { r with symbol := utf8 b.shimSymbol, flags := 0, addend := carriedAddend r.addend b } := by
    -- without an addend the opcode is left out, and the register keeps the previous one
    by_cases h : b.addend = 0
    · simp only [carriedAddend, h, ne_eq, not_true_eq_false, if_false]
      exact .nil _
    · rw [carriedAddend, if_pos h, if_pos h]
      refine OpcodeMachine.Executes.op (by decide) ?_
      exact (encodes_sleb128 b.addend).bind_pure
  have hlocation : bindMachine.Executes
      { r with symbol := utf8 b.shimSymbol, flags := 0, addend := carriedAddend r.addend b }
      (opcode bindSetSegmentAndOffsetUleb b.segmentIndex :: uleb128 b.segmentOffset) []
      ⟨ordinal, typePointer, utf8 b.shimSymbol, 0, carriedAddend r.addend b, b.segmentIndex,
        b.segmentOffset⟩ := by
    have hdiv := opcode_div 7 (by omega) hseg'
    have hmod := opcode_mod 7 (by omega) hseg'
    refine OpcodeMachine.Executes.op ?_ ?_
    · exact decide_eq_false (by rw [bindSetSegmentAndOffsetUleb, hdiv]; decide)
    · simp only [bindMachine, bindSetSegmentAndOffsetUleb, hdiv, hmod, ← hord, ← htype]
      exact (encodes_uleb128 b.segmentOffset).bind_pure
  have hdo : bindMachine.Executes
      ⟨ordinal, typePointer, utf8 b.shimSymbol, 0, carriedAddend r.addend b, b.segmentIndex,
        b.segmentOffset⟩ [opcode bindDoBind 0]
      [pointerBind ordinal (carriedAddend r.addend b) b]
      ⟨ordinal, typePointer, utf8 b.shimSymbol, 0, carriedAddend r.addend b, b.segmentIndex,
        b.segmentOffset + 8⟩ := by
    refine OpcodeMachine.Executes.op (by decide) ?_
    exact Encodes.pure _
  exact ⟨_, rfl, rfl, rfl, ((hsymbol.append haddend).append hlocation).append hdo⟩

lemma executes_binds (items : List Binding) {ordinal : ℕ}
    (hseg : ∀ b ∈ items, b.segmentIndex ≤ 15) (hname : ∀ b ∈ items, NulFree b.shimSymbol)
    {r : BindRegs} (hord : r.ordinal = ordinal) (htype : r.type = typePointer) :
    ∃ r', bindMachine.Executes r (items.flatMap bindCode)
      (carriedBinds ordinal r.addend items) r' := by
  induction items generalizing r with
  | nil => exact ⟨r, .nil r⟩
  | cons b items ih =>
    obtain ⟨r₁, hord₁, htype₁, haddend₁, hb⟩ := executes_bindCode
      (hseg b List.mem_cons_self) (hname b List.mem_cons_self) hord htype
    obtain ⟨r', hr'⟩ := ih (fun c hc => hseg c (List.mem_cons_of_mem b hc))
      (fun c hc => hname c (List.mem_cons_of_mem b hc)) hord₁ htype₁
    rw [haddend₁] at hr'
    exact ⟨r', hb.append hr'⟩

/-- **What the dynamic linker reads from a bind stream**: the sorted bindings, each with the
last nonzero addend up to it. -/
theorem bindTable_bindStream {bindings : List Binding} {ordinal : ℕ} {bs : Bytes}
    (h : bindStream bindings ordinal = .ok bs) (hname : ∀ b ∈ bindings, NulFree b.shimSymbol) :
    bindTable bs = some (carriedBinds ordinal 0 (sortedBy Binding.location bindings)) := by
  obtain ⟨⟨hord, hseg⟩, rfl⟩ := bindStream_eq_ok.mp h
  have hordinal : bindMachine.Executes ⟨0, 0, [], 0, 0, 0, 0⟩
      [opcode bindSetDylibOrdinalImm ordinal] [] ⟨ordinal, 0, [], 0, 0, 0, 0⟩ := by
    have hsmall : ordinal < 16 := by omega
    have hdiv := opcode_div 1 (by omega) hsmall
    have hmod := opcode_mod 1 (by omega) hsmall
    refine OpcodeMachine.Executes.op ?_ ?_
    · exact decide_eq_false (by rw [bindSetDylibOrdinalImm, hdiv]; decide)
    · simp only [bindMachine, bindSetDylibOrdinalImm, hdiv, hmod]
      exact Encodes.pure _
  have htype : bindMachine.Executes ⟨ordinal, 0, [], 0, 0, 0, 0⟩
      [opcode bindSetTypeImm typePointer] [] ⟨ordinal, typePointer, [], 0, 0, 0, 0⟩ := by
    refine OpcodeMachine.Executes.op (by decide) ?_
    exact Encodes.pure _
  obtain ⟨r', hr'⟩ := executes_binds (sortedBy Binding.location bindings)
    (fun b hb => hseg b (mem_sortedBy.mp hb)) (fun b hb => hname b (mem_sortedBy.mp hb))
    (r := ⟨ordinal, typePointer, [], 0, 0, 0, 0⟩) rfl rfl
  exact ((hordinal.append htype).append hr').events_eq (by decide)

/-! ### When the addends survive -/

/-- In each pair of neighbours where the second addend is zero, so is the first one as a
64-bit value. -/
def AddendsClear (items : List Binding) : Prop :=
  items.IsChain fun b c => c.addend = 0 → addendWord b.addend = 0

instance (items : List Binding) : Decidable (AddendsClear items) :=
  inferInstanceAs (Decidable (List.IsChain _ _))

lemma carriedAddend_eq_iff {addend : ℕ} {b : Binding} :
    carriedAddend addend b = addendWord b.addend ↔ (b.addend = 0 → addend = 0) := by
  rw [carriedAddend]
  by_cases h : b.addend = 0
  · simp [h, addendWord]
  · simp [h]

/-- The carried addends are the right ones exactly when no zero addend follows another. -/
lemma carriedBinds_eq_iff (items : List Binding) (ordinal addend : ℕ) :
    carriedBinds ordinal addend items = items.map (Binding.bind ordinal) ↔
      (∀ b ∈ items.head?, b.addend = 0 → addend = 0) ∧ AddendsClear items := by
  induction items generalizing addend with
  | nil => simp [carriedBinds, AddendsClear]
  | cons b items ih =>
    have hhead : pointerBind ordinal (carriedAddend addend b) b = b.bind ordinal ↔
        (b.addend = 0 → addend = 0) := by
      rw [← carriedAddend_eq_iff]
      simp [pointerBind, Binding.bind]
    rw [carriedBinds, List.map_cons, List.cons.injEq, hhead, AddendsClear, List.isChain_cons]
    simp only [List.head?_cons, Option.mem_def, Option.some.injEq, forall_eq']
    refine and_congr_right fun hb => ?_
    rw [carriedAddend_eq_iff.mpr hb, ih]
    rfl

/-- **The bind table round trip.**  The dynamic linker reads exactly the given bindings, in
the order of their locations, if and only if no entry with addend zero comes right after one
whose addend is not. -/
theorem bindTable_bindStream_iff {bindings : List Binding} {ordinal : ℕ}
    (hord : 1 ≤ ordinal ∧ ordinal ≤ 15) (hseg : ∀ b ∈ bindings, b.segmentIndex ≤ 15)
    (hname : ∀ b ∈ bindings, NulFree b.shimSymbol) :
    (∃ bs, bindStream bindings ordinal = .ok bs ∧
      bindTable bs = some ((sortedBy Binding.location bindings).map (Binding.bind ordinal))) ↔
      AddendsClear (sortedBy Binding.location bindings) := by
  have hbs := bindStream_eq_ok.mpr ⟨⟨hord, hseg⟩, rfl⟩
  have htable := bindTable_bindStream hbs hname
  have hiff := carriedBinds_eq_iff (sortedBy Binding.location bindings) ordinal 0
  constructor
  · rintro ⟨bs, h, hread⟩
    rw [bindTable_bindStream h hname, Option.some.injEq, hiff] at hread
    exact hread.2
  · intro hclear
    refine ⟨_, hbs, ?_⟩
    rw [htable, Option.some.injEq, hiff]
    exact ⟨fun _ _ _ => rfl, hclear⟩

/-- Addends that stay right: the zero addend comes first. -/
theorem bindTable_bindStream_zero_first :
    ∃ bs, bindStream [⟨0x2008, 1025, "puts", "_a2i_puts", 2, 1, 8, -5⟩,
        ⟨0x2000, 1026, "free", "_a2i_free", 2, 1, 0, 0⟩] = .ok bs ∧
      bindTable bs = some [⟨1, 1, utf8 "_a2i_free", 0, 0, 1, 0⟩,
        ⟨1, 1, utf8 "_a2i_puts", 0, 2 ^ 64 - 5, 1, 8⟩] :=
  (bindTable_bindStream_iff (by decide) (by decide) (by decide)).mpr (by decide)

/-- Two bindings next to each other: the second is read with the addend of the first. -/
theorem bindTable_bindStream_sticky :
    ¬ ∃ bs, bindStream [⟨0x2000, 1025, "puts", "_a2i_puts", 2, 1, 0, 5⟩,
        ⟨0x2008, 1026, "free", "_a2i_free", 2, 1, 8, 0⟩] = .ok bs ∧
      bindTable bs = some [⟨1, 1, utf8 "_a2i_puts", 0, 5, 1, 0⟩,
        ⟨1, 1, utf8 "_a2i_free", 0, 0, 1, 8⟩] := by
  rintro ⟨bs, hbs, htable⟩
  rw [bindTable_bindStream hbs (by decide)] at htable
  exact absurd htable (by decide)

end Apk2Ios
