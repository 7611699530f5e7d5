import Apk2Ios.Lib.Leb128
import Apk2Ios.Lib.Opcode

/-!
# The rebase and bind tables of the dynamic linker

The two opcode machines of the classic `LC_DYLD_INFO` tables.  Locations are kept as a
segment index and an offset from the start of that segment; `DO_…` opcodes emit the
location in the registers and advance the offset by one pointer.
-/

namespace Apk2Ios.MachO

open Lib

/-- The size of a pointer. -/
def pointerSize : ℕ := 8

/-! ### Signed numbers -/

/-- `read_sleb128`, which has 64 bits for the number. -/
def readSleb128 : Reader (BitVec 64) := Reader.slebRegister 64 0#64 0

/-- Ten bytes are read modulo `2 ^ 64`. -/
lemma readSleb128_append {e : Bytes} {z : ℤ} (h : Reader.sleb e = some (z, []))
    (hlen : e.length ≤ 10) (rest : Bytes) :
    readSleb128 (e ++ rest) = some (BitVec.ofInt 64 z, rest) := by
  have hzero : (0#64).toNat < 2 ^ 0 := Nat.one_pos
  have hread := slebRegister_append h hzero (by omega) rest
  rwa [pow_zero, mul_one, BitVec.zero_add] at hread

/-! ### Rebases -/

/-- One pointer to slide. -/
structure Rebase where
  type : ℕ
  segment : ℕ
  offset : ℕ
deriving DecidableEq, Repr

/-- The registers of the rebase machine. -/
structure RebaseRegs where
  type : ℕ
  segment : ℕ
  offset : ℕ

namespace RebaseRegs

/-- The rebase at the current location. -/
def emit (r : RebaseRegs) : Rebase := ⟨r.type, r.segment, r.offset⟩

/-- Emit `n` rebases, skipping `skip` bytes after each. -/
def times (skip : ℕ) : ℕ → RebaseRegs → List Rebase × RebaseRegs
  | 0, r => ([], r)
  | n + 1, r =>
    let p := times skip n { r with offset := r.offset + pointerSize + skip }
    (r.emit :: p.1, p.2)

/-- Add to the offset, as a 64-bit register. -/
def advance (r : RebaseRegs) (n : ℕ) : RebaseRegs :=
  { r with offset := (r.offset + n) % 2 ^ 64 }

end RebaseRegs

/-- The rebase machine.  The high four bits of a byte are the opcode, the low four an
immediate. -/
def rebaseMachine : OpcodeMachine RebaseRegs Rebase where
  isDone b := b.toNat / 16 = 0
  step r b :=
    let imm := b.toNat % 16
    match b.toNat / 16 with
    | 1 => pure ([], { r with type := imm })
    | 2 => do
      let offset ← Reader.uleb
      return ([], { r with segment := imm, offset := offset })
    | 3 => do
      let n ← Reader.uleb
      return ([], r.advance n)
    | 4 => pure ([], r.advance (imm * pointerSize))
    | 5 => pure (r.times 0 imm)
    | 6 => do
      let n ← Reader.uleb
      return r.times 0 n
    | 7 => do
      let n ← Reader.uleb
      return ([r.emit], r.advance (n + pointerSize))
    | 8 => do
      let n ← Reader.uleb
      let skip ← Reader.uleb
      return r.times skip n
    | _ => fun _ => none

/-- The rebases a table encodes. -/
def rebaseTable (table : Bytes) : Option (List Rebase) :=
  rebaseMachine.events ⟨0, 0, 0⟩ table

/-! ### Binds -/

/-- One pointer to bind to a symbol of another image. -/
structure Bind where
  ordinal : ℤ
  type : ℕ
  symbol : Bytes
  flags : ℕ
  addend : ℕ
  segment : ℕ
  offset : ℕ
deriving DecidableEq, Repr

/-- The registers of the bind machine. -/
structure BindRegs where
  ordinal : ℤ
  type : ℕ
  symbol : Bytes
  flags : ℕ
  addend : ℕ
  segment : ℕ
  offset : ℕ

namespace BindRegs

/-- The bind at the current location. -/
def emit (r : BindRegs) : Bind :=
  ⟨r.ordinal, r.type, r.symbol, r.flags, r.addend, r.segment, r.offset⟩

/-- Add to the offset, as a 64-bit register. -/
def advance (r : BindRegs) (n : ℕ) : BindRegs := { r with offset := (r.offset + n) % 2 ^ 64 }

/-- Emit `n` binds, skipping `skip` bytes after each. -/
def times (skip : ℕ) : ℕ → BindRegs → List Bind × BindRegs
  | 0, r => ([], r)
  | n + 1, r =>
    let p := times skip n { r with offset := r.offset + pointerSize + skip }
    (r.emit :: p.1, p.2)

end BindRegs

/-- The bind machine.  Addends are taken modulo `2 ^ 64`. -/
def bindMachine : OpcodeMachine BindRegs Bind where
  isDone b := b.toNat / 16 = 0
  step r b :=
    let imm := b.toNat % 16
    match b.toNat / 16 with
    | 1 => pure ([], { r with ordinal := imm })
    | 2 => do
      let ordinal ← Reader.uleb
      return ([], { r with ordinal := ordinal })
    | 3 => pure ([], { r with ordinal := if imm = 0 then 0 else (imm : ℤ) - 16 })
    | 4 => do
      let symbol ← Reader.cstring
      return ([], { r with symbol := symbol, flags := imm })
    | 5 => pure ([], { r with type := imm })
    | 6 => do
      let addend ← Reader.sleb
      return ([], { r with addend := (addend % 2 ^ 64).toNat })
    | 7 => do
      let offset ← Reader.uleb
      return ([], { r with segment := imm, offset := offset })
    | 8 => do
      let n ← Reader.uleb
      return ([], r.advance n)
    | 9 => pure ([r.emit], { r with offset := r.offset + pointerSize })
    | 10 => do
      let n ← Reader.uleb
      return ([r.emit], r.advance (n + pointerSize))
    | 11 => pure ([r.emit], r.advance (imm * pointerSize + pointerSize))
    | 12 => do
      let n ← Reader.uleb
      let skip ← Reader.uleb
      return r.times skip n
    | _ => fun _ => none

/-- The binds a table encodes. -/
def bindTable (table : Bytes) : Option (List Bind) :=
  bindMachine.events ⟨0, 0, [], 0, 0, 0, 0⟩ table

end Apk2Ios.MachO
