import Apk2Ios.Lib.Bytes

/-!
# Readers and self-delimiting encodings

A reader consumes a prefix of a byte string.  An encoding of a value is correct for a
reader when the reader gives the value back from the encoding followed by anything, and
leaves exactly what follows.  This is the form that composes: the encoding of a record is
the concatenation of the encodings of its fields.
-/

namespace Apk2Ios.Lib

/-- A reader returns a value and the bytes after it, or fails. -/
abbrev Reader (α : Type) := StateT Bytes Option α

/-- `enc` encodes `v` for the reader `r`, whatever follows. -/
def Encodes {α : Type} (r : Reader α) (v : α) (enc : Bytes) : Prop :=
  ∀ rest, r (enc ++ rest) = some (v, rest)

namespace Reader

/-- Read `n` bytes. -/
def bytes (n : ℕ) : Reader Bytes := fun bs =>
  if n ≤ bs.length then some (bs.take n, bs.drop n) else none

/-- Read a little-endian number of `w` bytes. -/
def nat (w : ℕ) : Reader ℕ := do
  let bs ← bytes w
  return leNat bs

/-- Read an unsigned LEB128 number: seven bits a byte, least significant first, the high
bit set on every byte but the last. -/
def uleb : Reader ℕ
  | [] => none
  | b :: bs =>
    if b.toNat < 128 then some (b.toNat, bs)
    else (uleb bs).map fun p => (b.toNat % 128 + 128 * p.1, p.2)

/-- Read a signed LEB128 number: as the unsigned one, with the sign in bit 6 of the last
byte. -/
def sleb : Reader ℤ
  | [] => none
  | b :: bs =>
    if b.toNat < 128 then some (if b.toNat < 64 then b.toNat else b.toNat - 128, bs)
    else (sleb bs).map fun p => (b.toNat % 128 + 128 * p.1, p.2)

/-- Read the bytes before the first NUL, and the NUL. -/
def cstring : Reader Bytes
  | [] => none
  | b :: bs => if b = 0 then some ([], bs) else (cstring bs).map fun p => (b :: p.1, p.2)

/-- Read `n` values one after another. -/
def list {α : Type} (r : Reader α) : ℕ → Reader (List α)
  | 0 => pure []
  | n + 1 => do
    let v ← r
    let vs ← list r n
    return v :: vs

end Reader

namespace Encodes

variable {α β : Type}

/-- Nothing is left of an encoding that nothing follows. -/
lemma read_self {r : Reader α} {v : α} {e : Bytes} (h : Encodes r v e) : r e = some (v, []) := by
  have hread := h []
  rwa [List.append_nil] at hread

lemma pure (v : α) : Encodes (Pure.pure v : Reader α) v [] := fun _ => rfl

/-- Reading goes on after the encoding of the first value. -/
lemma bind_apply {r : Reader α} {f : α → Reader β} {v : α} {e : Bytes} (h : Encodes r v e)
    (rest : Bytes) : (r >>= f) (e ++ rest) = f v rest := by
  have hrun : (r >>= f) (e ++ rest) = (r (e ++ rest)).bind fun p => f p.1 p.2 := rfl
  rw [hrun, h rest]
  rfl

lemma bind {r : Reader α} {f : α → Reader β} {v : α} {w : β} {e e' : Bytes}
    (h : Encodes r v e) (h' : Encodes (f v) w e') : Encodes (r >>= f) w (e ++ e') := by
  intro rest
  rw [List.append_assoc, h.bind_apply]
  exact h' rest

lemma bind_pure {r : Reader α} {f : α → β} {v : α} {e : Bytes} (h : Encodes r v e) :
    Encodes (r >>= fun a => Pure.pure (f a)) (f v) e := by
  intro rest
  rw [h.bind_apply]
  rfl

lemma bytes (bs : Bytes) : Encodes (Reader.bytes bs.length) bs bs := by
  intro rest
  simp [Reader.bytes]

lemma bytes' {n : ℕ} {bs : Bytes} (h : bs.length = n) : Encodes (Reader.bytes n) bs bs := by
  subst h
  exact bytes bs

lemma nat {w n : ℕ} (h : n < 256 ^ w) : Encodes (Reader.nat w) n (leBytes w n) := by
  have h' : Encodes (Reader.nat w) (leNat (leBytes w n)) (leBytes w n) :=
    (bytes' (length_leBytes w n)).bind_pure
  rwa [leNat_leBytes_of_lt h] at h'

lemma uleb_last {b : UInt8} (hb : b.toNat < 128) : Encodes Reader.uleb b.toNat [b] := by
  intro rest
  simp [Reader.uleb, hb]

lemma uleb_more {b : UInt8} {n : ℕ} {e : Bytes} (hb : 128 ≤ b.toNat)
    (h : Encodes Reader.uleb n e) :
    Encodes Reader.uleb (b.toNat % 128 + 128 * n) (b :: e) := by
  intro rest
  simp [Reader.uleb, h rest, show ¬ b.toNat < 128 by omega]

lemma sleb_last {b : UInt8} (hb : b.toNat < 128) :
    Encodes Reader.sleb (if b.toNat < 64 then b.toNat else b.toNat - 128) [b] := by
  intro rest
  simp [Reader.sleb, hb]

lemma sleb_more {b : UInt8} {z : ℤ} {e : Bytes} (hb : 128 ≤ b.toNat)
    (h : Encodes Reader.sleb z e) :
    Encodes Reader.sleb (b.toNat % 128 + 128 * z) (b :: e) := by
  intro rest
  simp [Reader.sleb, h rest, show ¬ b.toNat < 128 by omega]

lemma cstring {bs : Bytes} (h : (0 : UInt8) ∉ bs) : Encodes Reader.cstring bs (bs ++ [0]) := by
  induction bs with
  | nil => intro rest; rfl
  | cons b bs ih =>
    intro rest
    have hb : b ≠ 0 := fun hb => h (by simp [hb])
    have hbs := ih (fun hbs => h (by simp [hbs])) rest
    simp only [List.append_assoc, List.cons_append, List.nil_append] at hbs ⊢
    simp [Reader.cstring, hb, hbs]

/-- Reading a list of values written one after another. -/
lemma list (r : Reader α) (vs : List α) (enc : α → Bytes) (h : ∀ v ∈ vs, Encodes r v (enc v)) :
    Encodes (Reader.list r vs.length) vs (vs.flatMap enc) := by
  induction vs with
  | nil => exact pure []
  | cons v vs ih =>
    have htl := ih fun w hw => h w (List.mem_cons_of_mem v hw)
    have hcons : Encodes (Reader.list r (vs.length + 1)) (v :: vs) (enc v ++ vs.flatMap enc) :=
      (h v List.mem_cons_self).bind htl.bind_pure
    simpa using hcons

end Encodes

end Apk2Ios.Lib
