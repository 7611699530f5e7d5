import Mathlib.Algebra.BigOperators.Group.List.Basic
import Mathlib.Algebra.Group.Action.Defs
import Apk2Ios.MachO.Format

/-!
# Walking load commands

A tool that does not know every command goes from one to the next by their sizes.  The header
says how many there are and how many bytes they take, and both must agree with the walk.
-/

namespace Apk2Ios.MachO

open Lib

/-- Cut commands off the bytes, each as long as its second word says. -/
def walk : ℕ → Bytes → Option (List Bytes × Bytes)
  | 0, bs => some ([], bs)
  | n + 1, bs =>
    let size := leNat (slice bs 4 4)
    if 8 ≤ size ∧ size ≤ bs.length then
      (walk n (bs.drop size)).map fun p => (bs.take size :: p.1, p.2)
    else none

/-- The bytes that a command takes at least: its fields, its sections, and a name with the NUL
behind it. -/
def LoadCommand.contents : LoadCommand → ℕ
  | .segment s => 72 + 80 * s.sections.length
  | .loadDylib d => 24 + d.name.length + 1
  | .idDylib d => 24 + d.name.length + 1
  | .buildVersion _ => 24
  | .dyldInfo _ => 48
  | .symtab _ => 24
  | .other _ b => 8 + b.length

/-- The command takes a multiple of 8 bytes, and its contents are among them. -/
structure LoadCommand.Sized (c : LoadCommand) : Prop where
  dvd : 8 ∣ c.cmdsize
  covers : c.contents ≤ c.cmdsize

/-- The library has the name, and a NUL ends it. -/
structure Dylib.Named (d : Dylib) (name : Bytes) : Prop where
  name_eq : d.name = name
  terminated : name ++ [0] <+: d.path

/-- A file starts with a header and these commands: they read back, a walk over them ends where
the header says, and their sizes are right. -/
structure Decodes (file : Bytes) (im : Image) : Prop where
  read : readImage file = some im
  walk : walk im.header.ncmds (file.drop 32) =
    some (im.commands.map LoadCommand.encode, file.drop (32 + im.header.sizeofcmds))
  cmdsize : ∀ c ∈ im.commands, leNat (slice c.encode 4 4) = c.encode.length
  sized : ∀ c ∈ im.commands, c.Sized

variable {c : LoadCommand} {cs : List LoadCommand} {im : Image}

/-- The second word of a command is its size. -/
lemma slice_encode_append (h : c.cmdsize < 2 ^ 32) (tail : Bytes) :
    leNat (slice (c.encode ++ tail) 4 4) = c.cmdsize := by
  have hsize : (leBytes 4 c.cmdsize).length = 4 := length_leBytes 4 _
  have hcode : c.encode ++ tail =
      leBytes 4 c.cmd ++ (leBytes 4 c.cmdsize ++ (c.body ++ tail)) := by
    rw [LoadCommand.encode, List.append_assoc, List.append_assoc]
  rw [hcode, slice, List.drop_left' (length_leBytes 4 _), List.take_left' hsize]
  exact leNat_leBytes_of_lt h

/-- A walk over encoded commands cuts them where they were joined. -/
lemma walk_encode (h : ∀ c ∈ cs, c.cmdsize < 2 ^ 32) (tail : Bytes) :
    walk cs.length (cs.flatMap LoadCommand.encode ++ tail) =
      some (cs.map LoadCommand.encode, tail) := by
  induction cs with
  | nil => rfl
  | cons c cs ih =>
    obtain ⟨hc, hcs⟩ := List.forall_mem_cons.mp h
    have hlen := c.length_encode
    have hle : 8 ≤ c.cmdsize ∧
        c.cmdsize ≤ (c.encode ++ (cs.flatMap LoadCommand.encode ++ tail)).length := by
      rw [List.length_append, hlen]
      exact ⟨Nat.le_add_right 8 _, Nat.le_add_right _ _⟩
    rw [List.flatMap_cons, List.append_assoc, List.length_cons, walk, slice_encode_append hc]
    rw [if_pos hle, List.drop_left' hlen, List.take_left' hlen, ih hcs]
    rfl

/-- **A file that starts with the encoding of an image decodes to it.** -/
theorem decodes_encode_append (h : im.Valid) (hsized : ∀ c ∈ im.commands, c.Sized)
    (tail : Bytes) : Decodes (im.encode ++ tail) im := by
  have hlen : im.header.encode.length = 32 := im.header.length_encode
  have hbody : (im.encode ++ tail).drop 32 = im.commands.flatMap LoadCommand.encode ++ tail := by
    rw [Image.encode, List.append_assoc, List.drop_left' hlen]
  refine ⟨readImage_encode_append h tail, ?_, fun c hc => ?_, hsized⟩
  · rw [← List.drop_drop, hbody, h.sizeofcmds, List.drop_left, h.ncmds]
    exact walk_encode (fun c hc => (h.commands c hc).2) tail
  · have hsize := slice_encode_append (h.commands c hc).2 []
    rwa [List.append_nil, ← c.length_encode] at hsize

lemma cmdsize_segment {s : Segment64} (hname : s.segname.length = 16)
    (hsections : ∀ t ∈ s.sections, t.sectname.length = 16 ∧ t.segname.length = 16) :
    (LoadCommand.segment s).cmdsize = 72 + 80 * s.sections.length := by
  have hflat : (s.sections.flatMap Section64.encode).length = 80 * s.sections.length := by
    rw [List.length_flatMap, List.map_congr_left (g := fun _ => 80), List.map_const',
      List.sum_replicate, smul_eq_mul, Nat.mul_comm]
    intro t ht
    obtain ⟨hsect, hseg⟩ := hsections t ht
    simp [Section64.encode, hsect, hseg]
  simp [LoadCommand.cmdsize, LoadCommand.body, Segment64.encode, hname, hflat]
  omega

/-- Segments have whole sections only. -/
lemma sized_segment {s : Segment64} (hname : s.segname.length = 16)
    (hsections : ∀ t ∈ s.sections, t.sectname.length = 16 ∧ t.segname.length = 16) :
    (LoadCommand.segment s).Sized := by
  have hsize := cmdsize_segment hname hsections
  refine ⟨?_, hsize.ge⟩
  rw [hsize]
  omega

end Apk2Ios.MachO
