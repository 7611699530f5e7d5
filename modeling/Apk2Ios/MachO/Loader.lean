import Mathlib.Order.CompletePartialOrder
import Mathlib.Order.Interval.Set.Disjoint
import Apk2Ios.Lib.Lists
import Apk2Ios.Lib.Words
import Apk2Ios.MachO.Dyld
import Apk2Ios.MachO.Format

/-!
# Loading an image

What the dynamic linker does with a file of the classic format: it finds the opcode tables
through the load commands, finds every location through the segments, and adds the slide to
the words of the rebase table.
-/

namespace Apk2Ios.MachO

open Lib

/-- The addresses of a segment. -/
def Segment64.memory (seg : Segment64) : Set ℕ := Set.Ico seg.vmaddr (seg.vmaddr + seg.vmsize)

/-- The start and the size of a segment in the file. -/
def Segment64.fileRange (seg : Segment64) : ℕ × ℕ := (seg.fileoff, seg.filesize)

/-- The start and the size of a segment in memory. -/
def Segment64.vmRange (seg : Segment64) : ℕ × ℕ := (seg.vmaddr, seg.vmsize)

/-- A section lies inside its segment, at the same distance from its start in the file and in
memory. -/
structure Section64.Inside (sec : Section64) (seg : Segment64) : Prop where
  vm_start : seg.vmaddr ≤ sec.addr
  vm_end : sec.addr + sec.size ≤ seg.vmaddr + seg.vmsize
  file_start : seg.fileoff ≤ sec.offset
  file_end : sec.offset + sec.size ≤ seg.fileoff + seg.filesize
  distance : sec.addr - seg.vmaddr = sec.offset - seg.fileoff

/-- The tables lie in `__LINKEDIT` one after another, the opcodes of binds and the export trie
at pointers, the string table up to the end of the file. -/
structure LinkeditOrder (linkedit : Segment64) (info : DyldInfo) (strings : Symtab)
    (fileLength : ℕ) : Prop where
  rebase : linkedit.fileoff ≤ info.rebaseOff
  bind : info.rebaseOff + info.rebaseSize ≤ info.bindOff
  bindAligned : pointerSize ∣ info.bindOff
  exports : info.bindOff + info.bindSize ≤ info.exportOff
  exportsAligned : pointerSize ∣ info.exportOff
  strtab : info.exportOff + info.exportSize ≤ strings.stroff
  strtab_end : strings.stroff + strings.strsize = fileLength
  linkedit_end : linkedit.fileoff + linkedit.filesize = fileLength

/-- A segment ends before another one starts. -/
def Segment64.Below (s t : Segment64) : Prop := s.vmaddr + s.vmsize ≤ t.vmaddr

lemma Segment64.Below.disjoint {s t : Segment64} (h : s.Below t) :
    Disjoint s.memory t.memory := by
  rw [memory, memory, Set.Ico_disjoint_Ico]
  rw [Below] at h
  omega

instance (s t : Segment64) : Decidable (Disjoint s.memory t.memory) :=
  decidable_of_iff _ Set.Ico_disjoint_Ico.symm

/-- No two segments claim the same memory. -/
def Image.MemoryDisjoint (im : Image) : Prop :=
  im.segments.Pairwise fun s t => Disjoint s.memory t.memory

/-- The place in the file of a pointer that lies in the file-backed bytes of a segment. -/
def Image.fileOffset? (im : Image) (segment offset : ℕ) : Option ℕ :=
  im.segments[segment]?.bind fun seg =>
    if offset + pointerSize ≤ seg.filesize then some (seg.fileoff + offset) else none

/-- The rebases of a file. -/
def rebasesOf (file : Bytes) : Option (List Rebase) := do
  let im ← readImage file
  let info ← im.dyldInfo?
  rebaseTable (slice file info.rebaseOff info.rebaseSize)

/-- The binds of a file. -/
def bindsOf (file : Bytes) : Option (List Bind) := do
  let im ← readImage file
  let info ← im.dyldInfo?
  bindTable (slice file info.bindOff info.bindSize)

/-- All locations that are fixed up, as segment indices and offsets. -/
def locationsOf (file : Bytes) : Option (List (ℕ × ℕ)) := do
  let rebases ← rebasesOf file
  let binds ← bindsOf file
  return rebases.map (fun r => (r.segment, r.offset)) ++ binds.map fun b => (b.segment, b.offset)

/-- The unslid address of a location. -/
def Image.address (im : Image) (loc : ℕ × ℕ) : ℕ :=
  ((im.segments[loc.1]?).map Segment64.vmaddr).getD 0 + loc.2

/-- The pointer at the offset lies in the file-backed bytes of the segment and inside one of
its sections. -/
structure Segment64.HoldsPointer (seg : Segment64) (off : ℕ) : Prop where
  inFile : off + pointerSize ≤ seg.filesize
  inSection : ∃ sec ∈ seg.sections,
    sec.addr ≤ seg.vmaddr + off ∧ seg.vmaddr + off + pointerSize ≤ sec.addr + sec.size

/-- The fixups of a file can be applied in any order: no two of them overlap in memory, and
each lies in the segment it names. -/
def FixupsWellFormed (file : Bytes) : Prop :=
  ∃ im locs, readImage file = some im ∧ locationsOf file = some locs ∧
    (locs.map im.address).Pairwise Apart ∧
    ∀ loc ∈ locs, ∃ seg, im.segments[loc.1]? = some seg ∧ seg.HoldsPointer loc.2

/-- The update of a word by the slide. -/
def slideUpdate (s off : ℕ) : WordUpdate := ⟨off, fun w => w + s⟩

/-- The file with every pointer of the rebase table slid by `s`. -/
def slideFile (file : Bytes) (s : ℕ) : Option Bytes := do
  let im ← readImage file
  let rebases ← rebasesOf file
  let offsets ← rebases.mapM fun r => im.fileOffset? r.segment r.offset
  return applyUpdates (offsets.map (slideUpdate s)) file

section

variable {file : Bytes} {im : Image} {info : DyldInfo}

lemma rebasesOf_eq (him : readImage file = some im) (hinfo : im.dyldInfo? = some info) :
    rebasesOf file = rebaseTable (slice file info.rebaseOff info.rebaseSize) := by
  simp [rebasesOf, him, hinfo]

lemma bindsOf_eq (him : readImage file = some im) (hinfo : im.dyldInfo? = some info) :
    bindsOf file = bindTable (slice file info.bindOff info.bindSize) := by
  simp [bindsOf, him, hinfo]

lemma slideFile_eq {rebases : List Rebase} {place : Rebase → ℕ} (him : readImage file = some im)
    (hrebases : rebasesOf file = some rebases)
    (hplace : ∀ r ∈ rebases, im.fileOffset? r.segment r.offset = some (place r)) (s : ℕ) :
    slideFile file s = some (applyUpdates (rebases.map fun r => slideUpdate s (place r)) file) := by
  simp only [slideFile, him, hrebases, mapM_eq_some_map hplace, Option.bind_eq_bind,
    Option.bind_some, List.map_map]
  rfl

/-- A file that can be slid is slid at the places of its rebases. -/
lemma eq_of_slideFile {rebases : List Rebase} {place : Rebase → ℕ} {s : ℕ} {loaded : Bytes}
    (him : readImage file = some im) (hrebases : rebasesOf file = some rebases)
    (hplace : ∀ r ∈ rebases, ∀ off, im.fileOffset? r.segment r.offset = some off → off = place r)
    (h : slideFile file s = some loaded) :
    loaded = applyUpdates (rebases.map fun r => slideUpdate s (place r)) file := by
  have hall : ∀ r ∈ rebases, im.fileOffset? r.segment r.offset = some (place r) := by
    have hslide := h
    simp only [slideFile, him, hrebases, Option.bind_eq_bind, Option.bind_some,
      Option.bind_eq_some_iff] at hslide
    obtain ⟨offsets, hoffsets, -⟩ := hslide
    intro r hr
    obtain ⟨off, hoff⟩ := exists_of_mapM_eq_some hoffsets r hr
    rw [hoff, hplace r hr off hoff]
  exact Option.some.inj (h.symm.trans (slideFile_eq him hrebases hall s))

end

/-- A pointer that no other rebase overlaps is slid once, whatever happens to the others. -/
lemma word_slide {offsets others : List ℕ} {file : Bytes} {s off : ℕ}
    (hin : ∀ o ∈ offsets, o + 8 ≤ file.length) (hperm : offsets.Perm (off :: others))
    (hapart : ∀ o ∈ others, Apart o off) :
    word (applyUpdates (offsets.map (slideUpdate s)) file) off = (word file off + s) % 2 ^ 64 := by
  obtain ⟨pre, post, rfl⟩ := List.append_of_mem (hperm.mem_iff.mpr List.mem_cons_self)
  have hothers : (pre ++ post).Perm others := (List.perm_middle.symm.trans hperm).cons_inv
  have hinside : Inside ((pre ++ off :: post).map (slideUpdate s)) file := by
    intro u hu
    obtain ⟨o, ho, rfl⟩ := List.mem_map.mp hu
    exact hin o ho
  have hsides : ∀ o, o ∈ pre ∨ o ∈ post → Apart o off := by
    intro o ho
    exact hapart o (hothers.mem_iff.mp (List.mem_append.mpr ho))
  rw [List.map_append, List.map_cons] at hinside ⊢
  refine word_applyUpdates_split (u := slideUpdate s off) hinside ?_ ?_
  · intro u hu
    obtain ⟨o, ho, rfl⟩ := List.mem_map.mp hu
    exact hsides o (.inl ho)
  · intro u hu
    obtain ⟨o, ho, rfl⟩ := List.mem_map.mp hu
    exact hsides o (.inr ho)

/-- **Sliding pointers that do not overlap adds the slide to each and leaves the rest.** -/
theorem applyUpdates_slide {offsets : List ℕ} {file : Bytes} {s : ℕ}
    (hin : ∀ off ∈ offsets, off + 8 ≤ file.length) (hapart : offsets.Pairwise Apart) :
    (∀ off ∈ offsets, word (applyUpdates (offsets.map (slideUpdate s)) file) off =
        (word file off + s) % 2 ^ 64) ∧
      ∀ i, (∀ off ∈ offsets, i < off ∨ off + 8 ≤ i) →
        (applyUpdates (offsets.map (slideUpdate s)) file)[i]? = file[i]? := by
  have hinside : Inside (offsets.map (slideUpdate s)) file := by
    intro u hu
    obtain ⟨off, hoff, rfl⟩ := List.mem_map.mp hu
    exact hin off hoff
  constructor
  · intro off hoff
    have hpair : (offsets.map (slideUpdate s)).Pairwise fun u v => Apart u.pos v.pos := by
      rw [List.pairwise_map]
      exact hapart
    exact word_applyUpdates hinside hpair (List.mem_map_of_mem hoff)
  · intro i hi
    refine getElem?_applyUpdates hinside fun u hu => ?_
    obtain ⟨off, hoff, rfl⟩ := List.mem_map.mp hu
    exact hi off hoff

end Apk2Ios.MachO
