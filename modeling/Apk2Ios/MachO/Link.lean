import Apk2Ios.Lib.Memory
import Apk2Ios.MachO.Loader

/-!
# Linking an image

What the dynamic linker makes of a file in memory: the segments at their slid addresses, the
slide added to the pointers of the rebase table, and the addresses of symbols of other images,
plus an addend, stored in the pointers of the bind table.
-/

namespace Apk2Ios.MachO

open Lib

/-- `REBASE_TYPE_POINTER` and `BIND_TYPE_POINTER`. -/
def pointerType : ℕ := 1

/-- The memory of a segment. -/
def Segment64.region (slide : ℕ) (seg : Segment64) : Region :=
  ⟨slide + seg.vmaddr, seg.vmsize, seg.fileoff, seg.filesize⟩

/-- The image in memory before it is linked. -/
def Image.mapped (im : Image) (file : Bytes) (slide : ℕ) : Memory :=
  Memory.mapped file (im.segments.map (Segment64.region slide))

/-- The address of a pointer that lies in its segment. -/
def Image.pointer? (im : Image) (slide segment offset : ℕ) : Option ℕ :=
  im.segments[segment]?.bind fun seg =>
    if offset + pointerSize ≤ seg.vmsize then some (slide + seg.vmaddr + offset) else none

/-- The update of a rebase: the pointer is slid. -/
def Image.rebaseUpdate? (im : Image) (slide : ℕ) (r : Rebase) : Option WordUpdate :=
  if r.type = pointerType then (im.pointer? slide r.segment r.offset).map (slideUpdate slide)
  else none

/-- The update of a bind: the pointer becomes the address of the symbol, plus the addend.
`exports` gives the address at which the library of an ordinal has a symbol. -/
def Image.bindUpdate? (im : Image) (slide : ℕ) (exports : ℤ → Bytes → ℕ) (b : Bind) :
    Option WordUpdate :=
  if b.type = pointerType then
    (im.pointer? slide b.segment b.offset).map fun a =>
      ⟨a, fun _ => exports b.ordinal b.symbol + b.addend⟩
  else none

/-- The file linked in memory, at the given slide. -/
def linkFile (file : Bytes) (slide : ℕ) (exports : ℤ → Bytes → ℕ) : Option Memory := do
  let im ← readImage file
  let rebases ← rebasesOf file
  let binds ← bindsOf file
  let slid ← rebases.mapM (im.rebaseUpdate? slide)
  let bound ← binds.mapM (im.bindUpdate? slide exports)
  return (im.mapped file slide).updates (slid ++ bound)

section

variable {file : Bytes} {im : Image} {seg : Segment64} {slide i : ℕ}

lemma Segment64.region_covers {a : ℕ} :
    (seg.region slide).Covers (slide + a) ↔ a ∈ seg.memory := by
  simp only [Region.Covers, region, memory, Set.mem_Ico]
  omega

/-- The regions of disjoint segments are disjoint at every slide. -/
lemma Image.MemoryDisjoint.regions (h : im.MemoryDisjoint) (slide : ℕ) :
    (im.segments.map (Segment64.region slide)).Pairwise
      fun r s => Disjoint r.addresses s.addresses := by
  refine List.pairwise_map.mpr (h.imp fun {s t} hst => ?_)
  rw [Segment64.memory, Segment64.memory, Set.Ico_disjoint_Ico] at hst
  simp only [Region.addresses, Segment64.region, Set.Ico_disjoint_Ico]
  omega

/-- The segment of an address gives its byte. -/
lemma Image.mapped_eq (hdisj : im.MemoryDisjoint) (hseg : im.segments[i]? = some seg) {a : ℕ}
    (ha : a ∈ seg.memory) :
    im.mapped file slide (slide + a) =
      if a - seg.vmaddr < seg.filesize then file.getD (seg.fileoff + (a - seg.vmaddr)) 0
      else 0 := by
  have hmem : seg.region slide ∈ im.segments.map (Segment64.region slide) :=
    List.mem_map_of_mem (List.mem_of_getElem? hseg)
  have hsub : slide + a - (slide + seg.vmaddr) = a - seg.vmaddr := by omega
  rw [mapped, Memory.mapped_of_covers (hdisj.regions slide) hmem (Segment64.region_covers.mpr ha)]
  simp only [Region.byte, Segment64.region, hsub]

lemma Image.rebaseUpdate?_eq {r : Rebase} {a : ℕ} (htype : r.type = pointerType)
    (ha : im.pointer? slide r.segment r.offset = some a) :
    im.rebaseUpdate? slide r = some (slideUpdate slide a) := by
  rw [rebaseUpdate?, if_pos htype, ha, Option.map_some]

lemma Image.bindUpdate?_eq {exports : ℤ → Bytes → ℕ} {b : Bind} {a : ℕ}
    (htype : b.type = pointerType) (ha : im.pointer? slide b.segment b.offset = some a) :
    im.bindUpdate? slide exports b =
      some ⟨a, fun _ => exports b.ordinal b.symbol + b.addend⟩ := by
  rw [bindUpdate?, if_pos htype, ha, Option.map_some]

/-- Linking a file whose pointers lie in their segments. -/
lemma linkFile_eq {rebases : List Rebase} {binds : List Bind} {exports : ℤ → Bytes → ℕ}
    {slid : Rebase → WordUpdate} {bound : Bind → WordUpdate} (him : readImage file = some im)
    (hrebases : rebasesOf file = some rebases) (hbinds : bindsOf file = some binds)
    (hslid : ∀ r ∈ rebases, im.rebaseUpdate? slide r = some (slid r))
    (hbound : ∀ b ∈ binds, im.bindUpdate? slide exports b = some (bound b)) :
    linkFile file slide exports =
      some ((im.mapped file slide).updates (rebases.map slid ++ binds.map bound)) := by
  simp only [linkFile, him, hrebases, hbinds, mapM_eq_some_map hslid, mapM_eq_some_map hbound,
    Option.bind_eq_bind, Option.bind_some]
  rfl

end

end Apk2Ios.MachO
