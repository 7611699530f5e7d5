import Mathlib.Data.List.Chain
import Apk2Ios.MachO.Loader
import Apk2Ios.Phase4.Translate

/-!
# Phase 4: the segments in memory

Segments start at the page below their data and end at the page above it.  They are disjoint,
and hold their `PT_LOAD`s whole, exactly when no two `PT_LOAD`s share a page of the target.
-/

namespace Apk2Ios

open Lib MachO

/-- The pages of one `PT_LOAD` end before those of another start. -/
def Params.PagesApart (P : Params) (p q : ProgramHeader) : Prop :=
  align (P.slide + p.vaddr + p.memsz) P.pageSize ≤ floor (P.slide + q.vaddr) P.pageSize

instance (P : Params) : DecidableRel P.PagesApart := fun _ _ => inferInstanceAs (Decidable (_ ≤ _))

lemma Params.PagesApart.trans {P : Params} {p q r : ProgramHeader} (h : P.PagesApart p q)
    (h' : P.PagesApart q r) : P.PagesApart p r := by
  have h1 := floor_le (P.slide + q.vaddr) P.pageSize
  have h2 := le_align (v := P.slide + q.vaddr + q.memsz) P.pageSize_pos
  rw [PagesApart] at *
  omega

/-- No two `PT_LOAD`s share a page, and they ascend. -/
def Elf64.PagesDisjoint (elf : Elf64) (P : Params) : Prop := elf.loads.Pairwise P.PagesApart

instance (elf : Elf64) (P : Params) : Decidable (elf.PagesDisjoint P) :=
  inferInstanceAs (Decidable (List.Pairwise _ _))

/-- It is enough to compare neighbours. -/
lemma Elf64.pagesDisjoint_of_isChain {elf : Elf64} {P : Params}
    (h : elf.loads.IsChain P.PagesApart) : elf.PagesDisjoint P := by
  let _ : Trans P.PagesApart P.PagesApart P.PagesApart := ⟨fun h h' => h.trans h'⟩
  exact h.pairwise

/-- No `PT_LOAD` is on a page of another one; one that takes no page shares none. -/
def Elf64.PagesUnshared (elf : Elf64) (P : Params) : Prop :=
  elf.loads.Pairwise fun p q => P.PagesApart p q ∨ P.PagesApart q q

instance (elf : Elf64) (P : Params) : Decidable (elf.PagesUnshared P) :=
  inferInstanceAs (Decidable (List.Pairwise _ _))

/-! ### Neighbouring segments -/

lemma isChain_nextSegments (p : Params) (index : ℕ) (phs : List ProgramHeader)
    (prev : ImageSegment) :
    List.IsChain (fun s t : ImageSegment => t.fileoff = align (s.fileoff + s.filesize) p.pageSize)
      (prev :: nextSegments p index (align (prev.fileoff + prev.filesize) p.pageSize) phs) := by
  induction phs generalizing index prev with
  | nil => exact .singleton prev
  | cons ph phs ih =>
    refine .cons_cons ?_ (ih _ _)
    exact align_of_dvd p.isPage (dvd_align p.isPage _)

namespace Phase3Translator

variable {T : Phase3Translator} {i : ℕ} {seg next : ImageSegment} {ph : ProgramHeader}

/-- A segment starts in the file at the page behind the one before it. -/
lemma fileoff_next (h : T.segments[i]? = some seg) (hnext : T.segments[i + 1]? = some next) :
    next.fileoff = align (seg.fileoff + seg.filesize) T.params.pageSize := by
  obtain ⟨first, rest, -, -, -, hsegs⟩ := layoutSegments_eq_ok T.layout
  have hchain := isChain_nextSegments T.params 1 rest (firstSegment T.params first)
  rw [show (firstSegment T.params first).fileoff = 0 from rfl, Nat.zero_add, ← hsegs] at hchain
  obtain ⟨hi, rfl⟩ := List.getElem?_eq_some_iff.mp h
  obtain ⟨hi', rfl⟩ := List.getElem?_eq_some_iff.mp hnext
  exact hchain.getElem i hi'

/-- Where the segments start: the first one at the image base, the others at a page. -/
lemma vmaddr_eq (h : T.segments[i]? = some seg) :
    i = 0 ∧ seg.vmaddr = T.params.imageBase ∨
      0 < i ∧ seg.vmaddr = floor seg.dataAddr T.params.pageSize := by
  obtain ⟨first, rest, -, -, -, hsegs⟩ := layoutSegments_eq_ok T.layout
  rw [hsegs] at h
  cases i with
  | zero =>
    obtain rfl := Option.some.inj h
    exact .inl ⟨rfl, rfl⟩
  | succ i => exact .inr ⟨by omega, (nextSegments_spec (List.mem_of_getElem? h)).2⟩

lemma dvd_vmaddr (hbase : T.params.pageSize ∣ T.params.imageBase)
    (h : T.segments[i]? = some seg) : T.params.pageSize ∣ seg.vmaddr := by
  rcases vmaddr_eq h with ⟨-, heq⟩ | ⟨-, heq⟩
  · rwa [heq]
  · rw [heq]
    exact dvd_floor T.params.isPage _

/-- A segment ends at the page behind its `PT_LOAD`. -/
lemma end_eq (hbase : T.params.pageSize ∣ T.params.imageBase) (h : T.segments[i]? = some seg)
    (hmaps : Maps T.params ph seg) :
    seg.vmaddr + seg.vmsize = align (T.params.slide + ph.vaddr + ph.memsz) T.params.pageSize := by
  have hle := hmaps.vmaddr_le
  have haddr := hmaps.dataAddr
  rw [hmaps.vmsize, align_add_of_dvd T.params.isPage (dvd_vmaddr hbase h), ImageSegment.delta]
  congr 1
  omega

/-- The space a segment takes in the file does not exceed the one it takes in memory. -/
lemma align_filesize_le (hsize : T.elf.FileszLeMemsz) (h : T.segments[i]? = some seg) :
    align (seg.fileoff + seg.filesize) T.params.pageSize ≤ seg.fileoff + seg.vmsize := by
  obtain ⟨ph, hph, hmaps⟩ := exists_load h
  have hle := hsize ph (List.mem_of_getElem? hph)
  rw [← align_add_of_dvd T.params.isPage hmaps.fileoff_dvd, hmaps.vmsize, hmaps.filesize]
  exact Nat.add_le_add_left (align_mono T.params.isPage (by omega)) _

lemma le_linkedit_vmaddr (h : seg ∈ T.segments) {args : TranslateArgs} (t : T.Translation args) :
    seg.vmaddr + seg.vmsize ≤ t.linkedit.vmaddr := by
  have hmax := (le_foldl_max (l := T.segments.map fun x => x.vmaddr + x.vmsize) (m := 0)).2 _
    (List.mem_map_of_mem h)
  exact hmax.trans (le_align T.params.pageSize_pos)

/-- Copying from a file that is too short makes the image shorter, never longer. -/
lemma length_copied_le : T.copied.length ≤ T.dataEnd := by
  rw [copied_eq]
  exact length_copyPieces_le (fun p hp => piece_le_dataEnd hp) List.length_replicate.le

/-- The data ends at the page behind the last segment. -/
lemma dataEnd_le (h : T.segments[i]? = some seg) (hlast : T.segments[i + 1]? = none) :
    T.dataEnd ≤ align (seg.fileoff + seg.filesize) T.params.pageSize := by
  refine foldl_max_le (Nat.zero_le _) fun n hn => ?_
  obtain ⟨s, hs, rfl⟩ := List.mem_map.mp hn
  refine align_mono T.params.isPage ?_
  obtain ⟨j, hj, rfl⟩ := List.getElem_of_mem hs
  obtain ⟨hi, rfl⟩ := List.getElem?_eq_some_iff.mp h
  rw [List.getElem?_eq_none_iff] at hlast
  rcases Nat.lt_or_ge j i with hji | hji
  · have hle := List.pairwise_iff_getElem.mp T.fileOrder j i hj hi hji
    omega
  · obtain rfl : j = i := by omega
    exact le_rfl

lemma linkedit_fileoff_le (h : T.segments[i]? = some seg) (hlast : T.segments[i + 1]? = none)
    {args : TranslateArgs} (t : T.Translation args) :
    t.linkedit.fileoff ≤ align (seg.fileoff + seg.filesize) T.params.pageSize := by
  have hle := T.length_copied_le
  rw [← t.length_image] at hle
  exact align_le_iff T.params.isPage (dvd_align T.params.isPage _) |>.mpr
    (hle.trans (dataEnd_le h hlast))

/-! ### Phase 3 -/

/-- Segments on different pages are disjoint, and `__LINKEDIT` is behind them. -/
lemma pairwise_below (hbase : T.params.pageSize ∣ T.params.imageBase)
    (hpages : T.elf.PagesDisjoint T.params) {args : TranslateArgs} (t : T.Translation args) :
    (T.segments.map ImageSegment.command ++ [t.linkedit.command]).Pairwise Segment64.Below := by
  rw [List.pairwise_append]
  refine ⟨?_, List.pairwise_singleton _ _, ?_⟩
  · rw [List.pairwise_map, List.pairwise_iff_getElem]
    intro i j hi hj hij
    obtain ⟨p, hp, hmaps⟩ := exists_load (List.getElem?_eq_getElem hi)
    obtain ⟨q, hq, hmaps'⟩ := exists_load (List.getElem?_eq_getElem hj)
    obtain ⟨hi', rfl⟩ := List.getElem?_eq_some_iff.mp hp
    obtain ⟨hj', rfl⟩ := List.getElem?_eq_some_iff.mp hq
    have hapart := List.pairwise_iff_getElem.mp hpages i j hi' hj' hij
    have hend := end_eq hbase (List.getElem?_eq_getElem hi) hmaps
    have haddr := hmaps'.dataAddr
    rcases vmaddr_eq (List.getElem?_eq_getElem hj) with ⟨rfl, -⟩ | ⟨-, hstart⟩
    · omega
    · rw [haddr] at hstart
      change T.segments[i].vmaddr + T.segments[i].vmsize ≤ T.segments[j].vmaddr
      rw [hend, hstart]
      exact hapart
  · intro s hs u hu
    obtain ⟨seg, hseg, rfl⟩ := List.mem_map.mp hs
    rcases List.mem_singleton.mp hu with rfl
    exact le_linkedit_vmaddr hseg t

/-- Segments of ascending `PT_LOAD`s are disjoint exactly when these share no pages. -/
lemma disjoint_segments_iff (hbase : T.params.pageSize ∣ T.params.imageBase)
    (hasc : T.elf.LoadsAscend) :
    (T.segments.map ImageSegment.command).Pairwise (fun s u => Disjoint s.memory u.memory) ↔
      T.elf.PagesUnshared T.params := by
  have hlen := T.maps.length_eq
  have hpair : ∀ (i j : ℕ) (hi : i < T.elf.loads.length) (hj : j < T.elf.loads.length), i < j →
      (Disjoint T.segments[i].command.memory T.segments[j].command.memory ↔
        T.params.PagesApart T.elf.loads[i] T.elf.loads[j] ∨
          T.params.PagesApart T.elf.loads[j] T.elf.loads[j]) := by
    intro i j hi hj hij
    have hseg := List.getElem?_eq_getElem (hlen ▸ hi)
    have hseg' := List.getElem?_eq_getElem (hlen ▸ hj)
    obtain ⟨p, hp, hmaps⟩ := exists_load hseg
    obtain ⟨q, hq, hmaps'⟩ := exists_load hseg'
    obtain ⟨_, rfl⟩ := List.getElem?_eq_some_iff.mp hp
    obtain ⟨_, rfl⟩ := List.getElem?_eq_some_iff.mp hq
    have hend := end_eq hbase hseg hmaps
    have hend' := end_eq hbase hseg' hmaps'
    -- the second segment starts at the page of its data, behind the start of the first one
    have hstart : T.segments[j].vmaddr =
        floor (T.params.slide + T.elf.loads[j].vaddr) T.params.pageSize := by
      rcases vmaddr_eq hseg' with ⟨rfl, -⟩ | ⟨-, h⟩
      · omega
      · rwa [hmaps'.dataAddr] at h
    have hle : T.segments[i].vmaddr ≤ T.segments[j].vmaddr := by
      rw [hstart, le_floor_iff T.params.isPage (dvd_vmaddr hbase hseg)]
      have hvaddr := List.pairwise_iff_getElem.mp hasc i j hi hj hij
      have hdata := hmaps.vmaddr_le
      rw [hmaps.dataAddr] at hdata
      omega
    change Disjoint
      (Set.Ico T.segments[i].vmaddr (T.segments[i].vmaddr + T.segments[i].vmsize))
      (Set.Ico T.segments[j].vmaddr (T.segments[j].vmaddr + T.segments[j].vmsize)) ↔ _
    rw [Set.Ico_disjoint_Ico, max_eq_right hle, min_le_iff, hend, hend', hstart]
    rfl
  rw [List.pairwise_map, Elf64.PagesUnshared, List.pairwise_iff_getElem, List.pairwise_iff_getElem]
  constructor
  · exact fun h i j hi hj hij => (hpair i j hi hj hij).mp (h i j (hlen ▸ hi) (hlen ▸ hj) hij)
  · intro h i j hi hj hij
    exact (hpair i j (hlen ▸ hi) (hlen ▸ hj) hij).mpr (h i j (hlen ▸ hi) (hlen ▸ hj) hij)

lemma memoryDisjoint_iff (hbase : T.params.pageSize ∣ T.params.imageBase)
    (hasc : T.elf.LoadsAscend) {args : TranslateArgs} (t : T.Translation args) :
    (dylibImage t.commands dylibFlags).MemoryDisjoint ↔ T.elf.PagesUnshared T.params := by
  rw [Image.MemoryDisjoint, t.segments_file, List.pairwise_append,
    disjoint_segments_iff hbase hasc]
  refine and_iff_left ⟨List.pairwise_singleton _ _, fun s hs u hu => ?_⟩
  obtain ⟨seg, hseg, rfl⟩ := List.mem_map.mp hs
  rcases List.mem_singleton.mp hu with rfl
  exact Segment64.Below.disjoint (le_linkedit_vmaddr hseg t)

end Phase3Translator

/-! ### Phase 4 -/

section

variable {linkedit : ℕ × ℕ} {segs : List ImageSegment}

lemma nextStart_drop (i : ℕ) : nextStart linkedit (segs.drop i) =
    ((segs[i]?).map fun s => (s.fileoff, s.vmaddr)).getD linkedit := by
  by_cases hi : i < segs.length
  · rw [List.drop_eq_getElem_cons hi, List.getElem?_eq_getElem hi]
    rfl
  · rw [List.drop_eq_nil_of_le (by omega), List.getElem?_eq_none (by omega)]
    rfl

/-- The extended segments follow each other without gaps, in the file and in memory. -/
lemma tiles_stretched (h : Ascends linkedit segs) :
    Tiles (nextStart linkedit segs).1
        ((stretched linkedit segs).map fun s => (s.fileoff, s.filesize)) linkedit.1 ∧
      Tiles (nextStart linkedit segs).2
        ((stretched linkedit segs).map fun s => (s.vmaddr, s.vmsize)) linkedit.2 := by
  induction segs with
  | nil => exact ⟨rfl, rfl⟩
  | cons seg rest ih =>
    obtain ⟨⟨hle, hle'⟩, hrest⟩ := h
    obtain ⟨hfile, hvm⟩ := ih hrest
    refine ⟨⟨rfl, ?_⟩, ⟨rfl, ?_⟩⟩
    · rwa [show (nextStart linkedit (seg :: rest)).1 +
        (seg.upTo (nextStart linkedit rest)).filesize = (nextStart linkedit rest).1 from
          Nat.add_sub_cancel' hle]
    · rwa [show (nextStart linkedit (seg :: rest)).2 + (seg.upTo (nextStart linkedit rest)).vmsize =
        (nextStart linkedit rest).2 from Nat.add_sub_cancel' hle']

lemma ascends_iff : Ascends linkedit segs ↔ ∀ (i : ℕ) (seg : ImageSegment), segs[i]? = some seg →
    seg.fileoff ≤ (nextStart linkedit (segs.drop (i + 1))).1 ∧
      seg.vmaddr ≤ (nextStart linkedit (segs.drop (i + 1))).2 := by
  induction segs with
  | nil => simp [Ascends]
  | cons seg rest ih =>
    rw [Ascends, ih]
    constructor
    · rintro ⟨hseg, hrest⟩ i s hs
      cases i with
      | zero =>
        obtain rfl := Option.some.inj hs
        exact hseg
      | succ i => exact hrest i s hs
    · exact fun h => ⟨h 0 seg rfl, fun i s hs => h (i + 1) s hs⟩

end

/-- What segment commands are for: they are disjoint in memory, have room for their bytes, and
each holds its `PT_LOAD` whole. -/
structure HoldsLoads (slide : ℕ) (loads : List ProgramHeader) (im : Image) : Prop where
  disjoint : im.MemoryDisjoint
  room : ∀ seg ∈ im.segments, seg.filesize ≤ seg.vmsize
  holds : ∀ (i : ℕ) (ph : ProgramHeader), loads[i]? = some ph → ∃ seg : Segment64,
    im.segments[i]? = some seg ∧
      Set.Ico (slide + ph.vaddr) (slide + ph.vaddr + ph.memsz) ⊆ seg.memory

namespace Phase4Translator

variable {T : Phase4Translator} {args : TranslateArgs}

namespace Translation

variable {t : T.Translation args} {i : ℕ} {seg : ImageSegment} {ph : ProgramHeader}

/-- The place up to which a segment is extended. -/
def next (t : T.Translation args) (i : ℕ) : ℕ × ℕ :=
  nextStart (t.linkedit.fileoff, t.linkedit.vmaddr) (T.segments.drop (i + 1))

lemma next_eq (t : T.Translation args) (i : ℕ) : t.next i =
    ((T.segments[i + 1]?).map fun s => (s.fileoff, s.vmaddr)).getD
      (t.linkedit.fileoff, t.linkedit.vmaddr) := nextStart_drop (i + 1)

/-- The segment command of a `PT_LOAD`. -/
lemma getElem?_segments (h : T.segments[i]? = some seg) :
    (dylibImage t.commands dylibFlags).segments[i]? = some (seg.upTo (t.next i)).command := by
  have hi := (List.getElem?_eq_some_iff.mp h).1
  rw [t.segments_file, List.getElem?_append_left, List.getElem?_map, segments,
    getElem?_stretched, h]
  · rfl
  · rwa [List.length_map, segments, length_stretched]

lemma next_fileoff_le (h : T.segments[i]? = some seg) :
    (t.next i).1 ≤ align (seg.fileoff + seg.filesize) T.params.pageSize := by
  rw [next_eq]
  cases hnext : T.segments[i + 1]? with
  | none => exact Phase3Translator.linkedit_fileoff_le h hnext t.base
  | some next => exact (Phase3Translator.fileoff_next h hnext).le

lemma le_next_vmaddr (hbase : T.params.pageSize ∣ T.params.imageBase)
    (hpages : T.elf.PagesDisjoint T.params) (h : T.segments[i]? = some seg) :
    seg.vmaddr + seg.vmsize ≤ (t.next i).2 := by
  rw [next_eq]
  cases hnext : T.segments[i + 1]? with
  | none => exact Phase3Translator.le_linkedit_vmaddr (List.mem_of_getElem? h) t.base
  | some next =>
    obtain ⟨hi, rfl⟩ := List.getElem?_eq_some_iff.mp h
    obtain ⟨hi', rfl⟩ := List.getElem?_eq_some_iff.mp hnext
    have hbelow := (List.pairwise_append.mp
      (Phase3Translator.pairwise_below hbase hpages t.base)).1
    exact List.pairwise_iff_getElem.mp (List.pairwise_map.mp hbelow) i (i + 1) hi hi' (by omega)

/-- The commands of Phase 4 do not overlap. -/
lemma Fits.memoryDisjoint (h : t.Fits) : (dylibImage t.commands dylibFlags).MemoryDisjoint := by
  obtain ⟨-, hvm⟩ := tiles_stretched h.ascends
  rw [Image.MemoryDisjoint, t.segments_file, List.pairwise_append]
  refine ⟨?_, List.pairwise_singleton _ _, fun s hs u hu => ?_⟩
  · have hbelow := List.pairwise_map.mp hvm.pairwise
    exact List.pairwise_map.mpr (hbelow.imp fun h => Segment64.Below.disjoint h)
  · obtain ⟨seg, hseg, rfl⟩ := List.mem_map.mp hs
    rcases List.mem_singleton.mp hu with rfl
    exact Segment64.Below.disjoint (hvm.bounds.2 _ (List.mem_map_of_mem hseg)).2

lemma holdsLoads (hfits : t.Fits) (hbase : T.params.pageSize ∣ T.params.imageBase)
    (hsize : T.elf.FileszLeMemsz) (hpages : T.elf.PagesDisjoint T.params) :
    HoldsLoads T.slide T.elf.loads (dylibImage t.commands dylibFlags) where
  disjoint := hfits.memoryDisjoint
  room := by
    rw [t.segments_file]
    intro s hs
    rcases List.mem_append.mp hs with hs | hs
    · obtain ⟨j, hj⟩ := List.getElem?_of_mem hs
      rw [List.getElem?_map, segments, getElem?_stretched, Option.map_map] at hj
      obtain ⟨seg, hseg, rfl⟩ := Option.map_eq_some_iff.mp hj
      have h1 := t.next_fileoff_le hseg
      have h2 := t.le_next_vmaddr hbase hpages hseg
      have h3 := Phase3Translator.align_filesize_le hsize hseg
      change (t.next j).1 - seg.fileoff ≤ (t.next j).2 - seg.vmaddr
      omega
    · rcases List.mem_singleton.mp hs with rfl
      exact le_align T.params.pageSize_pos
  holds := by
    intro i ph hph
    obtain ⟨seg, hseg, hmaps⟩ := Phase3Translator.exists_segment hph
    refine ⟨_, t.getElem?_segments hseg, Set.Ico_subset_Ico ?_ ?_⟩
    · exact hmaps.dataAddr ▸ hmaps.vmaddr_le
    · have h1 := t.le_next_vmaddr hbase hpages hseg
      have h2 := Phase3Translator.end_eq hbase hseg hmaps
      have h3 := le_align (v := T.params.slide + ph.vaddr + ph.memsz) T.params.pageSize_pos
      have h4 : T.slide = T.params.slide := rfl
      change T.slide + ph.vaddr + ph.memsz ≤ seg.vmaddr + ((t.next i).2 - seg.vmaddr)
      omega

/-- Neighbours share no page when the commands hold them and Phase 3 keeps them apart. -/
lemma pagesApart_of_holdsLoads (hfits : t.Fits) (hbase : T.params.pageSize ∣ T.params.imageBase)
    (hasc : T.elf.LoadsAscend)
    (hdisj : (T.segments.map ImageSegment.command).Pairwise fun s u => Disjoint s.memory u.memory)
    (hholds : HoldsLoads T.slide T.elf.loads (dylibImage t.commands dylibFlags))
    {p q : ProgramHeader} (hp : T.elf.loads[i]? = some p) (hq : T.elf.loads[i + 1]? = some q) :
    T.params.PagesApart p q := by
  obtain ⟨seg, hseg, hmaps⟩ := Phase3Translator.exists_segment hp
  obtain ⟨next, hnext, hmaps'⟩ := Phase3Translator.exists_segment hq
  have hslide : T.slide = T.params.slide := rfl
  have hpage := T.params.isPage
  have hvaddr : p.vaddr ≤ q.vaddr := by
    obtain ⟨hi, rfl⟩ := List.getElem?_eq_some_iff.mp hp
    obtain ⟨hi', rfl⟩ := List.getElem?_eq_some_iff.mp hq
    exact List.pairwise_iff_getElem.mp hasc i (i + 1) hi hi' (by omega)
  have haddr := hmaps.dataAddr
  have haddr' := hmaps'.dataAddr
  have hvm := hmaps.vmaddr_le
  have hstart : next.vmaddr = floor (T.params.slide + q.vaddr) T.params.pageSize := by
    rcases Phase3Translator.vmaddr_eq hnext with ⟨h, -⟩ | ⟨-, h⟩
    · omega
    · rwa [haddr'] at h
  have hend := Phase3Translator.end_eq hbase hseg hmaps
  have hend' := Phase3Translator.end_eq hbase hnext hmaps'
  rw [Params.PagesApart, ← hstart]
  have hdvd : T.params.pageSize ∣ next.vmaddr := hstart ▸ dvd_floor hpage _
  have hnextvm : (t.next i).2 = next.vmaddr := by
    rw [next_eq, hnext]
    rfl
  have hle : seg.vmaddr ≤ (t.next i).2 := (ascends_iff.mp hfits.ascends i seg hseg).2
  by_cases hempty : p.memsz = 0
  · -- an empty `PT_LOAD` takes the page it starts in, unless it starts the page
    by_contra hover
    obtain ⟨hi, rfl⟩ := List.getElem?_eq_some_iff.mp hseg
    obtain ⟨hi', rfl⟩ := List.getElem?_eq_some_iff.mp hnext
    have hboth := List.pairwise_iff_getElem.mp (List.pairwise_map.mp hdisj) i (i + 1) hi hi'
      (by omega)
    have hnonempty : T.segments[i + 1].vmaddr <
        T.segments[i + 1].vmaddr + T.segments[i + 1].vmsize := by
      by_contra hno
      have hfull := (align_le_iff hpage hdvd).mp (hend' ▸ not_lt.mp hno)
      exact hover ((align_le_iff hpage hdvd).mpr (by omega))
    refine Set.disjoint_left.mp hboth (?_ : T.segments[i + 1].vmaddr ∈ _) ?_
    · change T.segments[i].vmaddr ≤ T.segments[i + 1].vmaddr ∧
        T.segments[i + 1].vmaddr < T.segments[i].vmaddr + T.segments[i].vmsize
      omega
    · exact ⟨le_rfl, hnonempty⟩
  -- the command holds the last byte, and it ends where the next segment starts
  · obtain ⟨cmd, hcmd, hsub⟩ := hholds.holds i p hp
    rw [t.getElem?_segments hseg] at hcmd
    obtain rfl := Option.some.inj hcmd
    have hlast := hsub (show T.slide + p.vaddr + p.memsz - 1 ∈ _ by
      rw [Set.mem_Ico]
      omega)
    have hmem : T.slide + p.vaddr + p.memsz - 1 <
      seg.vmaddr + ((t.next i).2 - seg.vmaddr) := hlast.2
    exact (align_le_iff hpage hdvd).mpr (by omega)

end Translation

end Phase4Translator

end Apk2Ios
