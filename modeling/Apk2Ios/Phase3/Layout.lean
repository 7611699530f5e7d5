import Apk2Ios.Elf
import Apk2Ios.Lib.Placement
import Apk2Ios.Phase3.Commands

/-!
# Phase 3: the layout of the segments

Every `PT_LOAD` is placed in one Mach-O segment, which starts at the page below it.  The
first segment also holds the file header, in a reserve in front of the `PT_LOAD`.  The
translator keeps the layout together with the checks its constructor makes.
-/

namespace Apk2Ios

open Lib MachO

/-- The keyword parameters of the constructor. -/
structure Params where
  imageBase : ℕ := 0
  headerReserve : ℕ := 0x10000
  pageSize : ℕ := 0x4000
  /-- The rounding functions are meant for page sizes only. -/
  isPage : IsPage pageSize := by exact ⟨14, rfl⟩

namespace Params

variable (p : Params)

/-- `self.slide`. -/
def slide : ℕ := p.imageBase + p.headerReserve

/-- The parameters of all callers. -/
def default : Params := { isPage := isPage_16K }

lemma pageSize_pos : 0 < p.pageSize := p.isPage.pos

end Params

/-! ### `_layout_segments` -/

section

variable (p : Params)

def firstSegment (first : ProgramHeader) : ImageSegment where
  name := "__TEXT"
  vmaddr := p.imageBase
  vmsize := align (p.headerReserve + first.memsz) p.pageSize
  fileoff := 0
  filesize := p.headerReserve + first.filesz
  protection := 1 ||| 4
  elfVaddr := first.vaddr
  elfOffset := first.offset
  elfFilesz := first.filesz
  elfMemsz := first.memsz
  dataAddr := p.slide
  dataFileoff := p.headerReserve
  dataSize := first.filesz
  sectionName := "__elf_rx"

/-- The segment of a later `PT_LOAD`, from its number and the end of the file so far. -/
def nextSegment (index cursor : ℕ) (ph : ProgramHeader) : ImageSegment :=
  let newVm := p.slide + ph.vaddr
  let vmFloor := floor newVm p.pageSize
  let delta := newVm - vmFloor
  let fileoff := align cursor p.pageSize
  { name := if ph.flags &&& 2 ≠ 0 then "__ELF_DATA" else "__ELF_" ++ toString index
    vmaddr := vmFloor
    vmsize := align (delta + ph.memsz) p.pageSize
    fileoff := fileoff
    filesize := delta + ph.filesz
    protection := machProt ph.flags
    elfVaddr := ph.vaddr
    elfOffset := ph.offset
    elfFilesz := ph.filesz
    elfMemsz := ph.memsz
    dataAddr := newVm
    dataFileoff := fileoff + delta
    dataSize := ph.filesz
    sectionName := if ph.flags &&& 2 ≠ 0 then "__elf_rw" else "__elf_" ++ toString index }

def nextSegments : ℕ → ℕ → List ProgramHeader → List ImageSegment
  | _, _, [] => []
  | index, cursor, ph :: phs =>
    let seg := nextSegment p index cursor ph
    seg :: nextSegments (index + 1) (align (seg.fileoff + seg.filesize) p.pageSize) phs

/-- `_layout_segments()`, from the `PT_LOAD` headers. -/
def layoutSegments : List ProgramHeader → PyM (List ImageSegment)
  | [] => .error (.phase3 .noLoad)
  | first :: rest =>
    if first.vaddr ≠ 0 ∨ first.flags &&& 1 = 0 then .error (.phase3 .firstLoad)
    else
      let seg := firstSegment p first
      .ok (seg :: nextSegments p 1 (align seg.filesize p.pageSize) rest)

end

namespace ImageSegment

/-- The bytes of the `PT_LOAD` and their place in the image. -/
def piece (seg : ImageSegment) : Piece :=
  ⟨seg.elfVaddr, seg.elfOffset, seg.elfFilesz, seg.dataFileoff⟩

/-- The distance from the start of the segment to its data. -/
def delta (seg : ImageSegment) : ℕ := seg.dataAddr - seg.vmaddr

end ImageSegment

/-- The segment of a `PT_LOAD`: in the file and in memory the data comes after the same
number of bytes, and the sizes cover the bytes in front of it. -/
structure Maps (p : Params) (ph : ProgramHeader) (seg : ImageSegment) : Prop where
  elfVaddr : seg.elfVaddr = ph.vaddr
  elfOffset : seg.elfOffset = ph.offset
  elfFilesz : seg.elfFilesz = ph.filesz
  elfMemsz : seg.elfMemsz = ph.memsz
  dataAddr : seg.dataAddr = p.slide + ph.vaddr
  dataSize : seg.dataSize = ph.filesz
  vmaddr_le : seg.vmaddr ≤ seg.dataAddr
  vmsize : seg.vmsize = align (seg.delta + ph.memsz) p.pageSize
  dataFileoff : seg.dataFileoff = seg.fileoff + seg.delta
  filesize : seg.filesize = seg.delta + ph.filesz
  fileoff_dvd : p.pageSize ∣ seg.fileoff
  protection : seg.protection < 8

/-- The file ranges of segments that follow each other. -/
def FileOrder (segs : List ImageSegment) : Prop :=
  segs.Pairwise fun s t => s.fileoff + s.filesize ≤ t.fileoff

section

variable {p : Params} {ph : ProgramHeader} {phs : List ProgramHeader} {seg : ImageSegment}
  {segs : List ImageSegment} {index cursor : ℕ}

lemma delta_firstSegment : (firstSegment p ph).delta = p.headerReserve := by
  simp [ImageSegment.delta, firstSegment, Params.slide]

lemma maps_firstSegment (h : ph.vaddr = 0) : Maps p ph (firstSegment p ph) where
  elfVaddr := rfl
  elfOffset := rfl
  elfFilesz := rfl
  elfMemsz := rfl
  dataAddr := by simp [firstSegment, h]
  dataSize := rfl
  vmaddr_le := Nat.le_add_right _ _
  vmsize := by rw [delta_firstSegment, firstSegment]
  dataFileoff := by rw [delta_firstSegment]; exact (Nat.zero_add _).symm
  filesize := by rw [delta_firstSegment, firstSegment]
  fileoff_dvd := Nat.dvd_zero _
  protection := by simp [firstSegment]

lemma maps_nextSegment : Maps p ph (nextSegment p index cursor ph) where
  elfVaddr := rfl
  elfOffset := rfl
  elfFilesz := rfl
  elfMemsz := rfl
  dataAddr := rfl
  dataSize := rfl
  vmaddr_le := floor_le _ _
  vmsize := rfl
  dataFileoff := rfl
  filesize := rfl
  fileoff_dvd := dvd_align p.isPage _
  protection := machProt_lt _

lemma maps_nextSegments : List.Forall₂ (Maps p) phs (nextSegments p index cursor phs) := by
  induction phs generalizing index cursor with
  | nil => exact .nil
  | cons ph phs ih => exact .cons maps_nextSegment ih

/-- Later segments start behind the cursor, at the page of their data. -/
lemma nextSegments_spec {seg : ImageSegment} (h : seg ∈ nextSegments p index cursor phs) :
    cursor ≤ seg.fileoff ∧ seg.vmaddr = floor seg.dataAddr p.pageSize := by
  induction phs generalizing index cursor with
  | nil => simp [nextSegments] at h
  | cons ph phs ih =>
    have hcursor : cursor ≤ (nextSegment p index cursor ph).fileoff :=
      le_align p.pageSize_pos
    rcases List.mem_cons.mp h with rfl | h
    · exact ⟨hcursor, rfl⟩
    · obtain ⟨hle, hfloor⟩ := ih h
      have halign := (le_align p.pageSize_pos).trans hle
      exact ⟨by omega, hfloor⟩

lemma fileOrder_nextSegments : FileOrder (nextSegments p index cursor phs) := by
  induction phs generalizing index cursor with
  | nil => exact .nil
  | cons ph phs ih =>
    refine List.pairwise_cons.mpr ⟨fun seg hseg => ?_, ih⟩
    exact (le_align p.pageSize_pos).trans (nextSegments_spec hseg).1

/-- What the layout gives. -/
lemma layoutSegments_eq_ok (h : layoutSegments p phs = .ok segs) :
    ∃ first rest, phs = first :: rest ∧ first.vaddr = 0 ∧ first.flags &&& 1 ≠ 0 ∧
      segs = firstSegment p first ::
        nextSegments p 1 (align (firstSegment p first).filesize p.pageSize) rest := by
  match phs, h with
  | first :: rest, h =>
    rw [layoutSegments] at h
    split at h
    · simp at h
    · rename_i hfirst
      rw [not_or, not_not] at hfirst
      exact ⟨first, rest, rfl, hfirst.1, hfirst.2, (Except.ok.inj h).symm⟩

end

/-! ### The translator -/

/-- `Phase3Translator`: the file, the parameters and the layout, with what the constructor
checks. -/
structure Phase3Translator where
  elf : Elf64
  params : Params
  segments : List ImageSegment
  machine : elf.eMachine = emAarch64
  type : elf.eType = etDyn
  layout : layoutSegments params elf.loads = .ok segments

/-- The place of an address: the number of its segment, its offset in the output file and
its offset in the segment. -/
structure Location where
  segmentIndex : ℕ
  outputOffset : ℕ
  segmentOffset : ℕ
deriving DecidableEq, Repr

namespace Phase3Translator

/-- `Phase3Translator(elf, …)`. -/
def init (elf : Elf64) (p : Params) : PyM Phase3Translator :=
  if hmachine : elf.eMachine = emAarch64 then
    if htype : elf.eType = etDyn then
      match hlayout : layoutSegments p elf.loads with
      | .error e => .error e
      | .ok segments => .ok ⟨elf, p, segments, hmachine, htype, hlayout⟩
    else .error (.phase3 .type)
  else .error (.phase3 .machine)

/-- The constructor accepts exactly the files and parameters that have a translator. -/
lemma init_eq_ok {T : Phase3Translator} {elf : Elf64} {p : Params} :
    init elf p = .ok T ↔ T.elf = elf ∧ T.params = p := by
  constructor
  · intro h
    rw [init] at h
    split_ifs at h with hmachine htype
    split at h
    · simp at h
    · obtain rfl := Except.ok.inj h
      exact ⟨rfl, rfl⟩
  · rintro ⟨rfl, rfl⟩
    rw [init, dif_pos T.machine, dif_pos T.type]
    split
    · rename_i hlayout
      simp [T.layout] at hlayout
    · rename_i hlayout
      obtain rfl := Except.ok.inj (T.layout.symm.trans hlayout)
      rfl

variable (T : Phase3Translator)

/-- `self.slide`. -/
def slide : ℕ := T.params.slide

/-- The loop of `_location`, from the number of the next segment. -/
def locationFrom (vaddr : ℕ) : ℕ → List ImageSegment → PyM Location
  | _, [] => .error (.phase3 (.target vaddr))
  | index, seg :: segs =>
    if seg.elfVaddr ≤ vaddr ∧ vaddr < seg.elfVaddr + seg.elfFilesz then
      .ok {
        segmentIndex := index
        outputOffset := seg.dataFileoff + (vaddr - seg.elfVaddr)
        segmentOffset := T.slide + vaddr - seg.vmaddr }
    else locationFrom vaddr (index + 1) segs

/-- `_location(vaddr)`. -/
def location (vaddr : ℕ) : PyM Location := T.locationFrom vaddr 0 T.segments

/-- The copied pieces of the file. -/
def pieces : List Piece := T.segments.map ImageSegment.piece

variable {T}

lemma maps : List.Forall₂ (Maps T.params) T.elf.loads T.segments := by
  obtain ⟨first, rest, hloads, hvaddr, -, hsegs⟩ := layoutSegments_eq_ok T.layout
  rw [hloads, hsegs]
  exact .cons (maps_firstSegment hvaddr) maps_nextSegments

lemma exists_load {i : ℕ} {seg : ImageSegment} (h : T.segments[i]? = some seg) :
    ∃ ph, T.elf.loads[i]? = some ph ∧ Maps T.params ph seg := by
  obtain ⟨hi, rfl⟩ := List.getElem?_eq_some_iff.mp h
  have hlen := T.maps.length_eq
  exact ⟨T.elf.loads[i], List.getElem?_eq_getElem (by omega), T.maps.get (by omega) hi⟩

lemma exists_segment {i : ℕ} {ph : ProgramHeader} (h : T.elf.loads[i]? = some ph) :
    ∃ seg, T.segments[i]? = some seg ∧ Maps T.params ph seg := by
  obtain ⟨hi, rfl⟩ := List.getElem?_eq_some_iff.mp h
  have hlen := T.maps.length_eq
  exact ⟨T.segments[i], List.getElem?_eq_getElem (by omega), T.maps.get hi (by omega)⟩

lemma exists_load_of_mem {seg : ImageSegment} (h : seg ∈ T.segments) :
    ∃ ph ∈ T.elf.loads, Maps T.params ph seg := by
  obtain ⟨i, hi⟩ := List.getElem?_of_mem h
  obtain ⟨ph, hph, hmaps⟩ := exists_load hi
  exact ⟨ph, List.mem_of_getElem? hph, hmaps⟩

lemma fileOrder : FileOrder T.segments := by
  obtain ⟨first, rest, -, -, -, hsegs⟩ := layoutSegments_eq_ok T.layout
  rw [hsegs]
  refine List.pairwise_cons.mpr ⟨fun seg hseg => ?_, fileOrder_nextSegments⟩
  have hle := (nextSegments_spec hseg).1
  have halign := le_align (v := (firstSegment T.params first).filesize) T.params.pageSize_pos
  have hzero : (firstSegment T.params first).fileoff = 0 := rfl
  omega

/-- The data of every segment lies behind the header reserve. -/
lemma headerReserve_le {seg : ImageSegment} (h : seg ∈ T.segments) :
    T.params.headerReserve ≤ seg.dataFileoff := by
  obtain ⟨first, rest, -, -, -, hsegs⟩ := layoutSegments_eq_ok T.layout
  obtain ⟨ph, -, hmaps⟩ := exists_load_of_mem h
  rw [hsegs] at h
  rcases List.mem_cons.mp h with rfl | h
  · exact le_rfl
  · have hle := (nextSegments_spec h).1
    have halign := le_align (v := (firstSegment T.params first).filesize) T.params.pageSize_pos
    have hsize : T.params.headerReserve ≤ (firstSegment T.params first).filesize :=
      Nat.le_add_right _ _
    have hdata := hmaps.dataFileoff
    omega

lemma ascending_pieces : Ascending T.pieces := by
  rw [Ascending, pieces, List.pairwise_map]
  refine T.fileOrder.imp_of_mem fun {s t} hs ht hst => ?_
  obtain ⟨ph, -, hmaps⟩ := exists_load_of_mem hs
  obtain ⟨ph', -, hmaps'⟩ := exists_load_of_mem ht
  have h1 := hmaps.dataFileoff
  have h2 := hmaps.filesize
  have h3 := hmaps.elfFilesz
  have h4 := hmaps'.dataFileoff
  simp only [ImageSegment.piece]
  omega

lemma locationFrom_eq_ok {vaddr index : ℕ} {segs : List ImageSegment} {loc : Location} :
    T.locationFrom vaddr index segs = .ok loc ↔
      ∃ i seg, segs[i]? = some seg ∧ seg.piece.Covers vaddr ∧
        (∀ j < i, ∀ s ∈ segs[j]?, ¬ s.piece.Covers vaddr) ∧
        loc = ⟨index + i, seg.piece.position vaddr, T.slide + vaddr - seg.vmaddr⟩ := by
  -- by induction on the segments; `index` counts those already passed
  induction segs generalizing index with
  | nil => simp [locationFrom]
  | cons s segs ih =>
    rw [locationFrom]
    by_cases hs : s.elfVaddr ≤ vaddr ∧ vaddr < s.elfVaddr + s.elfFilesz
    · rw [if_pos hs, Except.ok.injEq]
      constructor
      · rintro rfl
        exact ⟨0, s, rfl, hs, by simp, rfl⟩
      · rintro ⟨i, seg, hseg, -, hfirst, rfl⟩
        match i with
        | 0 =>
          obtain rfl := Option.some.inj hseg
          rfl
        | i + 1 => exact absurd hs (hfirst 0 (by omega) s rfl)
    · rw [if_neg hs, ih]
      constructor
      · rintro ⟨i, seg, hseg, hcovers, hfirst, rfl⟩
        refine ⟨i + 1, seg, hseg, hcovers, fun j hj t ht => ?_, by
          rw [show index + (i + 1) = index + 1 + i by omega]⟩
        match j with
        | 0 =>
          obtain rfl := Option.some.inj ht
          exact hs
        | j + 1 => exact hfirst j (by omega) t ht
      · rintro ⟨i, seg, hseg, hcovers, hfirst, rfl⟩
        match i with
        | 0 =>
          obtain rfl := Option.some.inj hseg
          exact absurd hcovers hs
        | i + 1 =>
          refine ⟨i, seg, hseg, hcovers, fun j hj t ht => ?_, by
            rw [show index + (i + 1) = index + 1 + i by omega]⟩
          exact hfirst (j + 1) (by omega) t ht

/-- A location is in the first segment whose file-backed bytes contain the address. -/
lemma location_eq_ok {vaddr : ℕ} {loc : Location} :
    T.location vaddr = .ok loc ↔
      ∃ i seg, T.segments[i]? = some seg ∧ seg.piece.Covers vaddr ∧
        (∀ j < i, ∀ s ∈ T.segments[j]?, ¬ s.piece.Covers vaddr) ∧
        loc = ⟨i, seg.piece.position vaddr, T.slide + vaddr - seg.vmaddr⟩ := by
  rw [location, locationFrom_eq_ok]
  simp only [Nat.zero_add]

/-- The segment of a location holds the piece in which the address is found. -/
lemma exists_segment_of_location {vaddr : ℕ} {loc : Location} (h : T.location vaddr = .ok loc) :
    ∃ seg, T.segments[loc.segmentIndex]? = some seg ∧
      findPiece T.pieces vaddr = some seg.piece ∧ loc.outputOffset = seg.piece.position vaddr ∧
      loc.segmentOffset = T.slide + vaddr - seg.vmaddr := by
  obtain ⟨i, seg, hseg, hcovers, hfirst, rfl⟩ := location_eq_ok.mp h
  refine ⟨seg, hseg, ?_, rfl, rfl⟩
  obtain ⟨hi, rfl⟩ := List.getElem?_eq_some_iff.mp hseg
  rw [findPiece, List.find?_eq_some_iff_getElem]
  refine ⟨by simpa using hcovers, i, by simpa [pieces] using hi, by simp [pieces], ?_⟩
  intro j hj
  have hno := hfirst j hj T.segments[j] (by simp)
  simpa [pieces] using hno

lemma locate_of_location {vaddr : ℕ} {loc : Location} (h : T.location vaddr = .ok loc) :
    locate T.pieces vaddr = some loc.outputOffset := by
  obtain ⟨seg, -, hfind, hout, -⟩ := exists_segment_of_location h
  rw [locate, hfind, hout]
  rfl

/-- An address that is found has a location. -/
lemma exists_location {vaddr : ℕ} {p : Piece} (h : findPiece T.pieces vaddr = some p) :
    ∃ loc, T.location vaddr = .ok loc := by
  rw [findPiece, List.find?_eq_some_iff_getElem] at h
  obtain ⟨hcovers, i, hi, rfl, hfirst⟩ := h
  have hi' : i < T.segments.length := by simpa [pieces] using hi
  have hseg : T.pieces[i] = T.segments[i].piece := by simp [pieces]
  refine ⟨_, location_eq_ok.mpr ⟨i, T.segments[i], by simp, ?_, fun j hj s hs => ?_, rfl⟩⟩
  · simpa [hseg] using hcovers
  · obtain ⟨hj', rfl⟩ := List.getElem?_eq_some_iff.mp hs
    have hno := hfirst j hj
    simpa [pieces] using hno

end Phase3Translator

end Apk2Ios
