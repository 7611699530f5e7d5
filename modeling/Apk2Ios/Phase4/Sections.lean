import Apk2Ios.MachO.Walk
import Apk2Ios.Phase3.Load
import Apk2Ios.Phase4.Memory

/-!
# Phase 4: special sections

The translator has helpers that describe constructor, unwind and other named sections with
Mach-O sections of their own, but `translate` does not call them: its commands have the two
sections of Phase 3 in every segment and no others.
-/

namespace Apk2Ios

open Lib MachO

/-! ### The helpers -/

/-- `SECTION_MAP`: the name and the flags of the Mach-O section. -/
def sectionMap : String → Option (String × ℕ)
  | ".text" => some ("__text", 0x80000000 ||| 0x400)
  | ".rodata" => some ("__const", 0)
  | ".eh_frame" => some ("__eh_frame", 0)
  | ".gcc_except_table" => some ("__gcc_except_tab", 0)
  | ".init_array" => some ("__mod_init_func", 0x9)
  | ".fini_array" => some ("__mod_term_func", 0xA)
  | _ => none

/-- `_section_align(addralign)`. -/
def sectionAlign (addralign : ℕ) : ℕ :=
  if addralign ≤ 1 then 0
  else if addralign &&& (addralign - 1) ≠ 0 then 0
  else Nat.log2 addralign

/-- `_section_command(…)`. -/
def sectionCommand (sectname segname : String) (addr size offset align flags : ℕ) : PyM Bytes :=
  structPack [.s (name16 sectname), .s (name16 segname), .Q addr, .Q size, .I offset, .I align,
    .I 0, .I 0, .I flags, .I 0, .I 0, .I 0]

namespace Phase4Translator

variable (T : Phase4Translator)

/-- The tests of `_special_sections` on a section: its Mach-O name and flags and its place in
the file, when it is one of those of the segment. -/
def specialSection (seg : ImageSegment) (sec : SectionHeader) :
    Option (SectionHeader × String × ℕ × ℕ) :=
  match sectionMap sec.name with
  | none => none
  | some (sectname, flags) =>
    if sec.size = 0 then none
    else if seg.elfVaddr ≤ sec.addr ∧ sec.addr < seg.elfVaddr + seg.elfFilesz then
      match T.location sec.addr with
      | .error _ => none
      | .ok loc => some (sec, sectname, flags, loc.outputOffset)
    else none

/-- `_special_sections(seg)`. -/
def specialSections (seg : ImageSegment) : PyM (List Bytes) :=
  (T.elf.sections.filterMap (T.specialSection seg)).mapM fun (sec, sectname, flags, offset) =>
    sectionCommand sectname seg.name (T.slide + sec.addr) sec.size offset
      (sectionAlign sec.addralign) flags

end Phase4Translator

/-- `_segment_with_sections(seg, sections)`. -/
def segmentWithSections (seg : ImageSegment) (sections : List Bytes) : PyM Bytes := do
  let sentinel ← sectionCommand "__segstart" seg.name seg.vmaddr 0 seg.fileoff 0 0
  let allSections := sentinel :: sections
  let header ← structPack [.I lcSegment64, .I (72 + 80 * allSections.length),
    .s (name16 seg.name), .Q seg.vmaddr, .Q seg.vmsize, .Q seg.fileoff, .Q seg.filesize,
    .i seg.protection, .i seg.protection, .I allSections.length, .I 0]
  return header ++ allSections.flatten

lemma sectionCommand_eq_ok {sectname segname : String} {addr size offset align flags : ℕ}
    {bs : Bytes} : sectionCommand sectname segname addr size offset align flags = .ok bs ↔
      (addr < 2 ^ 64 ∧ size < 2 ^ 64 ∧ offset < 2 ^ 32 ∧ align < 2 ^ 32 ∧ flags < 2 ^ 32) ∧
      bs = (Section64.mk (name16 sectname) (name16 segname) addr size offset align
        flags).encode := by
  rw [sectionCommand, structPack_eq_ok]
  refine and_congr ?_ (Eq.congr_right ?_)
  · simp [Field.Fits]
  · simp [Section64.encode, Field.bytes, words]

/-! ### What the commands describe -/

/-- The address range of a section lies in the file-backed bytes of a `PT_LOAD`. -/
def ProgramHeader.HoldsSection (ph : ProgramHeader) (sec : SectionHeader) : Prop :=
  ph.vaddr ≤ sec.addr ∧ sec.addr + sec.size ≤ ph.vaddr + ph.filesz

instance (ph : ProgramHeader) (sec : SectionHeader) : Decidable (ph.HoldsSection sec) :=
  inferInstanceAs (Decidable (_ ∧ _))

/-- A section that the map names, with bytes, inside a `PT_LOAD`. -/
def Elf64.Special (elf : Elf64) (sec : SectionHeader) : Prop :=
  sec.size ≠ 0 ∧ (sectionMap sec.name).isSome ∧ ∃ ph ∈ elf.loads, ph.HoldsSection sec

instance (elf : Elf64) (sec : SectionHeader) : Decidable (elf.Special sec) :=
  inferInstanceAs (Decidable (_ ∧ _ ∧ ∃ _ ∈ _, _))

/-- A Mach-O section describes an ELF section of the segment: the name and the flags of the
map, the place in memory, and the place in the file at which the segment has its bytes. -/
def Describes (slide : ℕ) (seg : Segment64) (sec : SectionHeader) (s : Section64) : Prop :=
  (∃ m ∈ sectionMap sec.name, s.sectname = name16 m.1 ∧ s.flags = m.2) ∧
    s.addr = slide + sec.addr ∧ s.size = sec.size ∧
    s.offset = seg.fileoff + (slide + sec.addr - seg.vmaddr)

/-- The helper describes the special sections of its segment, each at the place in the file where
the segment has its first byte. -/
lemma Phase4Translator.exists_special {T : Phase4Translator} {seg : ImageSegment}
    {out : List Bytes} (h : T.specialSections seg = .ok out) :
    ∃ special : List Section64, out = special.map Section64.encode ∧
      (∀ s ∈ special, s.sectname.length = 16 ∧ s.segname.length = 16) ∧
      ∀ sec ∈ T.elf.sections, sec.size ≠ 0 → ∀ m, sectionMap sec.name = some m →
        ∀ loc, T.location sec.addr = .ok loc → T.segments[loc.segmentIndex]? = some seg →
          ∃ s ∈ special, Describes T.slide seg.command sec s := by
  -- what the helper writes for the values of one section
  let header (p : SectionHeader × String × ℕ × ℕ) : Section64 := ⟨name16 p.2.1, name16 seg.name,
    T.slide + p.1.addr, p.1.size, p.2.2.2, sectionAlign p.1.addralign, p.2.2.1⟩
  obtain ⟨-, rfl⟩ := (PyM.mapM_eq_ok_map (g := fun p => (header p).encode) fun p bs => by
    rw [eq_comm (b := bs)]
    exact sectionCommand_eq_ok).mp h
  refine ⟨(T.elf.sections.filterMap (T.specialSection seg)).map header, by rw [List.map_map]; rfl,
    List.forall_mem_map.mpr fun p _ => ⟨length_name16 _, length_name16 _⟩, ?_⟩
  intro sec hsec hsize m hm loc hloc hseg
  obtain ⟨seg', hseg', hfind, hout, -⟩ := Phase3Translator.exists_segment_of_location hloc
  obtain rfl := Option.some.inj (hseg'.symm.trans hseg)
  obtain ⟨ph, -, hmaps⟩ := Phase3Translator.exists_load hseg
  have hcovers := (findPiece_eq_some hfind).2
  have hspecial : T.specialSection seg' sec = some (sec, m.1, m.2, loc.outputOffset) := by
    rw [specialSection, hm]
    simp only [if_neg hsize, hloc]
    exact if_pos hcovers
  refine ⟨header (sec, m.1, m.2, loc.outputOffset),
    List.mem_map_of_mem (List.mem_filterMap.mpr ⟨sec, hsec, hspecial⟩),
    ⟨m, hm, rfl, rfl⟩, rfl, rfl, ?_⟩
  have hle : ph.vaddr ≤ sec.addr := hmaps.elfVaddr ▸ hcovers.1
  exact hout.trans (Phase3Translator.position_eq hmaps hle)

/-- What `_segment_with_sections` writes. -/
lemma segmentWithSections_eq {seg : ImageSegment} {special : List Section64} {bs : Bytes}
    (hnames : ∀ s ∈ special, s.sectname.length = 16 ∧ s.segname.length = 16)
    (h : segmentWithSections seg (special.map Section64.encode) = .ok bs) :
    bs = (LoadCommand.segment
      { seg.command with sections := seg.sentinel :: special }).encode := by
  simp only [segmentWithSections, PyM.bind_eq_ok, structPack_eq_ok, PyM.pure_eq_ok,
    sectionCommand_eq_ok] at h
  obtain ⟨_, ⟨-, rfl⟩, _, ⟨-, rfl⟩, rfl⟩ := h
  have hsize : (LoadCommand.segment
      { seg.command with sections := seg.sentinel :: special }).cmdsize =
        72 + 80 * (special.length + 1) :=
    cmdsize_segment (length_name16 _)
      (List.forall_mem_cons.mpr ⟨⟨length_name16 _, length_name16 _⟩, hnames⟩)
  rw [LoadCommand.encode, hsize]
  simp [LoadCommand.cmd, LoadCommand.body, Segment64.encode, ImageSegment.command,
    ImageSegment.sentinel, Field.bytes, words, lcSegment64, List.flatMap_def]

/-- **A segment written with the helpers keeps its special sections**: the command that
`_segment_with_sections` makes of `_special_sections` describes each of them.  So they are lost
only because `translate` calls neither. -/
theorem Phase4Translator.segmentWithSections_describes {T : Phase4Translator} {seg : ImageSegment}
    {sections : List Bytes} {bs : Bytes} (hsections : T.specialSections seg = .ok sections)
    (h : segmentWithSections seg sections = .ok bs) :
    ∃ cmd : Segment64, bs = (LoadCommand.segment cmd).encode ∧
      ∀ sec ∈ T.elf.sections, sec.size ≠ 0 → ∀ m, sectionMap sec.name = some m →
        ∀ loc, T.location sec.addr = .ok loc → T.segments[loc.segmentIndex]? = some seg →
          ∃ s ∈ cmd.sections, Describes T.slide cmd sec s := by
  obtain ⟨special, rfl, hnames, hall⟩ := exists_special hsections
  refine ⟨_, segmentWithSections_eq hnames h, ?_⟩
  intro sec hsec hsize m hm loc hloc hseg
  obtain ⟨s, hs, hdescribes⟩ := hall sec hsec hsize m hm loc hloc hseg
  exact ⟨s, List.mem_cons_of_mem _ hs, hdescribes⟩

/-- Exactly one section of the image describes the section, in the segment of a `PT_LOAD` that
holds it. -/
def SectionKept (slide : ℕ) (loads : List ProgramHeader) (im : Image) (sec : SectionHeader) :
    Prop :=
  ∃ (i : ℕ) (ph : ProgramHeader) (seg : Segment64) (s : Section64), loads[i]? = some ph ∧
    ph.HoldsSection sec ∧ im.segments[i]? = some seg ∧ s ∈ seg.sections ∧
    Describes slide seg sec s ∧ ∀ s' ∈ im.segments.flatMap Segment64.sections,
      s'.sectname = s.sectname → s'.flags = s.flags → s' = s

/-- The names of the map differ from those of Phase 3 in the first four letters. -/
lemma take_sectionMap {name : String} {m : String × ℕ} (h : m ∈ sectionMap name) :
    (name16 m.1).take 4 ≠ (name16 "__segstart").take 4 ∧
      (name16 m.1).take 4 ≠ (utf8 "__elf_").take 4 := by
  unfold sectionMap at h
  split at h <;> simp only [Option.mem_def, Option.some.injEq, reduceCtorEq] at h
  all_goals subst h; decide

lemma take_name16_append (x : String) :
    (name16 ("__elf_" ++ x)).take 4 = (utf8 "__elf_").take 4 := by
  have hlen : (utf8 "__elf_").length = 6 := by decide
  rw [name16, utf8_append, List.take_append_of_le_length (by simp; omega), List.take_take,
    List.take_append_of_le_length (by omega)]
  rfl

namespace Phase3Translator

variable {T : Phase3Translator} {seg : ImageSegment}

/-- The data sections have names of one kind. -/
lemma exists_sectionName (h : seg ∈ T.segments) : ∃ x, seg.sectionName = "__elf_" ++ x := by
  have hnext : ∀ {p : Params} {phs : List ProgramHeader} {index cursor : ℕ},
      seg ∈ nextSegments p index cursor phs → ∃ x, seg.sectionName = "__elf_" ++ x := by
    intro p phs
    induction phs with
    | nil => simp [nextSegments]
    | cons ph phs ih =>
      intro index cursor hmem
      rcases List.mem_cons.mp hmem with rfl | hmem
      · by_cases hw : ph.flags &&& 2 ≠ 0
        · exact ⟨"rw", if_pos hw⟩
        · exact ⟨toString index, if_neg hw⟩
      · exact ih hmem
  obtain ⟨first, rest, -, -, -, hsegs⟩ := layoutSegments_eq_ok T.layout
  rw [hsegs] at h
  rcases List.mem_cons.mp h with rfl | h
  · exact ⟨"rx", rfl⟩
  · exact hnext h

end Phase3Translator

namespace Phase4Translator

variable {T : Phase4Translator} {args : TranslateArgs}

/-- No section of the written file has a name of the map. -/
lemma Translation.sectname_ne {t : T.Translation args} {s : Section64}
    (hs : s ∈ (dylibImage t.commands dylibFlags).segments.flatMap Segment64.sections)
    {name : String} {m : String × ℕ} (hm : m ∈ sectionMap name) : s.sectname ≠ name16 m.1 := by
  obtain ⟨hstart, helf⟩ := take_sectionMap hm
  obtain ⟨cmd, hcmd, hs⟩ := List.mem_flatMap.mp hs
  rw [t.segments_file, List.mem_append] at hcmd
  rcases hcmd with hcmd | hcmd
  · obtain ⟨j, hj⟩ := List.getElem?_of_mem hcmd
    rw [List.getElem?_map, segments, getElem?_stretched, Option.map_map] at hj
    obtain ⟨seg, hseg, rfl⟩ := Option.map_eq_some_iff.mp hj
    rcases List.mem_cons.mp hs with rfl | hs
    · exact fun h => hstart (congrArg (List.take 4) h.symm)
    · rcases List.mem_singleton.mp hs with rfl
      obtain ⟨x, hx⟩ := Phase3Translator.exists_sectionName (List.mem_of_getElem? hseg)
      intro h
      refine helf ?_
      rw [← h, ← take_name16_append x, ← hx]
      rfl
  · rcases List.mem_singleton.mp hcmd with rfl
    exact absurd hs List.not_mem_nil

lemma Translation.not_sectionKept {t : T.Translation args} (sec : SectionHeader) :
    ¬ SectionKept T.slide T.elf.loads (dylibImage t.commands dylibFlags) sec := by
  rintro ⟨i, ph, seg, s, -, -, hseg, hs, ⟨⟨m, hm, hname, -⟩, -⟩, -⟩
  exact t.sectname_ne (List.mem_flatMap.mpr ⟨seg, List.mem_of_getElem? hseg, hs⟩) hm hname

/-- **No special section is described by the file.**  So all of them are exactly when there is
none. -/
theorem sectionsKept_iff {out : Phase4Output} (h : T.translate args = .ok out) :
    ∃ im, readImage out.file = some im ∧
      ((∀ sec ∈ T.elf.sections, T.elf.Special sec → SectionKept T.slide T.elf.loads im sec) ↔
        ∀ sec ∈ T.elf.sections, ¬ T.elf.Special sec) := by
  obtain ⟨t, hfits, rfl⟩ := translate_eq_ok.mp h
  refine ⟨_, hfits.file_spec.1, forall₂_congr fun sec _ => ?_⟩
  exact imp_congr_right fun _ => iff_false_intro (t.not_sectionKept sec)

theorem sectionsKept_small : ∃ out im, small.translate {} = .ok out ∧
    readImage out.file = some im ∧
    ¬ ∀ sec ∈ small.elf.sections, small.elf.Special sec →
      SectionKept small.slide small.elf.loads im sec := by
  obtain ⟨t, hfits⟩ := exists_translation_small
  have hout := translate_eq_ok.mpr ⟨t, hfits, rfl⟩
  obtain ⟨im, him, hiff⟩ := sectionsKept_iff hout
  exact ⟨_, im, hout, him, hiff.not.mpr (by decide +kernel)⟩

/-- The constructor of the small library has no section in the translated file. -/
theorem not_sectionKept_small : ∃ out im, small.translate {} = .ok out ∧
    readImage out.file = some im ∧ ∃ sec ∈ small.elf.sections, sec.name = ".init_array" ∧
      small.elf.Special sec ∧ ¬ SectionKept small.slide small.elf.loads im sec := by
  obtain ⟨t, hfits⟩ := exists_translation_small
  exact ⟨_, _, translate_eq_ok.mpr ⟨t, hfits, rfl⟩, hfits.file_spec.1,
    ⟨3, 14, 3, 0x100B8, 0xB8, 8, 0, 0, 8, 8, ".init_array"⟩, by decide +kernel, rfl,
    by decide +kernel, t.not_sectionKept _⟩

end Phase4Translator

end Apk2Ios
