import Apk2Ios.Lib.Files
import Apk2Ios.Lib.Lists
import Apk2Ios.Python

/-!
# The entries of an APK and their extraction

An APK is a zip archive.  Of its entries, `extract_arm64` takes the three libraries for arm64
and every metadata file, and writes each to the output directory under its base name.  The
main result is `extractArm64_losesNothing_iff`: the extraction loses nothing exactly when no
two of the entries it takes go to the same file.
-/

namespace Apk2Ios

open Lib

/-- An entry of an archive, with what reading it gives. -/
structure ZipEntry (ε : Type) where
  filename : String
  fileSize : ℕ
  content : Except ε Bytes

/-- The entries of an archive in the order of its directory, where a name can occur twice. -/
abbrev ZipFile (ε : Type) := List (ZipEntry ε)

namespace ZipFile

variable {ε : Type}

def namelist (zf : ZipFile ε) : List String := zf.map ZipEntry.filename

/-- `zf.read(name)`: of several entries with the name the last one is found. -/
def read (keyError : ε) (zf : ZipFile ε) (name : String) : Except ε Bytes :=
  match zf.reverse.find? fun entry => entry.filename = name with
  | none => .error keyError
  | some entry => entry.content

/-- An entry that is alone with its name is the one that is read. -/
lemma read_filename {keyError : ε} {zf : ZipFile ε} {entry : ZipEntry ε} (h : entry ∈ zf)
    (halone : ∀ other ∈ zf, other.filename = entry.filename → other = entry) :
    zf.read keyError entry.filename = entry.content := by
  rw [read]
  cases hfind : zf.reverse.find? fun other => other.filename = entry.filename with
  | none =>
    have hnone := List.find?_eq_none.mp hfind entry (List.mem_reverse.mpr h)
    simp at hnone
  | some other =>
    have hmem : other ∈ zf := List.mem_reverse.mp (List.mem_of_find?_eq_some hfind)
    have hname : other.filename = entry.filename := by simpa using List.find?_some hfind
    show other.content = entry.content
    rw [halone other hmem hname]

end ZipFile

/-- `Path(name).name`: the last component of a path, where empty components and those that are
a single dot do not count. -/
def pathName (name : String) : String :=
  String.ofList
    (((name.toList.splitOn '/').filter fun part => part ≠ [] ∧ part ≠ ['.']).getLast?.getD [])

/-- `name.endswith("global-metadata.dat")`. -/
def IsMetadata (name : String) : Prop := "global-metadata.dat".toList <:+ name.toList

instance : DecidablePred IsMetadata := fun _ => inferInstanceAs (Decidable (_ <:+ _))

def arm64Libs : List String :=
  ["lib/arm64-v8a/libil2cpp.so", "lib/arm64-v8a/libunity.so", "lib/arm64-v8a/libmain.so"]

namespace UnityApk

variable {π ε : Type}

/-- The paths and sizes of the metadata files, as the report lists them. -/
def metadataEntries (zf : ZipFile ε) : List (String × ℕ) :=
  (zf.filter fun entry => IsMetadata entry.filename).map fun entry =>
    (entry.filename, entry.fileSize)

/-- The host with an output directory `out`: `place name` is the file that the path
`out / name` stands for, and names that differ can stand for one file, as in a directory that
ignores case. -/
structure OutputHost (π ε : Type) extends FileHost π Bytes ε where
  place : String → π
  mkdir : Files π Bytes → Option ε
  keyError : ε

/-- The names that are extracted, `sorted(wanted & names)`. -/
def extractNames (zf : ZipFile ε) : List String :=
  let names := zf.namelist
  let wanted := arm64Libs ++ names.filter IsMetadata
  sortedSet (wanted.filter (· ∈ names))

variable [DecidableEq π] (host : OutputHost π ε) (zf : ZipFile ε)

/-- The loop over the names.  A path `out / target` stands for itself by its `target`. -/
def extractLoop : List String → List String → FileM π Bytes ε (List String)
  | [], extracted => pure extracted
  | name :: names, extracted => do
    let target := pathName name
    let content ← FileM.lift id (zf.read host.keyError name)
    FileM.write host.toFileHost (host.place target) content
    extractLoop names (extracted ++ [target])

/-- The extraction from an archive that has been opened. -/
def extractArm64 : FileM π Bytes ε (List String) := fun files =>
  match host.mkdir files with
  | some e => (.error e, files)
  | none => extractLoop host zf (extractNames zf) [] files

/-! ### What is extracted -/

/-- The entries that are extracted: the libraries for arm64 and the metadata files. -/
def selected (zf : ZipFile ε) : List (ZipEntry ε) :=
  zf.filter fun entry => entry.filename ∈ arm64Libs ∨ IsMetadata entry.filename

variable {host zf}

omit [DecidableEq π] in
lemma mem_selected {entry : ZipEntry ε} : entry ∈ selected zf ↔
    entry ∈ zf ∧ (entry.filename ∈ arm64Libs ∨ IsMetadata entry.filename) := by
  rw [selected, List.mem_filter, decide_eq_true_eq]

lemma mem_extractNames {name : String} :
    name ∈ extractNames zf ↔ ∃ entry ∈ selected zf, entry.filename = name := by
  simp only [extractNames, mem_sortedSet, List.mem_filter, List.mem_append, decide_eq_true_eq,
    ZipFile.namelist, List.mem_map, mem_selected]
  constructor
  · rintro ⟨hwanted, entry, hentry, rfl⟩
    refine ⟨entry, ⟨hentry, ?_⟩, rfl⟩
    rcases hwanted with hlib | ⟨-, hmeta⟩
    · exact Or.inl hlib
    · exact Or.inr hmeta
  · rintro ⟨entry, ⟨hentry, hwanted⟩, rfl⟩
    refine ⟨?_, entry, hentry, rfl⟩
    rcases hwanted with hlib | hmeta
    · exact Or.inl hlib
    · exact Or.inr ⟨⟨entry, hentry, rfl⟩, hmeta⟩

/-- Every name of a selected entry is extracted once. -/
lemma extractNames_perm (zf : ZipFile ε) :
    (extractNames zf).Perm ((selected zf).map ZipEntry.filename).dedup := by
  refine (List.perm_ext_iff_of_nodup (nodup_sortedSet _) (List.nodup_dedup _)).mpr ?_
  intro name
  rw [List.mem_dedup, List.mem_map]
  exact mem_extractNames

/-- Each name is read, and its bytes go to the file of its base name. -/
def Copies (host : OutputHost π ε) (zf : ZipFile ε) :
    List String → List (π × Bytes) → Prop :=
  List.Forall₂ fun name w =>
    host.place (pathName name) = w.1 ∧ zf.read host.keyError name = .ok w.2

/-- The loop that returns has read every name, and written each to its file in turn. -/
lemma extractLoop_eq_ok {names extracted result : List String} {files files' : Files π Bytes}
    (h : extractLoop host zf names extracted files = (.ok result, files')) :
    result = extracted ++ names.map pathName ∧
      ∃ writes, files' = written files writes ∧ Copies host zf names writes := by
  induction names generalizing extracted files with
  | nil =>
    cases h
    exact ⟨by simp, [], rfl, .nil⟩
  | cons name names ih =>
    rw [extractLoop] at h
    obtain ⟨content, mid, hread, hrest⟩ := FileM.bind_eq_ok h
    obtain ⟨hcontent, rfl⟩ := FileM.lift_eq_ok hread
    obtain ⟨u, next, hwrite, hloop⟩ := FileM.bind_eq_ok hrest
    obtain rfl := FileM.write_eq_ok hwrite
    obtain ⟨hresult, writes, hfiles, hwrites⟩ := ih hloop
    refine ⟨?_, (host.place (pathName name), content) :: writes, hfiles, ?_⟩
    · rw [hresult, List.map_cons, List.append_assoc, List.singleton_append]
    · exact .cons ⟨rfl, hcontent⟩ hwrites

lemma extractArm64_eq_ok {extracted : List String} {files files' : Files π Bytes}
    (h : extractArm64 host zf files = (.ok extracted, files')) :
    extracted = (extractNames zf).map pathName ∧
      ∃ writes, files' = written files writes ∧ Copies host zf (extractNames zf) writes := by
  rw [extractArm64] at h
  cases hmkdir : host.mkdir files with
  | some e =>
    rw [hmkdir] at h
    cases h
  | none =>
    rw [hmkdir] at h
    exact extractLoop_eq_ok h

/-- **Every metadata file that the report lists is extracted**, to the file of its base name. -/
theorem pathName_mem_extracted {extracted : List String} {files files' : Files π Bytes}
    (h : extractArm64 host zf files = (.ok extracted, files')) {path : String} {size : ℕ}
    (hpath : (path, size) ∈ metadataEntries zf) : pathName path ∈ extracted := by
  obtain ⟨entry, hentry, heq⟩ := List.mem_map.mp hpath
  rw [List.mem_filter, decide_eq_true_eq] at hentry
  have hname : path ∈ extractNames zf :=
    mem_extractNames.mpr ⟨entry, mem_selected.mpr ⟨hentry.1, Or.inr hentry.2⟩,
      congrArg Prod.fst heq⟩
  rw [(extractArm64_eq_ok h).1]
  exact List.mem_map_of_mem hname

/-! ### Collisions -/

/-- Every selected entry has a file of its own with its bytes, and the returned paths are those
of these files, one for each entry. -/
def LosesNothing (place : String → π) (zf : ZipFile ε) (extracted : List String)
    (files : Files π Bytes) : Prop :=
  ∃ targets : List String, targets.Perm extracted ∧ (targets.map place).Nodup ∧
    List.Forall₂ (fun entry target => ∃ content, entry.content = .ok content ∧
      files (place target) = some content) (selected zf) targets

/-- A selected entry whose name no other selected entry has is the one that is read. -/
lemma read_selected {keyError : ε} (hnodup : ((selected zf).map ZipEntry.filename).Nodup)
    {entry : ZipEntry ε} (h : entry ∈ selected zf) :
    zf.read keyError entry.filename = entry.content := by
  refine ZipFile.read_filename (mem_selected.mp h).1 ?_
  intro other hother hname
  have hselected : other ∈ selected zf := by
    rw [mem_selected, hname]
    exact ⟨hother, (mem_selected.mp h).2⟩
  exact List.inj_on_of_nodup_map hnodup hselected h hname

omit [DecidableEq π] in
/-- An extraction that loses nothing has returned as many paths as entries are selected, so no
name is there twice. -/
lemma LosesNothing.nodup_filename {place : String → π} {files : Files π Bytes}
    (h : LosesNothing place zf ((extractNames zf).map pathName) files) :
    ((selected zf).map ZipEntry.filename).Nodup := by
  obtain ⟨targets, hperm, -, hfiles⟩ := h
  have hlength : (extractNames zf).length = (selected zf).length := by
    rw [hfiles.length_eq, hperm.length_eq, List.length_map]
  have hdedup : ((selected zf).map ZipEntry.filename).dedup.length =
      ((selected zf).map ZipEntry.filename).length := by
    rw [← (extractNames_perm zf).length_eq, hlength, List.length_map]
  rw [← List.dedup_eq_self]
  exact (List.dedup_sublist _).eq_of_length hdedup

/-- When no name is selected twice, the extracted base names are those of the entries. -/
lemma extracted_perm (hnodup : ((selected zf).map ZipEntry.filename).Nodup) :
    ((extractNames zf).map pathName).Perm
      ((selected zf).map fun entry => pathName entry.filename) := by
  have hperm := extractNames_perm zf
  rw [hnodup.dedup] at hperm
  have hmap := hperm.map pathName
  rwa [List.map_map] at hmap

omit [DecidableEq π] in
lemma map_map_place (place : String → π) (zf : ZipFile ε) :
    ((selected zf).map fun entry => pathName entry.filename).map place =
      (selected zf).map fun entry => place (pathName entry.filename) := by
  rw [List.map_map]
  rfl

omit [DecidableEq π] in
/-- An extraction that loses nothing has a file for each entry. -/
lemma LosesNothing.nodup_place {place : String → π} {files : Files π Bytes}
    (h : LosesNothing place zf ((extractNames zf).map pathName) files) :
    ((selected zf).map fun entry => place (pathName entry.filename)).Nodup := by
  have hextracted := extracted_perm h.nodup_filename
  obtain ⟨targets, hperm, hdistinct, -⟩ := h
  rw [← map_map_place]
  exact ((hperm.trans hextracted).map place).nodup hdistinct

/-- Writes to different files leave every entry with its bytes. -/
lemma losesNothing_written {files : Files π Bytes} {writes : List (π × Bytes)}
    (hwrites : Copies host zf (extractNames zf) writes)
    (hdistinct : ((selected zf).map fun entry => host.place (pathName entry.filename)).Nodup) :
    LosesNothing host.place zf ((extractNames zf).map pathName) (written files writes) := by
  have hnames : ((selected zf).map ZipEntry.filename).Nodup := by
    refine List.Nodup.of_map (fun name => host.place (pathName name)) ?_
    rwa [List.map_map]
  have hperm := extracted_perm hnames
  rw [← map_map_place] at hdistinct
  have hplaces : ((extractNames zf).map pathName).map host.place = writes.map Prod.fst := by
    rw [List.map_map]
    exact map_eq_map_of_forall₂ hwrites fun _ _ hw => hw.1
  have hnodup : (writes.map Prod.fst).Nodup := by
    rw [← hplaces]
    exact (hperm.map host.place).nodup_iff.mpr hdistinct
  refine ⟨_, hperm.symm, hdistinct, ?_⟩
  rw [List.forall₂_map_right_iff, List.forall₂_same]
  intro entry hentry
  -- the name was read and its bytes written, and no later write went to the same file
  have hname : entry.filename ∈ extractNames zf := mem_extractNames.mpr ⟨entry, hentry, rfl⟩
  obtain ⟨w, hw, hplace, hread⟩ := exists_of_mem_forall₂ hwrites.flip hname
  rw [read_selected hnames hentry] at hread
  refine ⟨w.2, hread, ?_⟩
  rw [hplace]
  exact written_of_mem hnodup hw

/-- **The extraction loses nothing exactly when no two of the entries it selects go to the same
file of the output directory.** -/
theorem extractArm64_losesNothing_iff (host : OutputHost π ε) (zf : ZipFile ε)
    (extracted : List String) (files files' : Files π Bytes)
    (h : extractArm64 host zf files = (.ok extracted, files')) :
    LosesNothing host.place zf extracted files' ↔
      ((selected zf).map fun entry => host.place (pathName entry.filename)).Nodup := by
  obtain ⟨rfl, writes, rfl, hwrites⟩ := extractArm64_eq_ok h
  exact ⟨LosesNothing.nodup_place, losesNothing_written hwrites⟩

/-- A directory in which every file can be written and no two names stand for one file. -/
def openOutput : OutputHost String Unit where
  refuses _ _ := none
  tempName _ := .error ()
  tempName_new _ _ h := by cases h
  place := id
  mkdir _ := none
  keyError := ()

/-- An APK as Unity builds it is extracted with all its selected entries. -/
theorem extractArm64_losesNothing_unity :
    let zf : ZipFile Unit :=
      [⟨"lib/arm64-v8a/libunity.so", 2, .ok [1, 2]⟩,
        ⟨"assets/bin/Data/Managed/Metadata/global-metadata.dat", 1, .ok [3]⟩]
    let run := extractArm64 openOutput zf fun _ => none
    run.1 = .ok ["global-metadata.dat", "libunity.so"] ∧
      LosesNothing id zf ["global-metadata.dat", "libunity.so"] run.2 := by
  intro zf run
  have hrun : run.1 = .ok ["global-metadata.dat", "libunity.so"] := by decide
  refine ⟨hrun, ?_⟩
  refine (extractArm64_losesNothing_iff openOutput zf _ (fun _ => none) run.2 ?_).mpr (by decide)
  exact Prod.ext hrun rfl

/-- Of two metadata files in different directories the second overwrites the first, and the one
path is returned twice. -/
theorem extractArm64_overwrites :
    let zf : ZipFile Unit :=
      [⟨"assets/bin/Data/Managed/Metadata/global-metadata.dat", 1, .ok [1]⟩,
        ⟨"assets/bin/Data/Managed/Old/global-metadata.dat", 1, .ok [2]⟩]
    let run := extractArm64 openOutput zf fun _ => none
    run.1 = .ok ["global-metadata.dat", "global-metadata.dat"] ∧
      run.2 "global-metadata.dat" = some [2] ∧
      ¬ LosesNothing id zf ["global-metadata.dat", "global-metadata.dat"] run.2 := by
  intro zf run
  refine ⟨by decide, by decide, ?_⟩
  rintro ⟨targets, hperm, hdistinct, -⟩
  rw [List.map_id] at hdistinct
  have hnodup := hperm.nodup hdistinct
  revert hnodup
  decide

end UnityApk

end Apk2Ios
