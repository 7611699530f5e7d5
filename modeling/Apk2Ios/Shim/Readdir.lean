import Mathlib.Data.List.TakeWhile
import Apk2Ios.Lib.Bytes
import Apk2Ios.Lib.Runs

/-!
# The shim: directory entries

`a2i_readdir` of `posix_compat.c`.  The entry of the host is converted to a record of Android, and
there is one such record for each thread: every call of a thread returns a pointer to it.  The
streams and what `readdir` of the host returns for them are parameters.
-/

namespace Apk2Ios

open Lib

/-! ### The record -/

/-- `dirent` of the host; the name is what is in memory from `d_name` on. -/
structure HostDirent where
  dIno : UInt64
  dType : UInt8
  dName : Bytes
deriving DecidableEq, Repr

/-- `a2i_android_dirent`. -/
structure A2iAndroidDirent where
  dIno : UInt64
  dOff : ℤ
  dReclen : ℕ
  dType : UInt8
  dName : Bytes
deriving DecidableEq, Repr

/-- `strnlen`. -/
def strnlen (s : Bytes) (n : ℕ) : ℕ := ((s.take n).takeWhile (· ≠ 0)).length

/-- What `a2i_readdir` writes for an entry, on the cleared record.  The name is at the offset 19. -/
def androidDirent (entry : HostDirent) : A2iAndroidDirent :=
  let nameLen := strnlen entry.dName (256 - 1)
  let dName := List.replicate 256 0
  let dName := sliceAssign dName 0 nameLen (entry.dName.take nameLen)
  let dName := sliceAssign dName nameLen 1 [0]
  let raw := 19 + nameLen + 1
  ⟨entry.dIno, 0, ((raw + 7) &&& 0xfffffff8) % 2 ^ 16, entry.dType, dName⟩

/-- The pointers that `a2i_readdir` returns: there is only `&g_dirent`. -/
inductive DirentPointer where
  | gDirent
deriving DecidableEq, Repr

/-- The variable `g_dirent` of a thread. -/
structure DirentTls where
  gDirent : A2iAndroidDirent

/-- The record at a pointer. -/
def DirentTls.read (tls : DirentTls) : DirentPointer → A2iAndroidDirent
  | .gDirent => tls.gDirent

/-- `a2i_readdir`, with what `readdir` of the host returns. -/
def a2iReaddir (entry : Option HostDirent) (tls : DirentTls) :
    Option DirentPointer × DirentTls :=
  match entry with
  | none => (none, tls)
  | some entry => (some .gDirent, { tls with gDirent := androidDirent entry })

/-! ### What the record says -/

namespace HostDirent

/-- The name, without what does not fit. -/
def name (entry : HostDirent) : Bytes := (entry.dName.take 255).takeWhile (· ≠ 0)

/-- The record says what the entry says: its inode, its type, its length with the name, rounded up
to 8 bytes, and the name with a NUL. -/
def Holds (entry : HostDirent) (r : A2iAndroidDirent) : Prop :=
  r.dIno = entry.dIno ∧ r.dType = entry.dType ∧
    r.dReclen = (19 + entry.name.length + 1 + 7) / 8 * 8 ∧
    r.dName.take (entry.name.length + 1) = entry.name ++ [0]

/-- Two entries that the record does not tell apart. -/
def Same (entry other : HostDirent) : Prop :=
  entry.dIno = other.dIno ∧ entry.dType = other.dType ∧ entry.name = other.name

instance (entry other : HostDirent) : Decidable (entry.Same other) :=
  inferInstanceAs (Decidable (_ ∧ _ ∧ _))

lemma length_name_le (entry : HostDirent) : entry.name.length ≤ 255 := by
  have hle := (List.takeWhile_prefix (l := entry.dName.take 255) (· ≠ (0 : UInt8))).length_le
  rw [List.length_take] at hle
  rw [name]
  omega

lemma take_dName (entry : HostDirent) : entry.dName.take entry.name.length = entry.name := by
  have hprefix := (List.takeWhile_prefix (l := entry.dName.take 255) (· ≠ (0 : UInt8))).trans
    (List.take_prefix 255 entry.dName)
  exact (List.prefix_iff_eq_take.mp hprefix).symm

lemma ne_zero_of_mem_name {entry : HostDirent} : ∀ b ∈ entry.name, b ≠ 0 := by
  intro b hb
  simpa using List.mem_takeWhile_imp hb

end HostDirent

/-- The name is in front of zeros. -/
lemma dName_androidDirent (entry : HostDirent) :
    (androidDirent entry).dName =
      entry.name ++ 0 :: List.replicate (255 - entry.name.length) 0 := by
  have hle := entry.length_name_le
  have hcopy : sliceAssign (List.replicate 256 0) 0 entry.name.length
      (entry.dName.take entry.name.length) =
        entry.name ++ List.replicate (256 - entry.name.length) 0 := by
    rw [sliceAssign, entry.take_dName, List.take_zero, List.nil_append, Nat.zero_add,
      List.drop_replicate]
  show sliceAssign (sliceAssign (List.replicate 256 0) 0 entry.name.length
    (entry.dName.take entry.name.length)) entry.name.length 1 [0] = _
  have hrest : 256 - entry.name.length - 1 = 255 - entry.name.length := by omega
  rw [hcopy, sliceAssign, List.take_left, List.drop_append, List.drop_replicate,
    List.drop_of_length_le (by omega), List.nil_append, Nat.add_sub_cancel_left, hrest,
    List.append_assoc, List.singleton_append]

/-- The length of the record. -/
lemma dReclen_androidDirent (entry : HostDirent) :
    (androidDirent entry).dReclen = (19 + entry.name.length + 1 + 7) / 8 * 8 := by
  have hlt : entry.name.length < 256 := Nat.lt_succ_of_le entry.length_name_le
  have hround : ∀ n < 256,
      ((19 + n + 1 + 7) &&& 0xfffffff8) % 2 ^ 16 = (19 + n + 1 + 7) / 8 * 8 := by
    decide +kernel
  exact hround _ hlt

/-- The end of a name is found. -/
lemma eq_of_take_append_zero {a b s : Bytes} (ha : ∀ x ∈ a, x ≠ 0) (hb : ∀ x ∈ b, x ≠ 0)
    (h : (a ++ 0 :: s).take (b.length + 1) = b ++ [0]) : a = b := by
  induction a generalizing b with
  | nil =>
    cases b with
    | nil => rfl
    | cons y b =>
      have hy : (0 : UInt8) = y := (List.cons.inj h).1
      exact absurd hy.symm (hb y List.mem_cons_self)
  | cons x a ih =>
    cases b with
    | nil =>
      have hx : x = 0 := (List.cons.inj h).1
      exact absurd hx (ha x List.mem_cons_self)
    | cons y b =>
      obtain ⟨rfl, htail⟩ := List.cons.inj h
      rw [ih (fun z hz ↦ ha z (List.mem_cons_of_mem _ hz))
        (fun z hz ↦ hb z (List.mem_cons_of_mem _ hz)) htail]

/-- The record of an entry says what another entry says exactly when they are the same. -/
lemma holds_androidDirent_iff (entry other : HostDirent) :
    other.Holds (androidDirent entry) ↔ entry.Same other := by
  constructor
  · rintro ⟨hino, htype, -, hname⟩
    rw [dName_androidDirent] at hname
    exact ⟨hino, htype, eq_of_take_append_zero HostDirent.ne_zero_of_mem_name
      HostDirent.ne_zero_of_mem_name hname⟩
  · rintro ⟨hino, htype, hname⟩
    refine ⟨hino, htype, ?_, ?_⟩
    · rw [dReclen_androidDirent, hname]
    · rw [dName_androidDirent, hname, List.take_append, List.take_of_length_le (by omega),
        Nat.add_sub_cancel_left]
      rfl

/-! ### Walking directories -/

section

variable {δ : Type*} [DecidableEq δ]

/-- A thread that reads directories: its record, and for each stream the pointer that was last
returned with the entry that it was returned for, if the last call returned one. -/
structure DirRun (δ : Type*) where
  tls : DirentTls
  returned : δ → Option (DirentPointer × HostDirent)

namespace DirRun

/-- A call for the stream, with what `readdir` of the host returns. -/
def step (s : DirRun δ) (call : δ × Option HostDirent) : DirRun δ :=
  let (pointer, tls) := a2iReaddir call.2 s.tls
  ⟨tls, Function.update s.returned call.1 (pointer.bind fun p ↦ call.2.map fun e ↦ (p, e))⟩

/-- The record that was last returned for each stream holds its entry. -/
def Valid (s : DirRun δ) : Prop :=
  ∀ d p entry, s.returned d = some (p, entry) → entry.Holds (s.tls.read p)

/-- When the call returns an entry, another stream has none that it would change. -/
def Spares (s : DirRun δ) (call : δ × Option HostDirent) : Prop :=
  ∀ entry, call.2 = some entry → ∀ d ≠ call.1, ∀ p other, s.returned d = some (p, other) →
    entry.Same other

/-- No call has been made. -/
def start (tls : DirentTls) : DirRun δ := ⟨tls, fun _ ↦ none⟩

/-- A call keeps the records exactly when it spares them. -/
lemma valid_step_iff {s : DirRun δ} (hs : s.Valid) (call : δ × Option HostDirent) :
    (s.step call).Valid ↔ s.Spares call := by
  obtain ⟨d, entry⟩ := call
  cases entry with
  | none =>
    refine iff_of_true ?_ fun entry hentry ↦ absurd hentry.symm (Option.some_ne_none entry)
    intro d' p other hother
    by_cases hd : d' = d
    · subst hd
      exact absurd ((Function.update_self ..).symm.trans hother).symm (Option.some_ne_none _)
    · exact hs d' p other ((Function.update_of_ne hd ..).symm.trans hother)
  | some entry =>
    -- there is one record for the thread, so every pointer reads the entry of this call
    have hrecord : ∀ p, (s.step (d, some entry)).tls.read p = androidDirent entry := by
      rintro ⟨⟩
      rfl
    constructor
    · rintro hvalid e he d' hd p other hother
      obtain rfl := Option.some.inj he
      have hholds := hvalid d' p other ((Function.update_of_ne hd ..).trans hother)
      rw [hrecord] at hholds
      exact (holds_androidDirent_iff entry other).mp hholds
    · intro hspares d' p other hother
      rw [hrecord, holds_androidDirent_iff]
      by_cases hd : d' = d
      · subst hd
        have hself := (Function.update_self ..).symm.trans hother
        obtain ⟨-, rfl⟩ := Prod.mk.inj (Option.some.inj hself)
        exact ⟨rfl, rfl, rfl⟩
      · exact hspares entry rfl d' hd p other ((Function.update_of_ne hd ..).symm.trans hother)

end DirRun

/-- **When the entries of directories stay valid.**  In a run of a thread on any streams, the record
that was last returned for a stream holds its entry until the next call for this stream exactly when
no call returns another entry while a record of another stream is still in use. -/
theorem dirRun_valid_iff (tls : DirentTls) (calls : List (δ × Option HostDirent)) :
    (∀ s ∈ Runs.visited DirRun.step (DirRun.start tls) calls, s.Valid) ↔
      Runs.Along DirRun.step DirRun.Spares (DirRun.start tls) calls := by
  refine Runs.forall_visited_iff (I := fun _ ↦ True)
    (fun s call _ hs ↦ ⟨trivial, DirRun.valid_step_iff hs call⟩) trivial ?_
  intro d p entry hnone
  exact absurd hnone.symm (Option.some_ne_none _)

/-- A thread that reads one directory only does not see the difference. -/
theorem dirRun_valid_of_single (tls : DirentTls) {d : δ} {calls : List (δ × Option HostDirent)}
    (hcalls : ∀ call ∈ calls, call.1 = d) :
    ∀ s ∈ Runs.visited DirRun.step (DirRun.start tls) calls, s.Valid := by
  have halong : Runs.Along DirRun.step (fun _ call ↦ call.1 = d) (DirRun.start tls) calls :=
    Runs.along_of_forall fun call hcall _ ↦ hcalls call hcall
  -- no other stream has a record
  have hinvariant := Runs.Along.invariant
    (I := fun s : DirRun δ ↦ s.Valid ∧ ∀ d' ≠ d, s.returned d' = none) ?_ ?_ halong
  · exact fun s hs ↦ (hinvariant s hs).1
  · rintro s call ⟨hvalid, hnone⟩ rfl
    refine ⟨(DirRun.valid_step_iff hvalid call).mpr ?_, fun d' hd ↦ ?_⟩
    · intro entry _ d' hd p other hother
      exact absurd ((hnone d' hd).symm.trans hother).symm (Option.some_ne_none _)
    · exact (Function.update_of_ne hd ..).trans (hnone d' hd)
  · refine ⟨fun d p entry hnone ↦ ?_, fun _ _ ↦ rfl⟩
    exact absurd hnone.symm (Option.some_ne_none _)

end

/-- A walk that reads the directory 0, and then an entry of the directory 1. -/
def nestedWalk : List (ℕ × Option HostDirent) :=
  [(0, some ⟨10, 4, [97, 0]⟩), (1, some ⟨11, 8, [98, 0]⟩)]

/-- The record of the directory 0 holds the entry of the directory 1. -/
theorem dirRun_nestedWalk :
    ¬∀ s ∈ Runs.visited DirRun.step (DirRun.start ⟨⟨0, 0, 0, 0, []⟩⟩) nestedWalk, s.Valid := by
  intro hvalid
  have hlast := hvalid _ (List.mem_cons_of_mem _ (List.mem_cons_of_mem _ List.mem_cons_self))
  exact absurd (hlast 0 .gDirent ⟨10, 4, [97, 0]⟩ (by decide)).1 (by decide)

end Apk2Ios
