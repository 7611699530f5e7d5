import Mathlib.Logic.Function.Basic

/-!
# Programs that write a file

A program reads and writes files and may raise an exception, which does not undo what was
written before.  A program that raises only before its one write leaves no trace when it
raises; a temporary file that is removed in the end leaves none in any case.
-/

namespace Apk2Ios.Lib

/-- The content of every file that exists. -/
abbrev Files (π β : Type) := π → Option β

/-- A program on files of the type `β` with exceptions of the type `ε`. -/
def FileM (π β ε α : Type) := Files π β → Except ε α × Files π β

/-- What a program can not know of its host: which writes are refused, and the names of
temporary files, which are new. -/
structure FileHost (π β ε : Type) where
  refuses : Files π β → π → Option ε
  tempName : Files π β → Except ε π
  tempName_new : ∀ files path, tempName files = .ok path → files path = none

section

variable {π β : Type} [DecidableEq π]

/-- The files after one write after another. -/
def written (files : Files π β) (writes : List (π × β)) : Files π β :=
  writes.foldl (fun files w => Function.update files w.1 (some w.2)) files

lemma written_cons (files : Files π β) (w : π × β) (writes : List (π × β)) :
    written files (w :: writes) = written (Function.update files w.1 (some w.2)) writes := rfl

/-- A path that is not written keeps its file. -/
lemma written_of_notMem {files : Files π β} {writes : List (π × β)} {path : π}
    (h : path ∉ writes.map Prod.fst) : written files writes path = files path := by
  induction writes generalizing files with
  | nil => rfl
  | cons w writes ih =>
    rw [List.map_cons, List.mem_cons, not_or] at h
    rw [written_cons, ih h.2, Function.update_of_ne h.1]

/-- When no path is written twice, every file holds what was written to it. -/
lemma written_of_mem {files : Files π β} {writes : List (π × β)}
    (hnodup : (writes.map Prod.fst).Nodup) {path : π} {content : β}
    (h : (path, content) ∈ writes) : written files writes path = some content := by
  induction writes generalizing files with
  | nil => cases h
  | cons w writes ih =>
    rw [List.map_cons, List.nodup_cons] at hnodup
    rw [written_cons]
    rcases List.mem_cons.mp h with rfl | h
    · rw [written_of_notMem hnodup.1, Function.update_self]
    · exact ih hnodup.2 h

end

namespace FileM

variable {π β ε α γ : Type} [DecidableEq π]

omit [DecidableEq π] in
instance : Monad (FileM π β ε) where
  pure a := fun files => (.ok a, files)
  bind p f := fun files =>
    match p files with
    | (.error e, files) => (.error e, files)
    | (.ok a, files) => f a files

/-- A computation that touches no file. -/
def lift {ε' : Type} (raised : ε' → ε) : Except ε' α → FileM π β ε α
  | .error e => fun files => (.error (raised e), files)
  | .ok a => fun files => (.ok a, files)

/-- `path.write_bytes(content)`: the whole file is written, or none of it. -/
def write (host : FileHost π β ε) (path : π) (content : β) : FileM π β ε Unit := fun files =>
  match host.refuses files path with
  | some e => (.error e, files)
  | none => (.ok (), Function.update files path (some content))

/-- `path.read_bytes()`. -/
def read (missing : ε) (path : π) : FileM π β ε β := fun files =>
  match files path with
  | none => (.error missing, files)
  | some content => (.ok content, files)

/-- `path.unlink()`, where it is no error that the file is missing. -/
def unlink (path : π) : FileM π β ε Unit := fun files =>
  (.ok (), Function.update files path none)

/-- A new temporary file, which stays. -/
def namedTemporaryFile (host : FileHost π β ε) (empty : β) : FileM π β ε π := fun files =>
  match host.tempName files with
  | .error e => (.error e, files)
  | .ok path => (.ok path, Function.update files path (some empty))

/-- `try: … finally: …`.  An exception of the cleanup replaces that of the body. -/
def tryFinally (body : FileM π β ε α) (cleanup : FileM π β ε Unit) : FileM π β ε α := fun files =>
  match body files with
  | (result, files) =>
    match cleanup files with
    | (.error e, files) => (.error e, files)
    | (.ok (), files) => (result, files)

/-! ### What a program leaves behind -/

/-- The program changes no file, and what it returns has the property `G`. -/
def Reads (G : α → Prop) (p : FileM π β ε α) : Prop :=
  ∀ files, (∃ e, p files = (.error e, files)) ∨ ∃ a, p files = (.ok a, files) ∧ G a

/-- The program raises and changes no file, or it writes the file `path` and no other, with a
content that is related by `G` to what it returns. -/
def Writes (path : π) (G : α → β → Prop) (p : FileM π β ε α) : Prop :=
  ∀ files, (∃ e, p files = (.error e, files)) ∨
    ∃ a content, p files = (.ok a, Function.update files path (some content)) ∧ G a content

section

variable {F : α → Prop} {p : FileM π β ε α} {f : α → FileM π β ε γ} {files files' : Files π β}

omit [DecidableEq π] in
lemma bind_of_error {e : ε} (h : p files = (.error e, files')) :
    (p >>= f) files = (.error e, files') := by
  show (match p files with
    | (.error e, files) => (Except.error e, files)
    | (.ok a, files) => f a files) = _
  rw [h]

omit [DecidableEq π] in
lemma bind_of_ok {a : α} (h : p files = (.ok a, files')) : (p >>= f) files = f a files' := by
  show (match p files with
    | (.error e, files) => (Except.error e, files)
    | (.ok a, files) => f a files) = _
  rw [h]

omit [DecidableEq π] in
lemma reads_lift {ε' : Type} (raised : ε' → ε) (x : Except ε' α) :
    Reads (π := π) (β := β) (x = .ok ·) (lift raised x) := by
  intro files
  cases x with
  | error e => exact Or.inl ⟨_, rfl⟩
  | ok a => exact Or.inr ⟨a, rfl, rfl⟩

omit [DecidableEq π] in
/-- A program that returns has returned from its first part. -/
lemma bind_eq_ok {b : γ} (h : (p >>= f) files = (.ok b, files')) :
    ∃ a mid, p files = (.ok a, mid) ∧ f a mid = (.ok b, files') := by
  rcases hp : p files with ⟨_ | a, mid⟩
  · rw [bind_of_error hp] at h
    cases h
  · rw [bind_of_ok hp] at h
    exact ⟨a, mid, rfl, h⟩

omit [DecidableEq π] in
lemma lift_eq_ok {ε' : Type} {raised : ε' → ε} {x : Except ε' α} {a : α}
    (h : lift raised x files = (.ok a, files')) : x = .ok a ∧ files' = files := by
  cases x with
  | error e => cases h
  | ok b =>
    cases h
    exact ⟨rfl, rfl⟩

lemma write_eq_ok {host : FileHost π β ε} {path : π} {content : β} {u : Unit}
    (h : write host path content files = (.ok u, files')) :
    files' = Function.update files path (some content) := by
  rw [write] at h
  cases hr : host.refuses files path with
  | some e =>
    rw [hr] at h
    cases h
  | none =>
    rw [hr] at h
    exact (Prod.mk.inj h).2.symm

lemma writes_write (host : FileHost π β ε) (path : π) (content : β) :
    Writes path (fun _ c => c = content) (write host path content) := by
  intro files
  rw [write]
  cases host.refuses files path with
  | some e => exact Or.inl ⟨e, rfl⟩
  | none => exact Or.inr ⟨(), content, rfl, rfl⟩

variable {path : π} {G : α → β → Prop} {H : γ → β → Prop}

/-- What comes before the write changes no file. -/
lemma Reads.bind (hp : Reads F p) (hf : ∀ a, F a → Writes path H (f a)) :
    Writes path H (p >>= f) := by
  intro files
  rcases hp files with ⟨e, he⟩ | ⟨a, ha, hF⟩
  · exact Or.inl ⟨e, bind_of_error he⟩
  · rw [bind_of_ok ha]
    exact hf a hF files

/-- After the write the program only returns. -/
lemma Writes.bind_pure {g : α → γ} (hp : Writes path G p)
    (hG : ∀ a content, G a content → H (g a) content) :
    Writes path H (p >>= fun a => pure (g a)) := by
  intro files
  rcases hp files with ⟨e, he⟩ | ⟨a, content, ha, hcontent⟩
  · exact Or.inl ⟨e, bind_of_error he⟩
  · rw [bind_of_ok ha]
    exact Or.inr ⟨g a, content, rfl, hG a content hcontent⟩

/-- A program that writes a temporary file, with its content, leaves no file behind. -/
lemma reads_temporary (host : FileHost π β ε) (empty : β) (missing : ε)
    {body : π → FileM π β ε α} (hbody : ∀ tmp, Writes tmp G (body tmp)) :
    Reads (fun r : α × β => G r.1 r.2) (do
      let tmp ← namedTemporaryFile host empty
      tryFinally (do
        let a ← body tmp
        let content ← read missing tmp
        return (a, content)) (unlink tmp)) := by
  intro files
  cases htmp : host.tempName files with
  | error e =>
    refine Or.inl ⟨e, bind_of_error ?_⟩
    rw [namedTemporaryFile, htmp]
  | ok tmp =>
    -- the name is new, so removing the file restores the files there were
    have hnew : Function.update files tmp none = files := by
      rw [Function.update_eq_self_iff]
      exact (host.tempName_new files tmp htmp).symm
    have hcreate : namedTemporaryFile host empty files =
        (.ok tmp, Function.update files tmp (some empty)) := by
      rw [namedTemporaryFile, htmp]
    rw [bind_of_ok hcreate, tryFinally]
    rcases hbody tmp (Function.update files tmp (some empty)) with
      ⟨e, he⟩ | ⟨a, content, ha, hcontent⟩
    · -- the body raises, and the file is removed all the same
      rw [bind_of_error he]
      refine Or.inl ⟨e, ?_⟩
      show (Except.error e, Function.update (Function.update files tmp (some empty)) tmp none) = _
      rw [Function.update_idem, hnew]
    · rw [Function.update_idem] at ha
      have hread : read missing tmp (Function.update files tmp (some content)) =
          ((.ok content : Except ε β), Function.update files tmp (some content)) := by
        rw [read, Function.update_self]
      rw [bind_of_ok ha, bind_of_ok hread]
      refine Or.inr ⟨(a, content), ?_, hcontent⟩
      show (Except.ok (a, content),
        Function.update (Function.update files tmp (some content)) tmp none) = _
      rw [Function.update_idem, hnew]

/-- Exceptions leave no trace, and a program that returns has written the one file. -/
lemma Writes.spec (hp : Writes path G p) (files : Files π β) :
    (∀ e, (p files).1 = .error e → (p files).2 = files) ∧
    ∀ a, (p files).1 = .ok a →
      ∃ content, G a content ∧ (p files).2 = Function.update files path (some content) := by
  rcases hp files with ⟨e, he⟩ | ⟨a, content, ha, hcontent⟩
  · rw [he]
    exact ⟨fun _ _ => rfl, nofun⟩
  · rw [ha]
    refine ⟨nofun, fun b hb => ⟨content, ?_, rfl⟩⟩
    obtain rfl := Except.ok.inj hb
    exact hcontent

end

end FileM

end Apk2Ios.Lib
