import Apk2Ios.Failures
import Apk2Ios.Phase4.Header
import Apk2Ios.Phase4.Memory

/-!
# How the translations end

A translation of Phase 3 or Phase 4 is meant to end in one of two ways: with a `Phase3Error`, or
with a file whose segments are right.  Besides, numbers that do not fit their fields, words that
run past the end of the image, names that are too deep for `visit` and images that are too large
end it with other exceptions.  What each part can raise is first; then the condition under which
the translations end as they should.
-/

namespace Apk2Ios

open Lib MachO

/-! ### What the parts raise -/

/-- A computation that has one result or one exception. -/
lemma PyM.eq_ite {α : Type} {x : PyM α} {c : Prop} [Decidable c] {b : α} {e : PyError}
    (hok : ∀ a, x = .ok a ↔ c ∧ a = b) (hraises : x.Raises (e = ·)) :
    x = if c then .ok b else .error e := by
  by_cases hc : c
  · rw [if_pos hc]
    exact (hok b).mpr ⟨hc, rfl⟩
  · rw [if_neg hc]
    cases hx : x with
    | error e' => rw [← hraises e' hx]
    | ok a => exact absurd ((hok a).mp hx).1 hc

section

variable {P : PyError → Prop}

lemma raises_structPack (h : P .struct) (fields : List Field) : (structPack fields).Raises P :=
  PyM.raises_ite (PyM.raises_ok _) (PyM.raises_error h)

lemma raises_dylibCommand (h : P .struct) (command : ℕ) (name : String) :
    (dylibCommand command name).Raises P :=
  (raises_structPack h _).bind fun _ => PyM.raises_pure _

lemma raises_emitCommands (h : P .struct) {tooLong : PyError} (hlong : P tooLong)
    (commands : List Bytes) (flags limit : ℕ) (file : Bytes) :
    (emitCommands commands flags limit tooLong file).Raises P :=
  (raises_structPack h _).bind fun _ => (PyM.raises_raiseIf hlong).bind fun _ => PyM.raises_pure _

lemma raises_imageCommands (h : P .struct) (segs : List ImageSegment) (args : TranslateArgs)
    (le : Linkedit) : (imageCommands segs args le).Raises P := by
  have hsegment : ∀ seg, (segmentWithDataSection seg).Raises P := fun seg =>
    (raises_structPack h _).bind fun _ => (raises_structPack h _).bind fun _ =>
      (raises_structPack h _).bind fun _ => PyM.raises_pure _
  exact (PyM.raises_mapM hsegment).bind fun _ => (raises_structPack h _).bind fun _ =>
    (raises_dylibCommand h _ _).bind fun _ => (raises_dylibCommand h _ _).bind fun _ =>
      (raises_structPack h _).bind fun _ => (raises_structPack h _).bind fun _ => PyM.raises_pure _

lemma raises_rebaseStream (h : P (.phase3 .rebaseSegment)) (locations : List (ℕ × ℕ)) :
    (rebaseStream locations).Raises P :=
  (PyM.raises_mapM fun _ => (PyM.raises_raiseIf h).bind fun _ => PyM.raises_pure _).bind
    fun _ => PyM.raises_pure _

lemma raises_bindStream (h : P (.phase3 .shimOrdinal)) (h' : P (.phase3 .bindSegment))
    (bindings : List Binding) : (bindStream bindings).Raises P :=
  (PyM.raises_raiseIf h).bind fun _ =>
    (PyM.raises_mapM fun _ => (PyM.raises_raiseIf h').bind fun _ => PyM.raises_pure _).bind
      fun _ => PyM.raises_pure _

lemma raises_encodeNode (h : P (.phase3 .trieChildren)) (node : TrieNode) :
    (encodeNode node).Raises P :=
  (PyM.raises_raiseIf h).bind fun _ => PyM.raises_pure _

lemma raises_layoutForest (h : P (.phase3 .trieChildren)) (forest : Forest Char NodeLabel)
    (state : ℕ × Bool) : (layoutForest forest state).Raises P := by
  induction forest generalizing state with
  | nil => exact PyM.raises_pure _
  | cons edge label children rest ihchildren ihrest =>
    rw [layoutForest]
    exact (raises_encodeNode h _).bind fun _ => (ihchildren _).bind fun _ =>
      (ihrest _).bind fun _ => PyM.raises_pure _

lemma raises_layoutPasses (h : P (.phase3 .trieChildren)) (h' : P (.phase3 .trieLayout)) (n : ℕ)
    (root : TrieNode) : (layoutPasses n root).Raises P := by
  induction n generalizing root with
  | zero => exact PyM.raises_error h'
  | succ n ih =>
    refine PyM.Raises.bind ?_ fun p => PyM.raises_ite (ih p.1) (PyM.raises_pure _)
    exact (raises_encodeNode h root).bind fun _ => (raises_layoutForest h _ _).bind fun _ =>
      PyM.raises_pure _

/-- Behind its visit the function raises errors of the tool only. -/
lemma raises_buildExportTrie (h : P (.phase3 .trieChildren)) (h' : P (.phase3 .trieLayout))
    {calls : ℕ} {exports : Dict String ℕ} (hvisit : (visit calls (exportRoot exports)).Raises P) :
    (buildExportTrie calls exports).Raises P :=
  hvisit.bind fun _ => (raises_layoutPasses h h' _ _).bind fun _ =>
    (PyM.raises_mapM (raises_encodeNode h)).bind fun _ => PyM.raises_pure _

lemma raises_commandSegments (h : P .struct) (linkedit : ℕ × ℕ) (segs : List ImageSegment) :
    (commandSegments linkedit segs).Raises P := by
  induction segs with
  | nil => exact PyM.raises_pure _
  | cons seg segs ih =>
    exact ((PyM.raises_raiseIf h).bind fun _ => PyM.raises_pure _).bind fun _ =>
      ih.bind fun _ => PyM.raises_pure _

end

lemma imageCommands_eq (segs : List ImageSegment) (args : TranslateArgs) (le : Linkedit) :
    imageCommands segs args le = if CommandsFit segs args le then
      .ok ((imageLoadCommands segs args le).map LoadCommand.encode) else .error .struct :=
  PyM.eq_ite (fun _ => imageCommands_eq_ok) (raises_imageCommands rfl _ _ _)

lemma commandSegments_eq (linkedit : ℕ × ℕ) (segs : List ImageSegment) :
    commandSegments linkedit segs =
      if Ascends linkedit segs then .ok (stretched linkedit segs) else .error .struct :=
  PyM.eq_ite (fun _ => commandSegments_eq_ok) (raises_commandSegments rfl _ _)

/-- The numbers of the header are packed before its length is compared. -/
lemma emitCommands_eq {cs : List LoadCommand} {flags limit : ℕ} {tooLong : PyError} {file : Bytes}
    (hflags : flags < 2 ^ 32) :
    emitCommands (cs.map LoadCommand.encode) flags limit tooLong file =
      if cs.length < 2 ^ 32 ∧ headLength cs < 2 ^ 32 + 32 then
        if headLength cs ≤ limit then
          .ok ((dylibImage cs flags).encode ++ file.drop (headLength cs))
        else .error tooLong
      else .error .struct := by
  have hheader : machHeader cs.length (cs.flatMap LoadCommand.encode).length flags = _ :=
    PyM.eq_ite (fun _ => machHeader_eq_ok) (raises_structPack rfl _)
  have hflat : (cs.map LoadCommand.encode).flatten = cs.flatMap LoadCommand.encode := rfl
  have hcount : (cs.length < 2 ^ 32 ∧ (cs.flatMap LoadCommand.encode).length < 2 ^ 32 ∧
      flags < 2 ^ 32) ↔ cs.length < 2 ^ 32 ∧ headLength cs < 2 ^ 32 + 32 := by
    rw [headLength]
    omega
  by_cases hfits : cs.length < 2 ^ 32 ∧ headLength cs < 2 ^ 32 + 32
  · rw [if_pos hfits]
    by_cases hle : headLength cs ≤ limit
    · rw [if_pos hle]
      exact (emitCommands_eq_ok hflags).mpr ⟨⟨hfits.1, hfits.2, hle⟩, rfl⟩
    · have hlong : limit < 32 + (cs.flatMap LoadCommand.encode).length := not_le.mp hle
      rw [if_neg hle, emitCommands, List.length_map, hflat, hheader, if_pos (hcount.mpr hfits),
        PyM.ok_bind, Header.length_encode, raiseIf, if_pos hlong]
      rfl
  · rw [if_neg hfits, emitCommands, List.length_map, hflat, hheader, if_neg (mt hcount.mp hfits)]
    rfl

/-! ### Two ways to end -/

/-- The computation raises a `Phase3Error`, or it returns a file whose commands are as they should
be. -/
def EndsWell {ω : Type} (x : PyM ω) (file : ω → Bytes) (Good : Image → Prop) : Prop :=
  (∃ e, x = .error (.phase3 e)) ∨
    ∃ out im, x = .ok out ∧ readImage (file out) = some im ∧ Good im

section

variable {ω : Type} {file : ω → Bytes} {Good : Image → Prop}

lemma endsWell_error {e : PyError} :
    EndsWell (.error e) file Good ↔ ∃ e' : Phase3Error, e = .phase3 e' := by
  simp [EndsWell]

lemma not_endsWell_error {e : PyError} (h : ∀ e', e ≠ .phase3 e') :
    ¬ EndsWell (.error e) file Good :=
  fun hends => (endsWell_error.mp hends).elim h

lemma endsWell_ok {out : ω} {im : Image} (h : readImage (file out) = some im) :
    EndsWell (.ok out) file Good ↔ Good im := by
  simp [EndsWell, h]

/-- A computation that packs numbers and then compares a length. -/
lemma endsWell_iff_of_cases (e : Phase3Error) {x : PyM ω} {packs fits : Prop} {out : ω}
    {im : Image} (hok : packs → fits → x = .ok out)
    (hread : packs → fits → readImage (file out) = some im)
    (hlong : packs → ¬ fits → x = .error (.phase3 e)) (hstruct : ¬ packs → x = .error .struct) :
    EndsWell x file Good ↔ packs ∧ (fits → Good im) := by
  by_cases hpacks : packs
  swap
  · rw [hstruct hpacks]
    exact iff_of_false (not_endsWell_error (by simp)) fun h => hpacks h.1
  rw [and_iff_right hpacks]
  by_cases hfits : fits
  · rw [hok hpacks hfits]
    exact (endsWell_ok (hread hpacks hfits)).trans (imp_iff_right hfits).symm
  · rw [hlong hpacks hfits, endsWell_error]
    exact iff_of_true ⟨e, rfl⟩ fun h => absurd h hfits

end

/-- A relocation that stops the loop with a word outside of the image. -/
def Failure.IsShort : Failure → Prop
  | .short _ _ => True
  | _ => False

instance : DecidablePred Failure.IsShort
  | .short _ _ => inferInstanceAs (Decidable True)
  | .target _ => inferInstanceAs (Decidable False)
  | .unsupported _ _ => inferInstanceAs (Decidable False)
  | .symbolIndex _ => inferInstanceAs (Decidable False)

/-- The other failures are errors of the tool. -/
lemma Failure.phase3_iff (f : Failure) :
    (∃ e : Phase3Error, f.phase3 = .phase3 e) ↔ ¬ f.IsShort := by
  cases f with
  | short reads dst =>
    refine iff_of_false ?_ fun h => h trivial
    rintro ⟨e, he⟩
    rw [phase3, outside] at he
    split_ifs at he
  | target vaddr => exact iff_of_true ⟨_, rfl⟩ id
  | unsupported rType offset => exact iff_of_true ⟨_, rfl⟩ id
  | symbolIndex index => exact iff_of_true ⟨_, rfl⟩ id

/-! ### Phase 3 -/

namespace Phase3Translator

variable {T : Phase3Translator} {args : TranslateArgs} {Good : Image → Prop}

/-- The relocation that stops the loop, if there is one, does not do so because its word runs past
the end of the image. -/
def WordsInside (T : Phase3Translator) : Prop :=
  ∀ f ∈ T.elf.relocations.findSome? (Relocation.failure? true (locate T.pieces)
    T.elf.dynamicSymbols T.copied.length), ¬ f.IsShort

instance : Subsingleton (T.Translation args) := by
  refine ⟨fun ⟨st, rs, bs, hst, hrs, hbs⟩ ⟨st', rs', bs', hst', hrs', hbs'⟩ => ?_⟩
  obtain rfl := Except.ok.inj (hst.symm.trans hst')
  obtain rfl := Except.ok.inj (hrs.symm.trans hrs')
  obtain rfl := Except.ok.inj (hbs.symm.trans hbs')
  rfl

namespace Translation

variable (t : T.Translation args)

/-- The numbers of the commands fit their fields. -/
structure Packs : Prop where
  commands : CommandsFit T.segments args t.linkedit
  count : t.commands.length < 2 ^ 32
  size : headLength t.commands < 2 ^ 32 + 32

variable {t}

lemma Packs.fits (h : t.Packs) (hsize : T.dataEnd < 2 ^ 63)
    (hhead : headLength t.commands ≤ T.params.headerReserve) : t.Fits :=
  ⟨hsize, h.commands, h.count, h.size, hhead⟩

lemma Fits.packs (h : t.Fits) : t.Packs := ⟨h.commands, h.count, h.head.1⟩

/-- What is left of a translation after its loop and its streams. -/
lemma translate_eq (t : T.Translation args) (hsize : T.dataEnd < 2 ^ 63) :
    T.translate args = if CommandsFit T.segments args t.linkedit then do
      let file ← emitCommands (t.commands.map LoadCommand.encode) dylibFlags
        T.params.headerReserve (.phase3 .commands) t.assembled
      return ⟨file, T.reportOf args t.st t.linkedit file⟩
    else .error .struct := by
  rw [translate, raiseIf, if_neg (not_le.mpr hsize), PyM.ok_bind, t.fixups, PyM.ok_bind,
    t.rebaseStream, PyM.ok_bind, t.bindStream, PyM.ok_bind]
  change imageCommands T.segments args t.linkedit >>= _ = _
  rw [imageCommands_eq]
  split_ifs <;> rfl

/-- It packs numbers, which must fit, and compares the length of the commands. -/
lemma endsWell_iff (t : T.Translation args) (hsize : T.dataEnd < 2 ^ 63) :
    EndsWell (T.translate args) Phase3Output.file Good ↔ t.Packs ∧
      (headLength t.commands ≤ T.params.headerReserve → Good (dylibImage t.commands dylibFlags)) := by
  have hflags : dylibFlags < 2 ^ 32 := by decide
  refine endsWell_iff_of_cases .commands
    (fun hpacks hhead => translate_eq_ok.mpr ⟨t, hpacks.fits hsize hhead, rfl⟩)
    (fun hpacks hhead => (hpacks.fits hsize hhead).file_spec.1)
    (fun hpacks hhead => ?_) fun hpacks => ?_
  · rw [t.translate_eq hsize, if_pos hpacks.commands, emitCommands_eq hflags,
      if_pos ⟨hpacks.count, hpacks.size⟩, if_neg hhead]
    rfl
  · rw [t.translate_eq hsize]
    split_ifs with hcommands
    · have hcount : ¬ (t.commands.length < 2 ^ 32 ∧ headLength t.commands < 2 ^ 32 + 32) :=
        fun h => hpacks ⟨hcommands, h.1, h.2⟩
      rw [emitCommands_eq hflags, if_neg hcount]
      rfl
    · rfl

end Translation

/-- **How Phase 3 ends.**  It ends with a `Phase3Error` or with a good file exactly when there can be
an image of its size, no word that runs past the end of the image stops its loop, the numbers of its
commands fit, and the file is good in case the commands fit the reserve. -/
lemma endsWell_iff : EndsWell (T.translate args) Phase3Output.file Good ↔
    T.dataEnd < 2 ^ 63 ∧ T.WordsInside ∧ ∀ t : T.Translation args, t.Packs ∧
      (headLength t.commands ≤ T.params.headerReserve → Good (dylibImage t.commands dylibFlags)) := by
  by_cases hsize : T.dataEnd < 2 ^ 63
  swap
  · have herror : T.translate args = .error .overflow := by
      rw [translate, raiseIf, if_pos (not_lt.mp hsize)]
      rfl
    rw [herror]
    exact iff_of_false (not_endsWell_error (by simp)) fun h => hsize h.1
  rw [and_iff_right hsize]
  have hstart : T.translate args = T.fixups args >>= fun st => do
      let rebases ← rebaseStream st.rebases
      let binds ← bindStream st.bindings
      let le := T.linkedit st.image.length rebases.length binds.length
      let commands ← imageCommands T.segments args le
      let file ← emitCommands commands dylibFlags T.params.headerReserve (.phase3 .commands)
        (T.assemble le st.image rebases binds)
      return ⟨file, T.reportOf args st le file⟩ := by
    rw [translate, raiseIf, if_neg (not_le.mpr hsize), PyM.ok_bind]
  cases hst : T.fixups args with
  | error e =>
    obtain ⟨f, hf, rfl⟩ := relocateAll_eq_error_iff.mp hst
    have herror : T.translate args = .error f.phase3 := by
      rw [hstart, hst]
      rfl
    rw [herror, endsWell_error, f.phase3_iff, WordsInside, hf]
    constructor
    · intro hshort
      refine ⟨fun f' hf' => Option.some.inj hf' ▸ hshort, fun t => ?_⟩
      cases hst.symm.trans t.fixups
    · exact fun h => h.1 f rfl
  | ok st =>
    have hwords : T.WordsInside := by
      intro f hf
      cases hst.symm.trans (relocateAll_eq_error_iff.mpr ⟨f, hf, rfl⟩)
    have hsame : ∀ t : T.Translation args, t.st = st := fun t =>
      Except.ok.inj (t.fixups.symm.trans hst)
    rw [hst, PyM.ok_bind] at hstart
    rw [and_iff_right hwords]
    -- the streams raise errors of the tool only
    cases hrs : rebaseStream st.rebases with
    | error e =>
      have hraises : (rebaseStream st.rebases).Raises fun e => ∃ e', e = .phase3 e' :=
        raises_rebaseStream ⟨_, rfl⟩ _
      rw [hrs] at hstart
      rw [hstart]
      refine iff_of_true (endsWell_error.mpr (hraises e hrs)) fun t => ?_
      cases hrs.symm.trans (hsame t ▸ t.rebaseStream)
    | ok rs =>
      rw [hrs, PyM.ok_bind] at hstart
      cases hbs : bindStream st.bindings with
      | error e =>
        have hraises : (bindStream st.bindings).Raises fun e => ∃ e', e = .phase3 e' :=
          raises_bindStream ⟨_, rfl⟩ ⟨_, rfl⟩ _
        rw [hbs] at hstart
        rw [hstart]
        refine iff_of_true (endsWell_error.mpr (hraises e hbs)) fun t => ?_
        cases hbs.symm.trans (hsame t ▸ t.bindStream)
      | ok bs =>
        let t : T.Translation args := ⟨st, rs, bs, hst, hrs, hbs⟩
        rw [t.endsWell_iff hsize]
        exact ⟨fun h t' => Subsingleton.elim t t' ▸ h, fun h => h t⟩

end Phase3Translator

/-! ### Phase 4 -/

namespace Phase4Translator

variable {T : Phase4Translator} {args : TranslateArgs} {Good : Image → Prop}

instance : Subsingleton (T.Translation args) := by
  refine ⟨fun ⟨base, hfits, trie, htrie⟩ ⟨base', hfits', trie', htrie'⟩ => ?_⟩
  obtain rfl := Subsingleton.elim base base'
  obtain rfl := Except.ok.inj (htrie.symm.trans htrie')
  rfl

namespace Translation

variable (t : T.Translation args)

/-- Every segment starts before the next one, and the numbers of the commands fit their
fields. -/
structure Packs : Prop where
  ascends : Ascends (t.linkedit.fileoff, t.linkedit.vmaddr) T.segments
  commands : CommandsFit t.segments args t.linkedit
  strOff : t.strOff < 2 ^ 32
  count : t.commands.length < 2 ^ 32
  size : headLength t.commands < 2 ^ 32 + 32

variable {t}

lemma Packs.fits (h : t.Packs) (hhead : headLength t.commands ≤ T.params.headerReserve) : t.Fits :=
  ⟨h.ascends, h.commands, h.strOff, h.count, h.size, hhead⟩

lemma Fits.packs (h : t.Fits) : t.Packs := ⟨h.ascends, h.commands, h.strOff, h.count, h.head.1⟩

/-- What is left of a translation after Phase 3 and the export trie. -/
lemma translate_eq (t : T.Translation args) :
    T.translate args =
      if Ascends (t.linkedit.fileoff, t.linkedit.vmaddr) T.segments ∧
        CommandsFit t.segments args t.linkedit ∧ t.strOff < 2 ^ 32 then do
          let file ← emitCommands (t.commands.map LoadCommand.encode) dylibFlags
            T.params.headerReserve (.phase3 .phase4Commands) t.assembled
          return ⟨file, T.reportOf (T.toPhase3Translator.reportOf args t.base.st t.base.linkedit
            t.base.file) t.trie file t.exportOff⟩
      else .error .struct := by
  have hbase := Phase3Translator.translate_eq_ok.mpr ⟨t.base, t.fits, rfl⟩
  have hsymtab : symtabCommand t.strOff 0 t.strOff 1 =
      if t.strOff < 2 ^ 32 then .ok (LoadCommand.symtab t.symtab).encode else .error .struct := by
    refine PyM.eq_ite (fun bs => ?_) (raises_structPack rfl _)
    rw [symtabCommand_eq_ok]
    exact and_congr ⟨fun h => h.1, fun h => ⟨h, by decide, h, by decide⟩⟩ Iff.rfl
  have hcommands : (imageLoadCommands t.segments args t.linkedit).map LoadCommand.encode ++
      [(LoadCommand.symtab t.symtab).encode] = t.commands.map LoadCommand.encode := by
    rw [commands, List.map_append, List.map_singleton]
  rw [translate, hbase, PyM.ok_bind, t.buildExportTrie, PyM.ok_bind]
  dsimp only
  rw [linkeditOf_reportOf, commandSegments_eq]
  by_cases hasc : Ascends (t.linkedit.fileoff, t.linkedit.vmaddr) T.segments
  swap
  · rw [if_neg hasc, if_neg fun h => hasc h.1]
    rfl
  rw [if_pos hasc, PyM.ok_bind, show stretched _ T.segments = t.segments from rfl, imageCommands_eq]
  by_cases hfit : CommandsFit t.segments args t.linkedit
  swap
  · rw [if_neg hfit, if_neg fun h => hfit h.2.1]
    rfl
  rw [if_pos hfit, PyM.ok_bind]
  change symtabCommand t.strOff 0 t.strOff 1 >>= _ = _
  rw [hsymtab]
  by_cases hstr : t.strOff < 2 ^ 32
  · rw [if_pos hstr, PyM.ok_bind, hcommands, if_pos ⟨hasc, hfit, hstr⟩]
    rfl
  · rw [if_neg hstr, if_neg fun h => hstr h.2.2]
    rfl

/-- It packs numbers, which must fit, and compares the length of the commands. -/
lemma endsWell_iff (t : T.Translation args) :
    EndsWell (T.translate args) Phase4Output.file Good ↔ t.Packs ∧
      (headLength t.commands ≤ T.params.headerReserve → Good (dylibImage t.commands dylibFlags)) := by
  have hflags : dylibFlags < 2 ^ 32 := by decide
  refine endsWell_iff_of_cases .phase4Commands
    (fun hpacks hhead => translate_eq_ok.mpr ⟨t, hpacks.fits hhead, rfl⟩)
    (fun hpacks hhead => (hpacks.fits hhead).file_spec.1)
    (fun hpacks hhead => ?_) fun hpacks => ?_
  · rw [t.translate_eq, if_pos ⟨hpacks.ascends, hpacks.commands, hpacks.strOff⟩,
      emitCommands_eq hflags, if_pos ⟨hpacks.count, hpacks.size⟩, if_neg hhead]
    rfl
  · rw [t.translate_eq]
    split_ifs with h
    · have hcount : ¬ (t.commands.length < 2 ^ 32 ∧ headLength t.commands < 2 ^ 32 + 32) :=
        fun h' => hpacks ⟨h.1, h.2.1, h.2.2, h'.1, h'.2⟩
      rw [emitCommands_eq hflags, if_neg hcount]
      rfl
    · rfl

end Translation

/-- **How Phase 4 ends.**  It ends as it should exactly when Phase 3 does, `visit` comes to the end
of every name in case Phase 3 returns, and the numbers and the file are as they should be in case the
trie is built. -/
lemma endsWell_iff : EndsWell (T.translate args) Phase4Output.file Good ↔
    EndsWell (T.toPhase3Translator.translate args) Phase3Output.file
      (fun _ => WithinCalls T.calls T.exports) ∧
    ∀ t : T.Translation args, t.Packs ∧
      (headLength t.commands ≤ T.params.headerReserve → Good (dylibImage t.commands dylibFlags)) := by
  cases hbase : T.toPhase3Translator.translate args with
  | error e =>
    have herror : T.translate args = .error e := by
      rw [translate, hbase]
      rfl
    rw [herror, endsWell_error, endsWell_error]
    refine (and_iff_left fun t => ?_).symm
    cases hbase.symm.trans (Phase3Translator.translate_eq_ok.mpr ⟨t.base, t.fits, rfl⟩)
  | ok out =>
    obtain ⟨base, hfits, rfl⟩ := Phase3Translator.translate_eq_ok.mp hbase
    have hread : EndsWell (.ok ⟨base.file, T.toPhase3Translator.reportOf args base.st base.linkedit
        base.file⟩) Phase3Output.file (fun _ => WithinCalls T.calls T.exports) ↔
          WithinCalls T.calls T.exports := endsWell_ok hfits.file_spec.1
    rw [hread]
    by_cases hcalls : WithinCalls T.calls T.exports
    swap
    · have herror : T.translate args = .error .recursion := by
        rw [translate, hbase, PyM.ok_bind, buildExportTrie_of_deep hcalls]
        rfl
      rw [herror]
      exact iff_of_false (not_endsWell_error (by simp)) fun h => hcalls h.1
    rw [and_iff_right hcalls]
    cases htrie : buildExportTrie T.calls T.exports with
    | error e =>
      have hvisit : (visit T.calls (exportRoot T.exports)).Raises
          fun e => ∃ e' : Phase3Error, e = .phase3 e' := by
        intro e he
        cases he.symm.trans (visit_eq_ok.mpr ⟨depth_exportRoot_lt_iff.mpr hcalls, rfl⟩)
      have hraises := raises_buildExportTrie ⟨_, rfl⟩ ⟨_, rfl⟩ hvisit
      have herror : T.translate args = .error e := by
        rw [translate, hbase, PyM.ok_bind, htrie]
        rfl
      rw [herror]
      refine iff_of_true (endsWell_error.mpr (hraises e htrie)) fun t => ?_
      cases htrie.symm.trans t.buildExportTrie
    | ok trie =>
      let t : T.Translation args := ⟨base, hfits, trie, htrie⟩
      rw [t.endsWell_iff]
      exact ⟨fun h t' => Subsingleton.elim t t' ▸ h, fun h => h t⟩

/-- What the two translations need of the library, the arguments and the interpreter. -/
structure Translatable (T : Phase4Translator) (args : TranslateArgs) : Prop where
  /-- An image can have this size. -/
  size : T.dataEnd < 2 ^ 63
  words : T.WordsInside
  packs : ∀ t : T.toPhase3Translator.Translation args, t.Packs
  /-- Where the commands of Phase 3 fit the reserve, its segments are apart and its trie is
  visited. -/
  unshared : ∀ t : T.toPhase3Translator.Translation args,
    headLength t.commands ≤ T.params.headerReserve → T.elf.PagesUnshared T.params
  names : ∀ t : T.toPhase3Translator.Translation args,
    headLength t.commands ≤ T.params.headerReserve → WithinCalls T.calls T.exports
  packs₄ : ∀ t : T.Translation args, t.Packs
  disjoint : ∀ t : T.Translation args,
    headLength t.commands ≤ T.params.headerReserve → T.elf.PagesDisjoint T.params

end Phase4Translator

namespace Phase3Translator

/-- A library with pages of 4 KiB: its second `PT_LOAD` starts in the page of the target in
which the first one ends. -/
def smallPages : Phase3Translator where
  elf := {
    data := List.replicate 0x800 0
    eType := etDyn
    eMachine := emAarch64
    programHeaders := [⟨1, 5, 0, 0, 0x300, 0x300, 0x1000⟩,
      ⟨1, 6, 0x300, 0x2000, 0x300, 0x380, 0x1000⟩]
    sections := [] }
  params := .default
  segments := [firstSegment .default ⟨1, 5, 0, 0, 0x300, 0x300, 0x1000⟩,
    nextSegment .default 1 0x14000 ⟨1, 6, 0x300, 0x2000, 0x300, 0x380, 0x1000⟩]
  machine := rfl
  type := rfl
  layout := rfl

end Phase3Translator

end Apk2Ios
