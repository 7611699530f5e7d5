import Apk2Ios.Lib.Files
import Apk2Ios.Phase2.Translate
import Apk2Ios.Phase4.Translate

/-!
# Writing the output

The three `translate` methods as programs on files: everything that can raise comes before the
one write of the output.  Phase 4 lets Phase 3 write a temporary file, which is removed
whether Phase 3 raises or not.
-/

namespace Apk2Ios

open Lib MachO

/-- What ends a tool: an exception of its own, a missing file, or an error of the host. -/
inductive FileError where
  | raised (e : PyError)
  | notFound
  | host (errno : Errno)

/-- A tool on files, with paths of the type `π`. -/
abbrev ToolM (π : Type) := FileM π Bytes FileError

/-- A step of a tool that touches no file. -/
def raising {π α : Type} (x : PyM α) : ToolM π α := FileM.lift .raised x

variable {π : Type} [DecidableEq π] (host : FileHost π Bytes FileError) (output : π)

/-! ### The methods -/

/-- `Phase2Translator.translate(output, …)`. -/
def Phase2Translator.translateTo (T : Phase2Translator) (args : Phase2.TranslateArgs) :
    ToolM π Phase2Report := do
  raising (raiseIf (2 ^ 63 ≤ T.dataEnd) .overflow)
  let st ← raising T.fixups
  let commands ← raising (T.commands args)
  let file ← raising
    (emitCommands commands 0 T.params.pageSize (.translate .commands) st.image)
  FileM.write host output file
  return T.reportOf st file

/-- `Phase3Translator.translate(output, …)`. -/
def Phase3Translator.translateTo (T : Phase3Translator) (args : TranslateArgs) :
    ToolM π Phase3Report := do
  raising (raiseIf (2 ^ 63 ≤ T.dataEnd) .overflow)
  let st ← raising (T.fixups args)
  let rebases ← raising (rebaseStream st.rebases)
  let binds ← raising (bindStream st.bindings)
  let le := T.linkedit st.image.length rebases.length binds.length
  let commands ← raising (imageCommands T.segments args le)
  let file ← raising (emitCommands commands dylibFlags T.params.headerReserve
    (.phase3 .commands) (T.assemble le st.image rebases binds))
  FileM.write host output file
  return T.reportOf args st le file

namespace Phase4Translator

variable (T : Phase4Translator)

/-- The report and the data of Phase 3, by way of a temporary file. -/
def phase3Data (args : TranslateArgs) : ToolM π (Phase3Report × Bytes) := do
  let phase3Path ← FileM.namedTemporaryFile host []
  FileM.tryFinally (do
    let report ← T.toPhase3Translator.translateTo host phase3Path args
    let data ← FileM.read .notFound phase3Path
    return (report, data)) (FileM.unlink phase3Path)

/-- `Phase4Translator.translate(output, …)`. -/
def translateTo (args : TranslateArgs) : ToolM π Phase4Report := do
  let (report, data) ← T.phase3Data host args
  let exportStream ← raising (buildExportTrie T.calls T.exports)
  let le := T.linkeditOf report exportStream.length
  let strOff := le.exportOff + le.exportSize
  let segments ← raising (commandSegments (le.fileoff, le.vmaddr) T.segments)
  let commands ← raising (imageCommands segments args le)
  let symtab ← raising (symtabCommand strOff 0 strOff 1)
  let file ← raising (emitCommands (commands ++ [symtab]) dylibFlags T.params.headerReserve
    (.phase3 .phase4Commands) (T.assemble le data exportStream))
  FileM.write host output file
  return T.reportOf report exportStream file le.exportOff

end Phase4Translator

/-! ### Everything that can raise comes before the write -/

open FileM

lemma Phase2Translator.writes_translateTo (T : Phase2Translator) (args : Phase2.TranslateArgs) :
    Writes output (fun report file => T.translate args = .ok ⟨file, report⟩)
      (T.translateTo host output args) := by
  refine (reads_lift _ _).bind fun _ hsize => ?_
  refine (reads_lift _ _).bind fun st hst => ?_
  refine (reads_lift _ _).bind fun commands hcommands => ?_
  refine (reads_lift _ _).bind fun file hfile => ?_
  refine (writes_write host output file).bind_pure fun _ content hcontent => ?_
  subst hcontent
  rw [Phase2Translator.translate, hsize, PyM.ok_bind, hst, PyM.ok_bind, hcommands, PyM.ok_bind, hfile]
  rfl

lemma Phase3Translator.writes_translateTo (T : Phase3Translator) (args : TranslateArgs) :
    Writes output (fun report file => T.translate args = .ok ⟨file, report⟩)
      (T.translateTo host output args) := by
  refine (reads_lift _ _).bind fun _ hsize => ?_
  refine (reads_lift _ _).bind fun st hst => ?_
  refine (reads_lift _ _).bind fun rebases hrebases => ?_
  refine (reads_lift _ _).bind fun binds hbinds => ?_
  refine (reads_lift _ _).bind fun commands hcommands => ?_
  refine (reads_lift _ _).bind fun file hfile => ?_
  refine (writes_write host output file).bind_pure fun _ content hcontent => ?_
  subst hcontent
  rw [Phase3Translator.translate, hsize, PyM.ok_bind, hst, PyM.ok_bind, hrebases, PyM.ok_bind,
    hbinds, PyM.ok_bind]
  dsimp only
  rw [hcommands, PyM.ok_bind, hfile]
  rfl

lemma Phase4Translator.writes_translateTo (T : Phase4Translator) (args : TranslateArgs) :
    Writes output (fun report file => T.translate args = .ok ⟨file, report⟩)
      (T.translateTo host output args) := by
  have hphase3 : Reads (fun r : Phase3Report × Bytes =>
      T.toPhase3Translator.translate args = .ok ⟨r.2, r.1⟩) (T.phase3Data host args) :=
    reads_temporary host [] .notFound fun tmp =>
      T.toPhase3Translator.writes_translateTo host tmp args
  refine hphase3.bind fun ⟨report, data⟩ hbase => ?_
  refine (reads_lift _ _).bind fun exportStream hexports => ?_
  refine (reads_lift _ _).bind fun segments hsegments => ?_
  refine (reads_lift _ _).bind fun commands hcommands => ?_
  refine (reads_lift _ _).bind fun symtab hsymtab => ?_
  refine (reads_lift _ _).bind fun file hfile => ?_
  refine (writes_write host output file).bind_pure fun _ content hcontent => ?_
  subst hcontent
  rw [Phase4Translator.translate, hbase, PyM.ok_bind, hexports, PyM.ok_bind]
  dsimp only
  rw [hsegments, PyM.ok_bind, hcommands, PyM.ok_bind, hsymtab, PyM.ok_bind, hfile]
  rfl

/-! ### No trace -/

/-- A program that raises leaves all files as they were; one that returns has changed the
output only, which holds a file of the reported size that the pure translation returns. -/
def LeavesNoTrace {ρ : Type} (p : ToolM π ρ) (size : ρ → ℕ) (image : ρ → Bytes → Prop) : Prop :=
  ∀ files, (∀ e, (p files).1 = .error e → (p files).2 = files) ∧
    ∀ report, (p files).1 = .ok report →
      ∃ file, (p files).2 = Function.update files output (some file) ∧
        file.length = size report ∧ image report file

lemma leavesNoTrace_of_writes {ρ : Type} {p : ToolM π ρ} {size : ρ → ℕ}
    {image : ρ → Bytes → Prop} (hp : Writes output image p)
    (hsize : ∀ report file, image report file → file.length = size report) :
    LeavesNoTrace output p size image := by
  intro files
  obtain ⟨herror, hok⟩ := hp.spec files
  refine ⟨herror, fun report hreport => ?_⟩
  obtain ⟨file, himage, hfiles⟩ := hok report hreport
  exact ⟨file, hfiles, hsize report file himage, himage⟩

/-- **Failed translations leave no trace.**  Whatever the host refuses, a `translate` that
raises changes no file, and one that returns has written its output, complete and with the
reported size, and no other file. -/
theorem translate_leaves_no_trace :
    (∀ (T : Phase2Translator) (args : Phase2.TranslateArgs),
      LeavesNoTrace output (T.translateTo host output args) Phase2Report.outputSize
        fun report file => T.translate args = .ok ⟨file, report⟩) ∧
    (∀ (T : Phase3Translator) (args : TranslateArgs),
      LeavesNoTrace output (T.translateTo host output args) Phase3Report.outputSize
        fun report file => T.translate args = .ok ⟨file, report⟩) ∧
    ∀ (T : Phase4Translator) (args : TranslateArgs),
      LeavesNoTrace output (T.translateTo host output args) (·.outputSize)
        fun report file => T.translate args = .ok ⟨file, report⟩ := by
  refine ⟨fun T args => ?_, fun T args => ?_, fun T args => ?_⟩
  · refine leavesNoTrace_of_writes output (T.writes_translateTo host output args)
      fun report file h => ?_
    obtain ⟨st, -, hreport, -⟩ := Phase2Translator.translate_spec h
    exact (congrArg Phase2Report.outputSize hreport).symm
  · refine leavesNoTrace_of_writes output (T.writes_translateTo host output args)
      fun report file h => ?_
    obtain ⟨t, -, hout⟩ := Phase3Translator.translate_eq_ok.mp h
    obtain ⟨rfl, rfl⟩ := Phase3Output.mk.inj hout
    rfl
  · refine leavesNoTrace_of_writes output (T.writes_translateTo host output args)
      fun report file h => ?_
    obtain ⟨t, -, hout⟩ := Phase4Translator.translate_eq_ok.mp h
    obtain ⟨rfl, rfl⟩ := Phase4Output.mk.inj hout
    rfl

end Apk2Ios
