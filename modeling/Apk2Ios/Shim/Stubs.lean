import Apk2Ios.Lib.Assembly
import Apk2Ios.Shim.Scaffold

/-!
# The shim: the stubs at work

The two generated assembly files, read by an assembler, loaded by a linker and run.  The stub of
a direct import goes on with the function of the host under the same name, without a trace; the
stub of an unsupported import calls `a2i_unimplemented` with the name.
-/

namespace Apk2Ios

open Lib Arm64

/-- The characters of the name need no quotes in an assembly file. -/
def IsIdentifier (name : String) : Prop := name.toList.all isSymbolChar = true

instance : DecidablePred IsIdentifier := fun name =>
  inferInstanceAs (Decidable (name.toList.all isSymbolChar = true))

/-! ### The statements of the files -/

/-- The statements of a stub. -/
def stubStmts (name : String) (code : List Instr) : List Stmt :=
  .globl (shimLabel name) :: .label (shimLabel name) :: code.map .instr ++ [.blank]

/-- The code of the stub of a direct import. -/
def directCode (name : String) : List Instr := [.b (asmName name)]

/-- The code of the stub of an unsupported import. -/
def trapCode (index : ℕ) : List Instr :=
  [.adrp 0 (nameLabel index), .addPageoff 0 0 (nameLabel index), .b (asmName "a2i_unimplemented")]

/-- The first lines of both files. -/
def headStmts : List Stmt := [.text, .align 2, .blank, .blank, .blank]

/-- The statements of `direct.S`. -/
def directStmts (symbols : List String) : List Stmt :=
  headStmts ++ (sortedStrings symbols).flatMap fun name => stubStmts name (directCode name)

/-- The string of a name, under its label. -/
def stringStmts (p : String × ℕ) : List Stmt := [.label (nameLabel p.2), .asciz p.1, .blank]

/-- The statements of `trap.S`. -/
def trapStmts (symbols : List String) : List Stmt :=
  headStmts ++ ((sortedStrings symbols).zipIdx.flatMap fun p => stubStmts p.1 (trapCode p.2)) ++
    [.cstrings, .blank] ++ (sortedStrings symbols).zipIdx.flatMap stringStmts

section

variable {name : String} {names : List String} {index : ℕ}

lemma IsIdentifier.isSymbol_asmName (h : IsIdentifier name) : IsSymbol (asmName name).toList := by
  have hhead : IsSymbol "_".toList := by decide
  rw [asmName, String.toList_append]
  exact hhead.append h

lemma IsIdentifier.isSymbol_shimLabel (h : IsIdentifier name) :
    IsSymbol (shimLabel name).toList := by
  have hhead : IsSymbol "_a2i_".toList := by decide
  rw [shimLabel_eq, String.toList_append]
  exact hhead.append h

lemma isSymbol_nameLabel (index : ℕ) : IsSymbol (nameLabel index).toList := by
  have hhead : IsSymbol "L_a2i_name_".toList := by decide
  rw [nameLabel, String.toList_append, Nat.toString_eq_repr, Nat.toList_repr]
  refine hhead.append (List.all_eq_true.mpr fun c hc => ?_)
  have hdigit := Nat.isDigit_of_mem_toDigits (by norm_num) (by norm_num) hc
  simp [isSymbolChar, Char.isAlphanum, hdigit]

lemma nameLabel_injective : Function.Injective nameLabel := by
  intro i j h
  have hrepr := (String.append_right_inj "L_a2i_name_").mp h
  have hdigits : Nat.toDigits 10 i = Nat.toDigits 10 j := by
    rw [← Nat.toList_repr, ← Nat.toList_repr, ← Nat.toString_eq_repr, ← Nat.toString_eq_repr, hrepr]
  rw [← Nat.ofDigitChars_ten_toDigits (n := i), hdigits, Nat.ofDigitChars_ten_toDigits]

/-- The escapes of a name are undone. -/
lemma readLiteral_escaped (name : String) :
    readLiteral ((escaped name).toList ++ ['\x22']) = some name.toList := by
  rw [escaped, String.toList_ofList]
  induction name.toList with
  | nil => rfl
  | cons c cs ih =>
    by_cases hc : c = '\x5C' ∨ c = '\x22'
    · have hread : readLiteral ('\x5C' :: c :: (cs.flatMap fun c =>
          if c = '\x5C' ∨ c = '\x22' then ['\x5C', c] else [c]) ++ ['\x22']) =
          some (c :: cs) := by
        show (if c = '\x5C' ∨ c = '\x22' then _ else none) = _
        rw [if_pos hc]
        exact congrArg (Option.map (c :: ·)) ih
      simpa [hc] using hread
    · obtain ⟨hslash, hquote⟩ := not_or.mp hc
      have hread : ∀ rest, readLiteral (c :: rest) = (readLiteral rest).map (c :: ·) := by
        intro rest
        rw [readLiteral]
        · exact fun h => hquote h
        · exact fun _ _ h => absurd h hslash
      rw [List.flatMap_cons, if_neg hc, List.singleton_append, List.cons_append, hread, ih,
        Option.map_some]

/-! ### Reading the files -/

/-- The assembler reads these statements. -/
def Reads (lines : List AsmLine) (stmts : List Stmt) : Prop :=
  (lines.map AsmLine.text).mapM readLine = some stmts

instance (lines : List AsmLine) (stmts : List Stmt) : Decidable (Reads lines stmts) :=
  inferInstanceAs (Decidable (_ = _))

lemma Reads.append {ls ls' : List AsmLine} {ss ss' : List Stmt} (h : Reads ls ss)
    (h' : Reads ls' ss') : Reads (ls ++ ls') (ss ++ ss') := by
  rw [Reads, List.map_append, List.mapM_append, h, h']
  rfl

lemma Reads.cons {l : AsmLine} {ls : List AsmLine} {s : Stmt} {ss : List Stmt}
    (h : readLine l.text = some s) (h' : Reads ls ss) : Reads (l :: ls) (s :: ss) := by
  have hline : Reads [l] [s] := by simp [Reads, h]
  exact hline.append h'

lemma reads_nil : Reads [] [] := rfl

lemma Reads.flatMap {α : Type} {xs : List α} {f : α → List AsmLine} {g : α → List Stmt}
    (h : ∀ x ∈ xs, Reads (f x) (g x)) : Reads (xs.flatMap f) (xs.flatMap g) := by
  induction xs with
  | nil => exact reads_nil
  | cons x xs ih =>
    obtain ⟨hx, hxs⟩ := List.forall_mem_cons.mp h
    exact hx.append (ih hxs)

lemma reads_stub (h : IsIdentifier name) {texts : List String} {code : List Instr}
    (hcode : Reads (texts.map .other) (code.map .instr)) :
    Reads (stub name texts) (stubStmts name code) := by
  have hblank : Reads [.other ""] [.blank] := rfl
  have hsymbol := h.isSymbol_shimLabel
  exact .cons (readLine_globl hsymbol) (.cons (readLine_label hsymbol) (hcode.append hblank))

lemma readLine_adrp (index : ℕ) :
    readLine ("    adrp x0, " ++ nameLabel index ++ "@PAGE") =
      some (.instr (.adrp 0 (nameLabel index))) := by
  have hsymbol := isSymbol_nameLabel index
  have hreg : readReg 'x' 31 "x0".toList = some 0 := by decide
  have hhead : ("    adrp x0, " ++ nameLabel index ++ "@PAGE").toList.dropWhile (· = ' ') =
      "adrp x0,".toList ++ ' ' :: ((nameLabel index).toList ++ "@PAGE".toList) := by simp
  rw [readLine_eq hhead (by simp) (by simp), tokens_append rfl,
    tokens_of_isToken (hsymbol.isToken_append (by decide))]
  show (readAdrp ["x0".toList, (nameLabel index).toList ++ "@PAGE".toList]).map Stmt.instr = _
  rw [readAdrp, hreg, beforeSuffix_append, Option.bind_eq_bind, Option.bind_some,
    Option.bind_eq_bind, Option.bind_some, readSymbol_toList hsymbol]
  rfl

lemma readLine_addPageoff (index : ℕ) :
    readLine ("    add x0, x0, " ++ nameLabel index ++ "@PAGEOFF") =
      some (.instr (.addPageoff 0 0 (nameLabel index))) := by
  have hsymbol := isSymbol_nameLabel index
  have hreg : readReg 'x' 31 "x0".toList = some 0 := by decide
  have hhead : ("    add x0, x0, " ++ nameLabel index ++ "@PAGEOFF").toList.dropWhile (· = ' ') =
      "add x0, x0,".toList ++ ' ' :: ((nameLabel index).toList ++ "@PAGEOFF".toList) := by simp
  rw [readLine_eq hhead (by simp) (by simp), tokens_append rfl,
    tokens_of_isToken (hsymbol.isToken_append (by decide))]
  show (readAdd ["x0".toList, "x0".toList,
    (nameLabel index).toList ++ "@PAGEOFF".toList]).map Stmt.instr = _
  rw [readAdd, hreg, beforeSuffix_append, Option.bind_eq_bind, Option.bind_some,
    Option.bind_eq_bind, Option.bind_some, Option.bind_eq_bind, Option.bind_some,
    readSymbol_toList hsymbol]
  rfl

lemma readLine_name (name : String) :
    readLine ("    .asciz \x22" ++ escaped name ++ "\x22") = some (.asciz name) := by
  rw [readLine_asciz (readLiteral_escaped name), String.ofList_toList]

lemma reads_directAssembly (h : ∀ name ∈ names, IsIdentifier name) :
    Reads (directAssembly names) (directStmts names) := by
  have hhead : Reads [.other ".text", .other ".p2align 2", .other "",
      .other "// ABI-compatible first-pass tail calls.", .other ""] headStmts := by decide
  refine hhead.append (.flatMap fun name hname => ?_)
  have hid := h name ((sortedStrings_perm names).mem_iff.mp hname)
  exact reads_stub hid (.cons (readLine_b hid.isSymbol_asmName) reads_nil)

lemma reads_trapAssembly (h : ∀ name ∈ names, IsIdentifier name) :
    Reads (trapAssembly names) (trapStmts names) := by
  have hhead : Reads [.other ".text", .other ".p2align 2", .other "",
      .other "// Unsupported imports fail fast and print their symbol name.", .other ""]
      headStmts := by decide
  have hsection : Reads [.other ".section __TEXT,__cstring,cstring_literals", .other ""]
      [.cstrings, .blank] := by decide
  refine ((hhead.append (.flatMap fun p hp => ?_)).append hsection).append
    (.flatMap fun p _ => ?_)
  · have hmem : p.1 ∈ sortedStrings names := List.fst_mem_of_mem_zipIdx hp
    have hid := h p.1 ((sortedStrings_perm names).mem_iff.mp hmem)
    exact reads_stub hid (.cons (readLine_adrp p.2) (.cons (readLine_addPageoff p.2)
      (.cons (by decide) reads_nil)))
  · exact .cons (readLine_label (isSymbol_nameLabel p.2)) (.cons (readLine_name p.1)
      (.cons (by decide) reads_nil))

/-! ### Assembling the files -/

lemma filterMap_label?_stubStmts (name : String) (code : List Instr) :
    (stubStmts name code).filterMap Stmt.label? = [shimLabel name] := by
  have hcode : (code.map Stmt.instr).filterMap Stmt.label? = [] := by
    rw [List.filterMap_map, List.filterMap_eq_nil_iff]
    exact fun _ _ => rfl
  simp [stubStmts, List.filterMap_cons, Stmt.label?, hcode]

lemma foldlM_section?_stubStmts (name : String) (code : List Instr) :
    (stubStmts name code).foldlM Stmt.section? false = some false := by
  have hcode : ((code.map Stmt.instr).foldlM Stmt.section? false) = some false := by
    induction code with
    | nil => rfl
    | cons i code ih => exact ih
  show ((code.map Stmt.instr ++ [Stmt.blank]).foldlM Stmt.section? false) = _
  rw [List.foldlM_append, hcode]
  rfl

/-- The labels of the stubs come once. -/
lemma nodup_labels (hnodup : names.Nodup) : ((sortedStrings names).map shimLabel).Nodup :=
  (List.nodup_map_iff shimLabel_injective).mpr ((sortedStrings_perm names).nodup_iff.mpr hnodup)

/-- `direct.S` can be assembled. -/
lemma exists_assemble_directAssembly (hid : ∀ name ∈ names, IsIdentifier name)
    (hnodup : names.Nodup) :
    ∃ o, assemble ((directAssembly names).map AsmLine.text) = some o := by
  have hreads : ((directAssembly names).map AsmLine.text).mapM readLine = _ :=
    reads_directAssembly hid
  rw [assemble, hreads, Option.bind_some]
  have hsection : (directStmts names).foldlM Stmt.section? false = some false := by
    rw [directStmts, List.foldlM_append]
    exact foldlM_section?_flatMap fun name _ => foldlM_section?_stubStmts name _
  refine exists_assembleStmts hsection ?_
  have hlabels : (directStmts names).filterMap Stmt.label? =
      (sortedStrings names).map shimLabel := by
    rw [directStmts, List.filterMap_append, List.filterMap_flatMap]
    simp only [filterMap_label?_stubStmts, ← List.map_eq_flatMap]
    rfl
  rw [hlabels]
  exact nodup_labels hnodup

/-- `trap.S` can be assembled. -/
lemma exists_assemble_trapAssembly (hid : ∀ name ∈ names, IsIdentifier name)
    (hnodup : names.Nodup) :
    ∃ o, assemble ((trapAssembly names).map AsmLine.text) = some o := by
  have hreads : ((trapAssembly names).map AsmLine.text).mapM readLine = _ :=
    reads_trapAssembly hid
  rw [assemble, hreads, Option.bind_some]
  -- the instructions are in the text section, the strings behind them in another
  have hsection : (trapStmts names).foldlM Stmt.section? false = some true := by
    have hstubs : ((sortedStrings names).zipIdx.flatMap fun p =>
        stubStmts p.1 (trapCode p.2)).foldlM Stmt.section? false = some false :=
      foldlM_section?_flatMap fun p _ => foldlM_section?_stubStmts p.1 _
    have hstrings : ((sortedStrings names).zipIdx.flatMap stringStmts).foldlM Stmt.section? true =
        some true := foldlM_section?_flatMap fun p _ => rfl
    simp only [trapStmts, List.foldlM_append]
    show ((((sortedStrings names).zipIdx.flatMap fun p =>
        stubStmts p.1 (trapCode p.2)).foldlM Stmt.section? false).bind _).bind _ = _
    rw [hstubs]
    exact hstrings
  refine exists_assembleStmts hsection ?_
  have hlabels : (trapStmts names).filterMap Stmt.label? =
      (sortedStrings names).map shimLabel ++
        (sortedStrings names).zipIdx.map fun p => nameLabel p.2 := by
    have hstring : ∀ p : String × ℕ, (stringStmts p).filterMap Stmt.label? = [nameLabel p.2] :=
      fun p => rfl
    have hfst : ((sortedStrings names).zipIdx.map fun p => shimLabel p.1) =
        (sortedStrings names).map shimLabel := by
      conv_rhs => rw [← List.zipIdx_map_fst 0 (sortedStrings names), List.map_map]
      rfl
    simp only [trapStmts, List.filterMap_append, List.filterMap_flatMap,
      filterMap_label?_stubStmts, hstring, ← List.map_eq_flatMap, hfst]
    show [] ++ _ ++ [] ++ _ = _
    rw [List.nil_append, List.append_nil]
  rw [hlabels, List.nodup_append]
  refine ⟨nodup_labels hnodup, ?_, ?_⟩
  -- the labels of the strings are numbered, and no import has such a label
  · have hsnd : ((sortedStrings names).zipIdx.map Prod.snd).Nodup := by
      rw [List.zipIdx_map_snd]
      exact List.nodup_range'
    have hmap := (List.nodup_map_iff nameLabel_injective).mpr hsnd
    rwa [List.map_map] at hmap
  · intro s hs s' hs' heq
    obtain ⟨name, -, rfl⟩ := List.mem_map.mp hs
    obtain ⟨p, -, rfl⟩ := List.mem_map.mp hs'
    exact nameLabel_ne_shimLabel p.2 name heq.symm

/-! ### The code in the files -/

lemma infix_flatMap {α β : Type} {xs : List α} {x : α} (hx : x ∈ xs) (f : α → List β) :
    f x <:+: xs.flatMap f := by
  obtain ⟨pre, post, rfl⟩ := List.append_of_mem hx
  exact ⟨pre.flatMap f, post.flatMap f, by simp⟩

lemma code_infix_stubStmts (name : String) (code : List Instr) :
    .label (shimLabel name) :: code.map .instr <:+: stubStmts name code :=
  ⟨[.globl (shimLabel name)], [.blank], rfl⟩

/-- The code of the stub of a direct import. -/
lemma block_directAssembly {o : Object} (hid : ∀ name ∈ names, IsIdentifier name)
    (ho : assemble ((directAssembly names).map AsmLine.text) = some o) (hname : name ∈ names) :
    o.Block (shimLabel name) (directCode name) := by
  have hreads : ((directAssembly names).map AsmLine.text).mapM readLine = _ :=
    reads_directAssembly hid
  rw [assemble, hreads, Option.bind_some] at ho
  refine Object.block_of_infix ho (by simp [directCode]) ?_
  have hmem := (sortedStrings_perm names).mem_iff.mpr hname
  calc Stmt.label (shimLabel name) :: (directCode name).map .instr
      <:+: stubStmts name (directCode name) := code_infix_stubStmts name _
    _ <:+: (sortedStrings names).flatMap fun name => stubStmts name (directCode name) :=
      infix_flatMap hmem fun name => stubStmts name (directCode name)
    _ <:+: directStmts names := (List.suffix_append _ _).isInfix

/-- The code of the stub of an unsupported import, and the string that it is about. -/
lemma block_trapAssembly {o : Object} (hid : ∀ name ∈ names, IsIdentifier name)
    (ho : assemble ((trapAssembly names).map AsmLine.text) = some o) (hname : name ∈ names) :
    ∃ index, o.Block (shimLabel name) (trapCode index) ∧ (nameLabel index, name) ∈ o.strings := by
  have hreads : ((trapAssembly names).map AsmLine.text).mapM readLine = _ :=
    reads_trapAssembly hid
  rw [assemble, hreads, Option.bind_some] at ho
  obtain ⟨index, hindex⟩ := List.mem_iff_getElem?.mp ((sortedStrings_perm names).mem_iff.mpr hname)
  have hmem : (name, index) ∈ (sortedStrings names).zipIdx :=
    List.mk_mem_zipIdx_iff_getElem?.mpr hindex
  refine ⟨index, Object.block_of_infix ho (by simp [trapCode]) ?_,
    Object.string_of_infix ho ?_⟩
  · have hstub := infix_flatMap hmem fun p => stubStmts p.1 (trapCode p.2)
    have hcode := (code_infix_stubStmts name (trapCode index)).trans hstub
    rw [trapStmts, List.append_assoc, List.append_assoc]
    exact hcode.trans ((List.prefix_append _ _).isInfix.trans (List.suffix_append _ _).isInfix)
  · have hstring : [.label (nameLabel index), .asciz name] <:+: stringStmts (name, index) :=
      ⟨[], [.blank], rfl⟩
    exact (hstring.trans (infix_flatMap hmem stringStmts)).trans (List.suffix_append _ _).isInfix

/-! ### Running the stubs -/

section

variable {P : Program} {s : State} {base : BitVec 64} {o : Object}

/-- The stub of a direct import is one jump. -/
lemma run_direct (h : P.Has s.pc (directCode name)) :
    P.run 1 s = some { s with pc := P.place (asmName name) } := by
  have hblock : P.Has s.pc ([] ++ [.b (asmName name)]) := h
  exact Program.run_block hblock (by simp)

/-- The stub of an unsupported import puts the address of the name into the first register for
arguments. -/
lemma run_trap (h : P.Has s.pc (trapCode index)) :
    P.run 3 s = some { s with
      x := Function.update s.x 0 (P.place (nameLabel index))
      pc := P.place (asmName "a2i_unimplemented") } := by
  have hblock : P.Has s.pc ([.adrp 0 (nameLabel index), .addPageoff 0 0 (nameLabel index)] ++
      [.b (asmName "a2i_unimplemented")]) := h
  refine (Program.run_block hblock (by simp [Instr.Sequential])).trans (congrArg some ?_)
  simp [exec, State.next, State.setX, page_add]

end

/-- **The generated files assemble, and their stubs do what they are for.**  Wherever a linker puts
the two objects, the stub of a direct import is at the function of the host after one step, and
nothing else has changed; the stub of an unsupported import is at `a2i_unimplemented` after three
steps, with the address of the NUL-terminated name in `x0`, and nothing else has changed. -/
theorem stubs_run {direct trap : List String} (hdirect : ∀ name ∈ direct, IsIdentifier name)
    (htrap : ∀ name ∈ trap, IsIdentifier name) (hd : direct.Nodup) (ht : trap.Nodup) :
    ∃ d t, assemble ((directAssembly direct).map AsmLine.text) = some d ∧
      assemble ((trapAssembly trap).map AsmLine.text) = some t ∧
      ∀ (P : Program) (s : State) (base base' : BitVec 64), d.LoadedAt P s.memory base →
        t.LoadedAt P s.memory base' →
        (∀ name ∈ direct, s.pc = P.place (shimLabel name) →
          P.run 1 s = some { s with pc := P.place (asmName name) }) ∧
        ∀ name ∈ trap, s.pc = P.place (shimLabel name) →
          ∃ a, s.memory.HasCString a.toNat (utf8 name) ∧
            P.run 3 s = some { s with
              x := Function.update s.x 0 a
              pc := P.place (asmName "a2i_unimplemented") } := by
  obtain ⟨d, hassembled⟩ := exists_assemble_directAssembly hdirect hd
  obtain ⟨t, hassembled'⟩ := exists_assemble_trapAssembly htrap ht
  refine ⟨d, t, hassembled, hassembled', fun P s base base' hload hload' => ⟨?_, ?_⟩⟩
  · intro name hname hpc
    refine run_direct ?_
    rw [hpc]
    exact hload.has (block_directAssembly hdirect hassembled hname)
  · intro name hname hpc
    obtain ⟨index, hblock, hstring⟩ := block_trapAssembly htrap hassembled' hname
    refine ⟨P.place (nameLabel index), hload'.strings _ hstring, run_trap ?_⟩
    rw [hpc]
    exact hload'.has hblock

/-- The two objects for the imports `free` and `zz`, at `0x1000` and `0x2000`. -/
def smallProgram : Program where
  fetch a :=
    if a = 0x1000 then some (.b "_free")
    else if a = 0x2000 then some (.adrp 0 "L_a2i_name_0")
    else if a = 0x2004 then some (.addPageoff 0 0 "L_a2i_name_0")
    else if a = 0x2008 then some (.b "_a2i_unimplemented")
    else none
  place s :=
    if s = "_a2i_free" then 0x1000
    else if s = "_a2i_zz" then 0x2000
    else if s = "L_a2i_name_0" then 0x3010
    else if s = "_free" then 0x4000
    else 0x5000

/-- At the stub of `zz`, with its name in memory. -/
def smallState : State where
  x _ := 7
  sp := 0x8000
  d _ := 0
  memory a := if a = 0x3010 ∨ a = 0x3011 then 0x7A else 0
  pc := 0x2000

theorem stubs_run_small :
    (∃ a, smallState.memory.HasCString a.toNat (utf8 "zz") ∧ smallProgram.run 3 smallState =
      some { smallState with x := Function.update smallState.x 0 a, pc := 0x5000 }) ∧
    smallProgram.run 1 { smallState with pc := 0x1000 } =
      some { smallState with pc := 0x4000 } := by
  obtain ⟨d, t, hd, ht, hrun⟩ := @stubs_run ["free"] ["zz"] (by decide)
    (by decide) (by decide) (by decide)
  have hd' : assemble ((directAssembly ["free"]).map AsmLine.text) =
      some ⟨[.b "_free"], [("_a2i_free", 0)], []⟩ := by decide +kernel
  have ht' : assemble ((trapAssembly ["zz"]).map AsmLine.text) =
      some ⟨[.adrp 0 "L_a2i_name_0", .addPageoff 0 0 "L_a2i_name_0", .b "_a2i_unimplemented"],
        [("_a2i_zz", 0)], [("L_a2i_name_0", "zz")]⟩ := by decide +kernel
  obtain rfl := Option.some.inj (hd.symm.trans hd')
  obtain rfl := Option.some.inj (ht.symm.trans ht')
  constructor
  · exact (hrun smallProgram smallState 0x1000 0x2000 ⟨by decide, by decide, by decide⟩
      ⟨by decide, by decide, by decide +kernel⟩).2 "zz" (by decide) rfl
  · exact (hrun smallProgram { smallState with pc := 0x1000 } 0x1000 0x2000
      ⟨by decide, by decide, by decide⟩ ⟨by decide, by decide, by decide +kernel⟩).1 "free"
      (by decide) rfl

end

end Apk2Ios
