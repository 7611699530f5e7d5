import Apk2Ios.Lib.Arm64
import Apk2Ios.Lib.Utf8

/-!
# Assembly files

An assembler reads a file line by line into statements and collects from them the code, the
strings and the labels of an object.  A linker places the code and the strings and looks up
every symbol: first among the labels of the object, then elsewhere.
-/

namespace Apk2Ios.Arm64

open Lib

/-! ### Tokens -/

/-- A blank or a comma. -/
def isSeparator (c : Char) : Bool := c = ' ' || c = ','

/-- A token, unless it is empty. -/
def pushToken : List Char → List (List Char) → List (List Char)
  | [], ts => ts
  | t, ts => t :: ts

/-- The characters up to the first separator, and the tokens behind it. -/
def splitTokens : List Char → List Char × List (List Char)
  | [] => ([], [])
  | c :: cs =>
    let (t, ts) := splitTokens cs
    if isSeparator c then ([], pushToken t ts) else (c :: t, ts)

/-- The tokens of a line. -/
def tokens (cs : List Char) : List (List Char) :=
  pushToken (splitTokens cs).1 (splitTokens cs).2

/-- The symbol has characters, and none of them separates tokens. -/
def IsToken (cs : List Char) : Prop := cs ≠ [] ∧ ∀ c ∈ cs, isSeparator c = false

lemma splitTokens_append {u : List Char} (hu : ∀ c ∈ u, isSeparator c = false) (cs : List Char) :
    splitTokens (u ++ cs) = (u ++ (splitTokens cs).1, (splitTokens cs).2) := by
  induction u with
  | nil => rfl
  | cons c u ih =>
    obtain ⟨hc, hu⟩ := List.forall_mem_cons.mp hu
    rw [List.cons_append, splitTokens, ih hu]
    simp [hc]

lemma tokens_of_isToken {u : List Char} (hu : IsToken u) : tokens u = [u] := by
  have hsplit := splitTokens_append hu.2 []
  rw [List.append_nil] at hsplit
  rw [tokens, hsplit]
  obtain ⟨c, cs, rfl⟩ := List.exists_cons_of_ne_nil hu.1
  simp [splitTokens, pushToken]

lemma pushToken_append (t : List Char) (ts rest : List (List Char)) :
    pushToken t (ts ++ rest) = pushToken t ts ++ rest := by
  cases t <;> rfl

lemma splitTokens_separator {u : List Char} {c : Char} (hc : isSeparator c = true)
    (cs : List Char) :
    splitTokens (u ++ c :: cs) = ((splitTokens u).1, (splitTokens u).2 ++ tokens cs) := by
  induction u with
  | nil => simp [tokens, splitTokens, hc]
  | cons a u ih =>
    by_cases ha : isSeparator a = true
    · simp [splitTokens, ih, ha, pushToken_append]
    · simp [splitTokens, ih, ha]

/-- A blank or a comma separates tokens. -/
lemma tokens_append {u : List Char} {c : Char} (hc : isSeparator c = true) (cs : List Char) :
    tokens (u ++ c :: cs) = tokens u ++ tokens cs := by
  rw [tokens, splitTokens_separator hc, pushToken_append, ← tokens]

/-! ### Statements -/

/-- The number of a string of decimal digits. -/
def readNat (cs : List Char) : Option ℕ :=
  if cs ≠ [] ∧ cs.all Char.isDigit then
    some (cs.foldl (fun n c => 10 * n + (c.toNat - '0'.toNat)) 0)
  else none

/-- The number of a register: one of the letters, then a number below the bound. -/
def readReg (letter : Char) (n : ℕ) : List Char → Option (Fin n)
  | [] => none
  | c :: cs =>
    if c = letter then (readNat cs).bind fun k => if h : k < n then some ⟨k, h⟩ else none else none

/-- `#imm`. -/
def readImm : List Char → Option ℕ
  | '#' :: cs => readNat cs
  | _ => none

/-- The characters of symbols. -/
def isSymbolChar (c : Char) : Bool := c.isAlphanum || c = '_' || c = '.' || c = '$'

/-- The characters are those of a symbol. -/
def IsSymbol : List Char → Prop
  | [] => False
  | c :: cs => c.isDigit = false ∧ (c :: cs).all isSymbolChar = true

instance : DecidablePred IsSymbol
  | [] => inferInstanceAs (Decidable False)
  | _ :: _ => inferInstanceAs (Decidable (_ ∧ _))

def readSymbol (cs : List Char) : Option String :=
  if IsSymbol cs then some (String.ofList cs) else none

/-- `[xn`, the first half of an address. -/
def readBase : List Char → Option (Fin 31)
  | '[' :: cs => readReg 'x' 31 cs
  | _ => none

/-- `#off]`, the second half of an address. -/
def readOffset (cs : List Char) : Option ℕ :=
  if cs.getLast? = some ']' then readImm cs.dropLast else none

/-- The text in front of a suffix. -/
def beforeSuffix (suffix cs : List Char) : Option (List Char) :=
  if suffix <:+ cs then some (cs.take (cs.length - suffix.length)) else none

lemma beforeSuffix_append (suffix cs : List Char) :
    beforeSuffix suffix (cs ++ suffix) = some cs := by
  rw [beforeSuffix, if_pos (List.suffix_append cs suffix), List.length_append,
    Nat.add_sub_cancel_right, List.take_left' rfl]

def readB : List (List Char) → Option Instr
  | [target] => (readSymbol target).map .b
  | _ => none

def readRet : List (List Char) → Option Instr
  | [] => some .ret
  | _ => none

def readAdrp : List (List Char) → Option Instr
  | [rd, target] => do
    let rd ← readReg 'x' 31 rd
    let target ← beforeSuffix "@PAGE".toList target
    return .adrp rd (← readSymbol target)
  | _ => none

def readAdd : List (List Char) → Option Instr
  | [rd, rn, target] => do
    let rd ← readReg 'x' 31 rd
    let rn ← readReg 'x' 31 rn
    let target ← beforeSuffix "@PAGEOFF".toList target
    return .addPageoff rd rn (← readSymbol target)
  | _ => none

def readStp : List (List Char) → Option Instr
  | [rt, ru, base, off] => do
    let rn ← readBase base
    let off ← readOffset off
    match readReg 'x' 31 rt, readReg 'x' 31 ru with
    | some rt, some ru => return .stpX rt ru rn off
    | _, _ =>
      let rt ← readReg 'd' 32 rt
      let ru ← readReg 'd' 32 ru
      return .stpD rt ru rn off
  | _ => none

def readStr : List (List Char) → Option Instr
  | [rt, base, off] => do
    let rt ← readReg 'x' 31 rt
    let rn ← readBase base
    let off ← readOffset off
    return .str rt rn off
  | _ => none

def readMov : List (List Char) → Option Instr
  | [rd, src] =>
    if src = "sp".toList then (readReg 'x' 31 rd).map .movSp
    else do
      let rd ← readReg 'w' 31 rd
      let imm ← readImm src
      return .movW rd imm
  | _ => none

/-- The instruction of a line with these tokens. -/
def readInstr : List (List Char) → Option Instr
  | [] => none
  | name :: operands => match String.ofList name with
    | "b" => readB operands
    | "ret" => readRet operands
    | "adrp" => readAdrp operands
    | "add" => readAdd operands
    | "stp" => readStp operands
    | "str" => readStr operands
    | "mov" => readMov operands
    | _ => none

/-- The characters of a string literal whose opening quote has been read, up to the closing
quote at the end of the line.  Of the escapes, those of quotes and backslashes are known. -/
def readLiteral : List Char → Option (List Char)
  | [] => none
  | '\x22' :: cs => if cs = [] then some [] else none
  | '\x5C' :: c :: cs =>
    if c = '\x5C' ∨ c = '\x22' then (readLiteral cs).map (c :: ·) else none
  | c :: cs => (readLiteral cs).map (c :: ·)

/-- A line of an assembly file. -/
inductive Stmt where
  | blank
  | text
  | cstrings
  | align (n : ℕ)
  | globl (symbol : String)
  | label (symbol : String)
  | asciz (s : String)
  | instr (i : Instr)
deriving DecidableEq, Repr

/-- The statement of a line of one token. -/
def readWord (t : List Char) : Option Stmt :=
  if t = ".text".toList then some .text
  else match beforeSuffix [':'] t with
    | some symbol => (readSymbol symbol).map .label
    | none => (readInstr [t]).map .instr

/-- The statement of a line with these tokens. -/
def readTokens : List (List Char) → Option Stmt
  | [] => some .blank
  | [t] => readWord t
  | ts => match ts.map String.ofList with
    | [".section", "__TEXT", "__cstring", "cstring_literals"] => some .cstrings
    | [".p2align", n] => (readNat n.toList).map .align
    | [".globl", symbol] => (readSymbol symbol.toList).map .globl
    | _ => (readInstr ts).map .instr

/-- The statement of a line. -/
def readLine (line : String) : Option Stmt :=
  let cs := line.toList.dropWhile (· = ' ')
  if "//".toList <+: cs then some .blank
  else if ".asciz \x22".toList <+: cs then
    (readLiteral (cs.drop 8)).map fun s => .asciz (String.ofList s)
  else readTokens (tokens cs)

/-! ### Lines -/

section

variable {u : String} {cs : List Char}

lemma IsSymbol.all (h : IsSymbol cs) : ∀ c ∈ cs, isSymbolChar c = true := by
  cases cs with
  | nil => exact h.elim
  | cons c cs => exact List.all_eq_true.mp h.2

lemma IsSymbol.ne_nil (h : IsSymbol cs) : cs ≠ [] := by
  rintro rfl
  exact h

lemma IsSymbol.append (h : IsSymbol cs) {ds : List Char} (hds : ds.all isSymbolChar = true) :
    IsSymbol (cs ++ ds) := by
  obtain ⟨c, rest, rfl⟩ := List.exists_cons_of_ne_nil h.ne_nil
  have hall : ((c :: rest) ++ ds).all isSymbolChar = true := by
    rw [List.all_append, h.2, hds, Bool.and_true]
  exact ⟨h.1, hall⟩

/-- Separators are not characters of symbols. -/
lemma isSeparator_of_isSymbolChar {c : Char} (h : isSymbolChar c = true) :
    isSeparator c = false := by
  by_contra hc
  have hc' : c = ' ' ∨ c = ',' := by
    simpa [isSeparator, or_iff_not_imp_left] using hc
  rcases hc' with rfl | rfl
  · exact absurd h (by decide)
  · exact absurd h (by decide)

lemma IsSymbol.isToken (h : IsSymbol cs) : IsToken cs :=
  ⟨h.ne_nil, fun c hc => isSeparator_of_isSymbolChar (h.all c hc)⟩

/-- A symbol with a suffix is one token. -/
lemma IsSymbol.isToken_append (h : IsSymbol cs) {suffix : List Char}
    (hsuffix : suffix.any isSeparator = false) : IsToken (cs ++ suffix) := by
  refine ⟨by simp [h.ne_nil], fun c hc => ?_⟩
  rcases List.mem_append.mp hc with hc | hc
  · exact h.isToken.2 c hc
  · exact Bool.eq_false_iff.mpr (List.any_eq_false.mp hsuffix c hc)

lemma readSymbol_toList (h : IsSymbol u.toList) : readSymbol u.toList = some u := by
  rw [readSymbol, if_pos h, String.ofList_toList]

/-- A line that is neither a comment nor a string is read by its tokens. -/
lemma readLine_eq {line : String} (hcs : line.toList.dropWhile (· = ' ') = cs)
    (hcomment : ¬ "//".toList <+: cs) (hstring : ¬ ".asciz \x22".toList <+: cs) :
    readLine line = readTokens (tokens cs) := by
  simp only [readLine, hcs, if_neg hcomment, if_neg hstring]

lemma readLine_globl (h : IsSymbol u.toList) :
    readLine (".globl " ++ u) = some (.globl u) := by
  have hline : (".globl " ++ u).toList.dropWhile (· = ' ') =
      ".globl".toList ++ ' ' :: u.toList := by
    simp
  rw [readLine_eq hline (by simp) (by simp), tokens_append rfl, tokens_of_isToken h.isToken]
  show readTokens [".globl".toList, u.toList] = _
  simp [readTokens, readSymbol_toList h]

lemma readLine_label (h : IsSymbol u.toList) : readLine (u ++ ":") = some (.label u) := by
  have hhead : (u ++ ":").toList.dropWhile (· = ' ') = u.toList ++ [':'] := by
    rw [String.toList_append]
    obtain ⟨c, cs, hu⟩ := List.exists_cons_of_ne_nil h.ne_nil
    have hc : c ≠ ' ' := by
      rintro rfl
      exact absurd (h.all ' ' (by simp [hu])) (by decide)
    simp [hu, hc]
  have htoken : IsToken (u.toList ++ [':']) := h.isToken_append (by decide)
  have hmem : ∀ d : Char, isSymbolChar d = false → d ≠ ':' → ∀ l : List Char,
      l <+: u.toList ++ [':'] → d ∉ l := by
    intro d hd hne l hl hdl
    rcases List.mem_append.mp (hl.subset hdl) with hu | hu
    · exact absurd (h.all d hu) (by simp [hd])
    · exact hne (List.mem_singleton.mp hu)
  rw [readLine_eq hhead (fun hl => hmem '/' (by decide) (by decide) _ hl (by decide))
    (fun hl => hmem ' ' (by decide) (by decide) _ hl (by decide)), tokens_of_isToken htoken]
  have hne : u.toList ++ [':'] ≠ ".text".toList := by
    intro heq
    have hlast := congrArg List.getLast? heq
    simp at hlast
  rw [readTokens, readWord, if_neg hne, beforeSuffix_append]
  simp [readSymbol_toList h]

lemma readLine_b (h : IsSymbol u.toList) : readLine ("    b " ++ u) = some (.instr (.b u)) := by
  have hhead : ("    b " ++ u).toList.dropWhile (· = ' ') = "b".toList ++ ' ' :: u.toList := by
    simp
  rw [readLine_eq hhead (by simp) (by simp), tokens_append rfl, tokens_of_isToken h.isToken]
  show readTokens ["b".toList, u.toList] = _
  simp [readTokens, readInstr, readB, readSymbol_toList h]

/-- A string directive, when the literal between the quotes can be read. -/
lemma readLine_asciz {literal : String} (h : readLiteral (literal.toList ++ ['\x22']) = some cs) :
    readLine ("    .asciz \x22" ++ literal ++ "\x22") = some (.asciz (String.ofList cs)) := by
  have hhead : ("    .asciz \x22" ++ literal ++ "\x22").toList.dropWhile (· = ' ') =
      ".asciz \x22".toList ++ (literal.toList ++ ['\x22']) := by simp
  simp only [readLine, hhead]
  rw [if_neg (by simp), if_pos (List.prefix_append _ _)]
  show (readLiteral (literal.toList ++ ['\x22'])).map _ = _
  rw [h, Option.map_some]

end

/-! ### Objects -/

/-- What is collected from an assembly file: the code, the labels of instructions with the index
of the instruction, and the labels of strings with the string. -/
structure Object where
  code : List Instr := []
  labels : List (String × ℕ) := []
  strings : List (String × String) := []
deriving DecidableEq, Repr

/-- An object under way: the current section, and the labels that wait for a string. -/
structure Assembly extends Object where
  inStrings : Bool := false
  pending : List String := []

namespace Assembly

/-- The labels so far. -/
def defined (a : Assembly) : List String :=
  a.labels.map Prod.fst ++ a.strings.map Prod.fst ++ a.pending

/-- Take a statement.  A label can be defined once; instructions stand in the section of code,
strings in that of strings. -/
def take (a : Assembly) : Stmt → Option Assembly
  | .blank | .globl _ => some a
  | .text => some { a with inStrings := false }
  | .cstrings => some { a with inStrings := true }
  | .align n => if n ≤ 2 ∧ a.inStrings = false then some a else none
  | .label s =>
    if s ∈ a.defined then none
    else if a.inStrings then some { a with pending := a.pending ++ [s] }
    else some { a with labels := a.labels ++ [(s, a.code.length)] }
  | .asciz s =>
    if a.inStrings then
      some { a with strings := a.strings ++ a.pending.map (·, s), pending := [] }
    else none
  | .instr i => if a.inStrings then none else some { a with code := a.code ++ [i] }

/-- Take statements in order. -/
def takeAll (a : Assembly) (ss : List Stmt) : Option Assembly := ss.foldlM take a

end Assembly

/-- The label of a statement. -/
def Stmt.label? : Stmt → Option String
  | .label s => some s
  | _ => none

/-- The section behind a statement: whether it is that of strings.  Statements stand in the
section that they are for. -/
def Stmt.section? (inStrings : Bool) : Stmt → Option Bool
  | .blank | .globl _ | .label _ => some inStrings
  | .text => some false
  | .cstrings => some true
  | .align n => if n ≤ 2 ∧ inStrings = false then some inStrings else none
  | .asciz _ => if inStrings then some inStrings else none
  | .instr _ => if inStrings then none else some inStrings

/-- The object of a list of statements. -/
def assembleStmts (ss : List Stmt) : Option Object :=
  (Assembly.takeAll {} ss).map Assembly.toObject

/-- The object of an assembly file. -/
def assemble (lines : List String) : Option Object :=
  (lines.mapM readLine).bind assembleStmts

section

variable {a a' : Assembly} {s t : String} {stmt : Stmt} {is : List Instr} {ss ts : List Stmt}
  {o : Object}

namespace Assembly

lemma takeAll_cons : a.takeAll (stmt :: ss) = (a.take stmt).bind fun a' => a'.takeAll ss := rfl

lemma takeAll_append : a.takeAll (ss ++ ts) = (a.takeAll ss).bind fun a' => a'.takeAll ts :=
  List.foldlM_append

/-- The second object has all that the first one has, at the same places. -/
structure Extends (o o' : Object) : Prop where
  code : o.code <+: o'.code
  labels : o.labels <+: o'.labels
  strings : o.strings <+: o'.strings

lemma Extends.refl (o : Object) : Extends o o :=
  ⟨List.prefix_refl _, List.prefix_refl _, List.prefix_refl _⟩

lemma Extends.trans {o₁ o₂ o₃ : Object} (h : Extends o₁ o₂) (h' : Extends o₂ o₃) : Extends o₁ o₃ :=
  ⟨h.code.trans h'.code, h.labels.trans h'.labels, h.strings.trans h'.strings⟩

/-- A statement adds at the end. -/
lemma extends_of_take (h : a.take stmt = some a') : Extends a.toObject a'.toObject := by
  cases stmt <;> simp only [take] at h
  case blank | globl | text | cstrings =>
    obtain rfl := Option.some.inj h
    exact Extends.refl _
  case align =>
    obtain ⟨-, h⟩ := Option.ite_none_right_eq_some.mp h
    obtain rfl := Option.some.inj h
    exact Extends.refl _
  case label =>
    obtain ⟨-, h⟩ := Option.ite_none_left_eq_some.mp h
    split at h
    · obtain rfl := Option.some.inj h
      exact Extends.refl _
    · obtain rfl := Option.some.inj h
      exact ⟨List.prefix_refl _, List.prefix_append _ _, List.prefix_refl _⟩
  case asciz =>
    obtain ⟨-, h⟩ := Option.ite_none_right_eq_some.mp h
    obtain rfl := Option.some.inj h
    exact ⟨List.prefix_refl _, List.prefix_refl _, List.prefix_append _ _⟩
  case instr =>
    obtain ⟨-, h⟩ := Option.ite_none_left_eq_some.mp h
    obtain rfl := Option.some.inj h
    exact ⟨List.prefix_append _ _, List.prefix_refl _, List.prefix_refl _⟩

/-- Statements add at the end. -/
lemma extends_of_takeAll (h : a.takeAll ss = some a') : Extends a.toObject a'.toObject := by
  induction ss generalizing a with
  | nil =>
    obtain rfl := Option.some.inj h
    exact Extends.refl _
  | cons stmt ss ih =>
    rw [takeAll_cons] at h
    obtain ⟨b, hb, h⟩ := Option.bind_eq_some_iff.mp h
    exact (extends_of_take hb).trans (ih h)

/-- A statement is taken when it stands in its section and its label is new. -/
lemma exists_take {b : Bool} (hsection : stmt.section? a.inStrings = some b)
    (hlabel : (a.defined ++ stmt.label?.toList).Nodup) :
    ∃ a', a.take stmt = some a' ∧ a'.inStrings = b ∧
      a'.defined.Perm (a.defined ++ stmt.label?.toList) := by
  cases stmt <;> simp only [Stmt.section?] at hsection
  case blank | globl | text | cstrings =>
    exact ⟨_, rfl, Option.some.inj hsection, by simp [defined, Stmt.label?]⟩
  case align n =>
    obtain ⟨hn, hb⟩ := Option.ite_none_right_eq_some.mp hsection
    exact ⟨a, if_pos hn, Option.some.inj hb, by simp [Stmt.label?]⟩
  case label s =>
    have hnew : s ∉ a.defined := fun hs =>
      (List.nodup_append.mp hlabel).2.2 s hs s (List.mem_singleton_self s) rfl
    by_cases hstrings : a.inStrings = true
    · refine ⟨{ a with pending := a.pending ++ [s] }, by rw [take, if_neg hnew, if_pos hstrings],
        Option.some.inj hsection, ?_⟩
      simp [defined, Stmt.label?]
    · refine ⟨{ a with labels := a.labels ++ [(s, a.code.length)] },
        by rw [take, if_neg hnew, if_neg hstrings], Option.some.inj hsection, ?_⟩
      simp only [defined, Stmt.label?, Option.toList_some, List.map_append, List.append_assoc]
      rw [← List.append_assoc (a.strings.map Prod.fst)]
      exact List.perm_append_comm.append_left _
  case asciz t =>
    obtain ⟨hstrings, hb⟩ := Option.ite_none_right_eq_some.mp hsection
    refine ⟨_, if_pos hstrings, Option.some.inj hb, ?_⟩
    simp [defined, Stmt.label?, Function.comp_def]
  case instr i =>
    obtain ⟨hstrings, hb⟩ := Option.ite_none_left_eq_some.mp hsection
    exact ⟨_, if_neg hstrings, Option.some.inj hb, by simp [defined, Stmt.label?]⟩

/-- Statements are taken when they stand in their sections and no label comes twice. -/
lemma exists_takeAll {b : Bool} (hsection : ss.foldlM Stmt.section? a.inStrings = some b)
    (hlabels : (a.defined ++ ss.filterMap Stmt.label?).Nodup) :
    ∃ a', a.takeAll ss = some a' := by
  induction ss generalizing a with
  | nil => exact ⟨a, rfl⟩
  | cons stmt ss ih =>
    obtain ⟨c, hc, hsection⟩ := Option.bind_eq_some_iff.mp hsection
    have hfilter : (stmt :: ss).filterMap Stmt.label? =
        stmt.label?.toList ++ ss.filterMap Stmt.label? := by
      cases h : stmt.label? <;> simp [h]
    rw [hfilter, ← List.append_assoc] at hlabels
    obtain ⟨a₁, htake, rfl, hdefined⟩ := exists_take hc (List.nodup_append.mp hlabels).1
    obtain ⟨a', ha'⟩ := ih hsection (((hdefined.append_right _).nodup_iff).mpr hlabels)
    exact ⟨a', by rw [takeAll_cons, htake, Option.bind_some, ha']⟩

/-- Instructions become code. -/
lemma takeAll_instr (h : a.takeAll (is.map .instr) = some a') :
    a'.code = a.code ++ is ∧ (is ≠ [] → a.inStrings = false) := by
  induction is generalizing a with
  | nil =>
    obtain rfl := Option.some.inj h
    simp
  | cons i is ih =>
    rw [List.map_cons, takeAll_cons] at h
    obtain ⟨b, hb, h⟩ := Option.bind_eq_some_iff.mp h
    obtain ⟨hstrings, hb⟩ := Option.ite_none_left_eq_some.mp hb
    obtain rfl := Option.some.inj hb
    exact ⟨by simp [(ih h).1], fun _ => by simpa using hstrings⟩

/-- A label in front of instructions gets the index of the first one. -/
lemma takeAll_block (h : a.takeAll (.label s :: is.map .instr) = some a') (his : is ≠ []) :
    (s, a.code.length) ∈ a'.labels ∧ a'.code = a.code ++ is := by
  rw [takeAll_cons] at h
  obtain ⟨b, hb, h⟩ := Option.bind_eq_some_iff.mp h
  obtain ⟨hcode, hstrings⟩ := takeAll_instr h
  obtain ⟨-, hb⟩ := Option.ite_none_left_eq_some.mp hb
  split at hb
  · -- the label of a string is not followed by instructions
    obtain rfl := Option.some.inj hb
    have hfalse := hstrings his
    simp_all
  · obtain rfl := Option.some.inj hb
    refine ⟨(extends_of_takeAll h).labels.subset ?_, hcode⟩
    simp

/-- A label in front of a string gets the string. -/
lemma takeAll_asciz (h : a.takeAll [.label s, .asciz t] = some a') : (s, t) ∈ a'.strings := by
  rw [takeAll_cons] at h
  obtain ⟨b, hb, h⟩ := Option.bind_eq_some_iff.mp h
  obtain ⟨c, hc, h⟩ := Option.bind_eq_some_iff.mp h
  obtain rfl := Option.some.inj h
  obtain ⟨hstrings, hc⟩ := Option.ite_none_right_eq_some.mp hc
  obtain rfl := Option.some.inj hc
  obtain ⟨-, hb⟩ := Option.ite_none_left_eq_some.mp hb
  split at hb
  · obtain rfl := Option.some.inj hb
    simp
  · -- a string does not stand in the section of code
    obtain rfl := Option.some.inj hb
    simp_all

end Assembly

/-- A file is assembled when its statements stand in their sections and no label comes twice. -/
lemma exists_assembleStmts {b : Bool} (hsection : ss.foldlM Stmt.section? false = some b)
    (hlabels : (ss.filterMap Stmt.label?).Nodup) : ∃ o, assembleStmts ss = some o := by
  obtain ⟨a, ha⟩ := Assembly.exists_takeAll (a := {}) hsection (by simpa [Assembly.defined])
  exact ⟨a.toObject, by rw [assembleStmts, ha, Option.map_some]⟩

/-- Parts of a file that stay in a section. -/
lemma foldlM_section?_flatMap {α : Type} {xs : List α} {f : α → List Stmt} {b : Bool}
    (h : ∀ x ∈ xs, (f x).foldlM Stmt.section? b = some b) :
    (xs.flatMap f).foldlM Stmt.section? b = some b := by
  induction xs with
  | nil => rfl
  | cons x xs ih =>
    obtain ⟨hx, hxs⟩ := List.forall_mem_cons.mp h
    rw [List.flatMap_cons, List.foldlM_append, hx]
    exact ih hxs

namespace Object

/-- The instructions stand behind the label. -/
def Block (o : Object) (s : String) (is : List Instr) : Prop :=
  ∃ k, (s, k) ∈ o.labels ∧ is <+: o.code.drop k

/-- A part of an assembled file is taken on the way. -/
lemma exists_takeAll_of_infix {mid : List Stmt} (h : assembleStmts ss = some o)
    (hmid : mid <:+: ss) :
    ∃ a a' : Assembly, a.takeAll mid = some a' ∧ Assembly.Extends a'.toObject o := by
  obtain ⟨pre, post, rfl⟩ := hmid
  obtain ⟨b, hb, rfl⟩ := Option.map_eq_some_iff.mp h
  rw [Assembly.takeAll_append, Assembly.takeAll_append] at hb
  obtain ⟨a', ha', hb⟩ := Option.bind_eq_some_iff.mp hb
  obtain ⟨a, -, ha'⟩ := Option.bind_eq_some_iff.mp ha'
  exact ⟨a, a', ha', Assembly.extends_of_takeAll hb⟩

/-- The code of a label in a file. -/
lemma block_of_infix (h : assembleStmts ss = some o) (his : is ≠ [])
    (hmid : .label s :: is.map .instr <:+: ss) : o.Block s is := by
  obtain ⟨a, a', ha, hext⟩ := exists_takeAll_of_infix h hmid
  obtain ⟨hlabel, hcode⟩ := Assembly.takeAll_block ha his
  obtain ⟨rest, hrest⟩ := hext.code
  refine ⟨a.code.length, hext.labels.subset hlabel, rest, ?_⟩
  rw [← hrest, hcode, List.append_assoc, List.drop_left' rfl]

/-- The string of a label in a file. -/
lemma string_of_infix (h : assembleStmts ss = some o) (hmid : [.label s, .asciz t] <:+: ss) :
    (s, t) ∈ o.strings := by
  obtain ⟨a, a', ha, hext⟩ := exists_takeAll_of_infix h hmid
  exact hext.strings.subset (Assembly.takeAll_asciz ha)

/-- The linker has placed the object: its code at `base`, its strings somewhere in memory. -/
structure LoadedAt (o : Object) (P : Program) (m : Memory) (base : BitVec 64) : Prop where
  code : P.Has base o.code
  labels : ∀ p ∈ o.labels, P.place p.1 = base + BitVec.ofNat 64 (4 * p.2)
  strings : ∀ p ∈ o.strings, m.HasCString (P.place p.1).toNat (utf8 p.2)

/-- The instructions of a block are at the address of its label. -/
lemma LoadedAt.has {P : Program} {m : Memory} {base : BitVec 64} (h : o.LoadedAt P m base)
    (hblock : o.Block s is) : P.Has (P.place s) is := by
  obtain ⟨k, hlabel, rest, hrest⟩ := hblock
  rw [h.labels _ hlabel]
  intro i instr hi
  have hcode : o.code[k + i]? = some instr := by
    rw [← List.getElem?_drop, ← hrest, List.getElem?_append_left, hi]
    exact (List.getElem?_eq_some_iff.mp hi).1
  rw [BitVec.add_assoc, ← BitVec.ofNat_add, ← Nat.mul_add]
  exact h.code _ _ hcode

end Object

end

end Apk2Ios.Arm64
