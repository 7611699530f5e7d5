import Apk2Ios.Phase3.Translate

/-!
# The shim: the generated sources

`generate_shim_scaffold` sorts the imports of a library into categories and writes the sources
of the shim.  Two assembly files have a stub for each import of two categories; the other files
are the same for every library.  The translated library is bound to the names of the stubs and
of the functions and objects in the fixed files.
-/

namespace Apk2Ios

open Lib MachO

/-! ### The tables of names -/

/-- `DIRECT_SYMBOLS`. -/
def directSymbols : List String :=
  ["__cxa_atexit", "__cxa_finalize", "abort", "access", "acos", "acosf", "atan2", "atan2f", "atoi",
    "atol", "bsearch", "calloc", "close", "cos", "cosf", "difftime", "exit", "exp2f", "fmod",
    "fmodf", "free", "getcwd", "getenv", "gethostname", "getpid", "gettimeofday", "isalpha",
    "isspace", "log", "lseek", "malloc", "memchr", "memcmp", "memcpy", "memmove", "memset", "modf",
    "nanosleep", "pipe", "pow", "powf", "read", "readlink", "realloc", "sched_yield", "setenv",
    "sin", "sinf", "sqrt", "sqrtf", "strchr", "strcmp", "strcoll", "strcpy", "strlcpy", "strlen",
    "strncmp", "strncpy", "strrchr", "strtod", "strtof", "strtol", "strtold", "strtoul", "strxfrm",
    "tan", "time", "tolower", "towlower", "towupper", "unlink", "unsetenv", "usleep", "wcslen",
    "wmemchr", "wmemcpy", "wmemmove", "wmemset", "write", "btowc", "clock", "closedir", "dladdr",
    "dlclose", "fclose", "fileno", "fopen", "fputc", "fputs", "fscanf", "ftruncate", "fwrite",
    "gmtime", "inet_ntop", "inet_pton", "iswctype", "localtime", "mbrtowc", "mkdir", "mktime",
    "mprotect", "munmap", "opendir", "send", "setlocale", "shutdown", "sprintf", "strerror",
    "strftime", "sysconf", "vsnprintf", "vsprintf", "wcrtomb", "wcscoll", "wcsftime", "wcsxfrm",
    "wctob", "wctype", "writev", "poll"]

/-- `SPECIAL_SYMBOLS`. -/
def specialSymbols : List String :=
  ["__errno", "__google_potentially_blocking_region_begin",
    "__google_potentially_blocking_region_end", "__system_property_get", "clock_getres",
    "clock_gettime", "gettid", "memalign"]

/-- `POSIX_SYMBOLS`. -/
def posixSymbols : List String :=
  ["__ctype_get_mb_cur_max", "fstat", "lstat", "mmap", "open", "readdir", "sem_getvalue",
    "sem_init", "sem_post", "sem_wait", "stat", "uname"]

/-- `ELF_SIGNAL_SYMBOLS`. -/
def elfSignalSymbols : List String :=
  ["sigaction", "sigdelset", "sigfillset", "signal", "sigsuspend", "tgkill"]

/-- `ELF_RUNTIME_SYMBOLS`. -/
def elfRuntimeSymbols : List String := ["dl_iterate_phdr"]

/-- `RUNTIME_SYMBOLS`. -/
def runtimeSymbols : List String := ["setjmp", "syscall"]

/-- `NETWORK_SYMBOLS`. -/
def networkSymbols : List String :=
  ["connect", "freeaddrinfo", "getaddrinfo", "getnameinfo", "getsockopt", "ioctl", "recvfrom",
    "setsockopt", "socket"]

/-- `PTHREAD_SYMBOLS`. -/
def pthreadSymbols : List String :=
  ["pthread_attr_destroy", "pthread_attr_getstack", "pthread_attr_init", "pthread_cond_broadcast",
    "pthread_cond_destroy", "pthread_cond_init", "pthread_cond_signal", "pthread_cond_timedwait",
    "pthread_cond_wait", "pthread_condattr_destroy", "pthread_condattr_init",
    "pthread_condattr_setclock", "pthread_create", "pthread_detach", "pthread_getattr_np",
    "pthread_getspecific", "pthread_key_create", "pthread_key_delete", "pthread_mutex_destroy",
    "pthread_mutex_init", "pthread_mutex_lock", "pthread_mutex_unlock", "pthread_mutexattr_destroy",
    "pthread_mutexattr_init", "pthread_mutexattr_settype", "pthread_once", "pthread_self",
    "pthread_setspecific"]

/-- `STDIO_SYMBOLS`. -/
def stdioSymbols : List String := ["fclose", "fileno", "fputc", "fputs", "fscanf", "fwrite"]

/-- `OBJECT_SYMBOLS`. -/
def objectSymbols : List String := ["__sF", "_ctype_"]

/-! ### Categories -/

/-- The categories of imports, under the names of the manifest. -/
inductive Category where
  | object | stdio | special | pthread | posix | elfRuntime | network | runtime | signal | direct
  | trap
deriving DecidableEq, Repr

def Category.text : Category → String
  | object => "object"
  | stdio => "stdio"
  | special => "special"
  | pthread => "pthread"
  | posix => "posix"
  | elfRuntime => "elf-runtime"
  | network => "network"
  | runtime => "runtime"
  | signal => "signal"
  | direct => "direct"
  | trap => "trap"

/-- The category of an import.  The first test that succeeds counts. -/
def categoryOf (name elfType : String) : Category :=
  if name ∈ objectSymbols ∨ elfType = "object" then .object
  else if name ∈ stdioSymbols then .stdio
  else if name ∈ specialSymbols then .special
  else if name ∈ pthreadSymbols then .pthread
  else if name ∈ posixSymbols then .posix
  else if name ∈ elfRuntimeSymbols then .elfRuntime
  else if name ∈ networkSymbols then .network
  else if name ∈ runtimeSymbols then .runtime
  else if name ∈ elfSignalSymbols then .signal
  else if name ∈ directSymbols ∧ (elfType = "func" ∨ elfType = "notype") then .direct
  else .trap

/-- An entry of `imports` in the manifest. -/
structure ImportRecord where
  name : String
  shimSymbol : String
  elfType : String
  category : Category
deriving DecidableEq, Repr

/-- `imports`: the ELF types of the undefined symbols that have a name.  The last symbol of a
name counts. -/
def importsOf (elf : Elf64) : Dict String String :=
  elf.dynamicSymbols.foldl (fun imports symbol =>
    if symbol.shndx ≠ shnUndef ∨ symbol.name = "" then imports
    else imports.set symbol.name (typeName (symbol.info &&& 0x0F))) .empty

def importRecord (name elfType : String) : ImportRecord :=
  ⟨name, "_a2i_" ++ name, elfType, categoryOf name elfType⟩

/-- `records`, in the order of the names. -/
def importRecords (elf : Elf64) : List ImportRecord :=
  (importsOf elf).sorted.items.map fun p => importRecord p.1 p.2

/-! ### Assembly -/

/-- A line of an assembly file: a `.globl` directive, a label, or anything else. -/
inductive AsmLine where
  | globl (symbol : String)
  | label (symbol : String)
  | other (text : String)
deriving DecidableEq, Repr

def AsmLine.text : AsmLine → String
  | globl symbol => ".globl " ++ symbol
  | label symbol => symbol ++ ":"
  | other text => text

def AsmLine.label? : AsmLine → Option String
  | label symbol => some symbol
  | _ => none

/-- `_asm_name(c_symbol)`. -/
def asmName (cSymbol : String) : String := "_" ++ cSymbol

/-- `_shim_c_name(original)`. -/
def shimCName (original : String) : String := "a2i_" ++ original

/-- The label of the stub of an import. -/
def shimLabel (name : String) : String := asmName (shimCName name)

/-- A stub: a global label and the code behind it. -/
def stub (name : String) (code : List String) : List AsmLine :=
  .globl (shimLabel name) :: .label (shimLabel name) :: code.map .other ++ [.other ""]

/-- `_direct_assembly(symbols)`. -/
def directAssembly (symbols : List String) : List AsmLine :=
  [.other ".text", .other ".p2align 2", .other "",
    .other "// ABI-compatible first-pass tail calls.", .other ""] ++
  (sortedStrings symbols).flatMap fun name => stub name ["    b " ++ asmName name]

/-- `name` between quotes: backslashes and quotes get a backslash in front. -/
def escaped (name : String) : String :=
  String.ofList (name.toList.flatMap fun c =>
    if c = '\x5C' ∨ c = '\x22' then ['\x5C', c] else [c])

/-- The label of the string of a stub. -/
def nameLabel (index : ℕ) : String := "L_a2i_name_" ++ toString index

/-- `_trap_assembly(symbols)`. -/
def trapAssembly (symbols : List String) : List AsmLine :=
  [.other ".text", .other ".p2align 2", .other "",
    .other "// Unsupported imports fail fast and print their symbol name.", .other ""] ++
  ((sortedStrings symbols).zipIdx.flatMap fun p => stub p.1
    ["    adrp x0, " ++ nameLabel p.2 ++ "@PAGE",
      "    add x0, x0, " ++ nameLabel p.2 ++ "@PAGEOFF", "    b _a2i_unimplemented"]) ++
  [.other ".section __TEXT,__cstring,cstring_literals", .other ""] ++
  (sortedStrings symbols).zipIdx.flatMap fun p =>
    [.label (nameLabel p.2), .other ("    .asciz \x22" ++ escaped p.1 ++ "\x22"), .other ""]

/-- The labels that the other files can see. -/
def globalLabels (lines : List AsmLine) : List String :=
  (lines.filterMap AsmLine.label?).filter fun s => .globl s ∈ lines

/-! ### The fixed files -/

/-- The functions and objects that `objects_compat.c` defines, less the `static` ones. -/
def objectsCompatC : List String := ["a2i__ctype_", "a2i___sF"]

/-- `stdio_compat.c`. -/
def stdioCompatC : List String :=
  ["a2i_fclose", "a2i_fileno", "a2i_fputc", "a2i_fputs", "a2i_fscanf", "a2i_fwrite"]

/-- `special.c`. -/
def specialC : List String :=
  ["a2i_unimplemented", "a2i___errno", "a2i___system_property_get", "a2i_clock_gettime",
    "a2i_clock_getres", "a2i_gettid", "a2i_memalign",
    "a2i___google_potentially_blocking_region_begin",
    "a2i___google_potentially_blocking_region_end"]

/-- `pthread_compat.c`. -/
def pthreadCompatC : List String :=
  ["a2i_pthread_mutexattr_init", "a2i_pthread_mutexattr_destroy", "a2i_pthread_mutexattr_settype",
    "a2i_pthread_mutex_init", "a2i_pthread_mutex_destroy", "a2i_pthread_mutex_lock",
    "a2i_pthread_mutex_unlock", "a2i_pthread_condattr_init", "a2i_pthread_condattr_destroy",
    "a2i_pthread_condattr_setclock", "a2i_pthread_cond_init", "a2i_pthread_cond_destroy",
    "a2i_pthread_cond_wait", "a2i_pthread_cond_timedwait", "a2i_pthread_cond_signal",
    "a2i_pthread_cond_broadcast", "a2i_pthread_attr_init", "a2i_pthread_attr_destroy",
    "a2i_pthread_attr_getstack", "a2i_pthread_create", "a2i_pthread_detach", "a2i_pthread_self",
    "a2i_pthread_getattr_np", "a2i_pthread_key_create", "a2i_pthread_key_delete",
    "a2i_pthread_getspecific", "a2i_pthread_setspecific", "a2i_pthread_once"]

/-- `posix_compat.c`. -/
def posixCompatC : List String :=
  ["a2i_stat", "a2i_lstat", "a2i_fstat", "a2i_open", "a2i_mmap", "a2i_readdir", "a2i_sem_init",
    "a2i_sem_wait", "a2i_sem_post", "a2i_sem_getvalue", "a2i_uname", "a2i___ctype_get_mb_cur_max"]

/-- `network_compat.c`. -/
def networkCompatC : List String :=
  ["a2i_socket", "a2i_connect", "a2i_recvfrom", "a2i_getsockopt", "a2i_setsockopt", "a2i_ioctl",
    "a2i_getaddrinfo", "a2i_freeaddrinfo", "a2i_getnameinfo"]

/-- `runtime_compat.c`. -/
def runtimeCompatC : List String := ["a2i_syscall"]

/-- `signal_compat.c`. -/
def signalCompatC : List String :=
  ["a2i_sigaction", "a2i_signal", "a2i_sigfillset", "a2i_sigdelset", "a2i_sigsuspend",
    "a2i_tgkill"]

/-- `elf_phdr_compat.c`. -/
def elfPhdrCompatC : List String := ["a2i_dl_iterate_phdr"]

/-- `runtime_compat.S`, less its comment. -/
def runtimeCompatS : List AsmLine :=
  [.other ".text", .other ".p2align 2", .globl "_a2i_setjmp", .label "_a2i_setjmp",
    .other "    stp x19, x20, [x0, #0]", .other "    stp x21, x22, [x0, #16]",
    .other "    stp x23, x24, [x0, #32]", .other "    stp x25, x26, [x0, #48]",
    .other "    stp x27, x28, [x0, #64]", .other "    stp x29, x30, [x0, #80]",
    .other "    mov x1, sp", .other "    str x1, [x0, #96]",
    .other "    stp d8, d9, [x0, #112]", .other "    stp d10, d11, [x0, #128]",
    .other "    stp d12, d13, [x0, #144]", .other "    stp d14, d15, [x0, #160]",
    .other "    mov w0, #0", .other "    ret"]

/-- `OBJECTS_ASM`. -/
def objectsAsm : List AsmLine := [.other "// Object shims are implemented in objects_compat.c."]

/-! ### The scaffold -/

/-- A source file: the lines of an assembly file, or the global definitions of a C file. -/
inductive SourceFile where
  | asm (name : String) (lines : List AsmLine)
  | c (name : String) (definitions : List String)

/-- The global names of a source file, as the linker sees them. -/
def SourceFile.globals : SourceFile → List String
  | asm _ lines => globalLabels lines
  | c _ definitions => definitions.map asmName

/-- The assembler refuses a file when it does not accept one of the labels as a symbol. -/
def SourceFile.assembles (accepts : String → Bool) : SourceFile → Bool
  | asm _ lines => (lines.filterMap AsmLine.label?).all accepts
  | c _ _ => true

/-- The dictionary that is returned and written to `manifest.json`. -/
structure Manifest where
  source : String
  totalImports : ℕ
  counts : List (String × ℕ)
  imports : List ImportRecord
  warning : String

def manifestWarning : String :=
  "direct means suitable for the first ABI probe, not guaranteed semantic compatibility. " ++
    "object and trap entries remain blockers if execution reaches them."

/-- What is generated for a library: the sources in the order of `build.sh`, and the manifest. -/
structure Scaffold where
  sources : List SourceFile
  manifest : Manifest

/-- The names of category `direct`. -/
def directNames (records : List ImportRecord) : List String :=
  (records.filter fun x => x.category = .direct).map ImportRecord.name

/-- The names of category `trap`. -/
def trapNames (records : List ImportRecord) : List String :=
  (records.filter fun x => x.category = .trap ∧ x.elfType ≠ "object").map ImportRecord.name

/-- `generate_shim_scaffold(input_elf, output_dir)`, from the parsed file. -/
def generateShimScaffold (inputElf : String) (elf : Elf64) : Scaffold :=
  let records := importRecords elf
  { sources := [
      .asm "direct.S" (directAssembly (directNames records)),
      .asm "trap.S" (trapAssembly (trapNames records)),
      .asm "objects.S" objectsAsm,
      .c "objects_compat.c" objectsCompatC,
      .c "stdio_compat.c" stdioCompatC,
      .c "special.c" specialC,
      .c "pthread_compat.c" pthreadCompatC,
      .c "posix_compat.c" posixCompatC,
      .c "elf_phdr_compat.c" elfPhdrCompatC,
      .c "network_compat.c" networkCompatC,
      .c "runtime_compat.c" runtimeCompatC,
      .asm "runtime_compat.S" runtimeCompatS,
      .c "signal_compat.c" signalCompatC]
    manifest := {
      source := inputElf
      totalImports := records.length
      counts := (Dict.fill (fun x => x.category.text) (fun _ n => n.getD 0 + 1)
        records).sorted.items
      imports := records
      warning := manifestWarning } }

/-- The global names of the library that `build.sh` links.  All sources go to one call of the
compiler, so a file that the assembler refuses leaves no library. -/
def Scaffold.globals (accepts : String → Bool) (scaffold : Scaffold) : List String :=
  if scaffold.sources.all (SourceFile.assembles accepts) then
    scaffold.sources.flatMap SourceFile.globals
  else []

/-! ### The global names -/

/-- The names that an adapter in one of the fixed files is written for. -/
def adapterNames : List String :=
  objectSymbols ++ stdioSymbols ++ specialSymbols ++ pthreadSymbols ++ posixSymbols ++
    elfRuntimeSymbols ++ networkSymbols ++ runtimeSymbols ++ elfSignalSymbols

/-- The names whose labels the fixed files define: those of the adapters, and the function that
the stubs of unsupported imports call. -/
def fixedNames : List String := "unimplemented" :: adapterNames

/-- The global names of the fixed files, in the order of `build.sh`. -/
def fixedGlobals : List String :=
  (objectsCompatC ++ stdioCompatC ++ specialC ++ pthreadCompatC ++ posixCompatC ++
    elfPhdrCompatC ++ networkCompatC ++ runtimeCompatC).map asmName ++ [shimLabel "setjmp"] ++
    signalCompatC.map asmName

/-- The assembler accepts names of letters, digits and underscores. -/
def AcceptsNames (accepts : String → Bool) : Prop :=
  ∀ s : String, (∀ c ∈ s.toList, c.isAlphanum ∨ c = '_') → accepts s

/-- An assembler that accepts no other names. -/
def acceptsPlain (s : String) : Bool := s.toList.all fun c => c.isAlphanum ∨ c = '_'

lemma acceptsNames_acceptsPlain : AcceptsNames acceptsPlain := by
  intro s hs
  simpa [acceptsPlain] using hs

lemma AcceptsNames.accepts {accepts : String → Bool} (haccepts : AcceptsNames accepts) {s : String}
    (h : acceptsPlain s) : accepts s := haccepts s (by simpa [acceptsPlain] using h)

section

variable {accepts : String → Bool} {name name' elfType : String} {names : List String}
  {elf : Elf64}

lemma shimLabel_eq (name : String) : shimLabel name = "_a2i_" ++ name := by
  rw [shimLabel, asmName, shimCName, ← String.append_assoc]
  rfl

lemma shimLabel_injective : Function.Injective shimLabel := by
  intro name name' h
  rw [shimLabel_eq, shimLabel_eq] at h
  exact (String.append_right_inj "_a2i_").mp h

/-- The tables of names in the generator and the definitions in the fixed files agree. -/
lemma fixedGlobals_perm : fixedGlobals.Perm (fixedNames.map shimLabel) := by decide +kernel

lemma nodup_fixedGlobals : fixedGlobals.Nodup := by
  have hnames : fixedNames.Nodup := by decide +kernel
  exact fixedGlobals_perm.nodup_iff.mpr ((List.nodup_map_iff shimLabel_injective).mpr hnames)

lemma mem_fixedGlobals : shimLabel name ∈ fixedGlobals ↔ name ∈ fixedNames := by
  rw [fixedGlobals_perm.mem_iff, List.mem_map_of_injective shimLabel_injective]

/-! ### Stubs -/

@[simp] lemma label?_globl (s : String) : (AsmLine.globl s).label? = none := rfl

@[simp] lemma label?_label (s : String) : (AsmLine.label s).label? = some s := rfl

@[simp] lemma label?_other (s : String) : (AsmLine.other s).label? = none := rfl

lemma filterMap_label?_stub (name : String) (code : List String) :
    (stub name code).filterMap AsmLine.label? = [shimLabel name] := by
  have hcode : (code.map AsmLine.other).filterMap AsmLine.label? = [] := by
    rw [List.filterMap_map, List.filterMap_eq_nil_iff]
    exact fun _ _ => rfl
  simp [stub, List.filterMap_cons, hcode]

lemma globl_mem_stub {s : String} {code : List String} :
    AsmLine.globl s ∈ stub name code ↔ s = shimLabel name := by
  simp [stub]

lemma nameLabel_ne_shimLabel (index : ℕ) (name : String) : nameLabel index ≠ shimLabel name := by
  intro h
  have hhead := congrArg (fun s : String => s.toList.head?) h
  simp [nameLabel, shimLabel_eq] at hhead

/-- Of all labels of a file, those of the stubs are global. -/
lemma globalLabels_eq {lines : List AsmLine} (rest : List String)
    (hlabels : lines.filterMap AsmLine.label? = names.map shimLabel ++ rest)
    (hglobl : ∀ s, AsmLine.globl s ∈ lines ↔ s ∈ names.map shimLabel)
    (hrest : ∀ s ∈ rest, s ∉ names.map shimLabel) :
    globalLabels lines = names.map shimLabel := by
  rw [globalLabels, hlabels, List.filter_append]
  have hnone : (rest.filter fun s => AsmLine.globl s ∈ lines) = [] := by
    rw [List.filter_eq_nil_iff]
    intro s hs
    simp [hglobl, hrest s hs]
  rw [hnone, List.append_nil, List.filter_eq_self]
  intro s hs
  simp [(hglobl s).mpr hs]

lemma labels_directAssembly : (directAssembly names).filterMap AsmLine.label? =
    (sortedStrings names).map shimLabel := by
  rw [directAssembly, List.filterMap_append, List.filterMap_flatMap]
  simp only [filterMap_label?_stub, ← List.map_eq_flatMap]
  rfl

lemma globalLabels_directAssembly :
    globalLabels (directAssembly names) = (sortedStrings names).map shimLabel := by
  refine globalLabels_eq [] ?_ ?_ (by simp)
  · rw [labels_directAssembly, List.append_nil]
  · intro s
    simp [directAssembly, globl_mem_stub, eq_comm]

lemma map_zipIdx_shimLabel (names : List String) :
    (names.zipIdx.map fun p => shimLabel p.1) = names.map shimLabel := by
  calc names.zipIdx.map (fun p => shimLabel p.1)
      = (names.zipIdx.map Prod.fst).map shimLabel := by rw [List.map_map]; rfl
    _ = names.map shimLabel := by rw [List.zipIdx_map_fst]

/-- The labels of the strings stand behind those of the stubs. -/
lemma labels_trapAssembly : (trapAssembly names).filterMap AsmLine.label? =
    (sortedStrings names).map shimLabel ++
      (sortedStrings names).zipIdx.map fun p => nameLabel p.2 := by
  rw [trapAssembly, List.filterMap_append, List.filterMap_append, List.filterMap_append,
    List.filterMap_flatMap, List.filterMap_flatMap, ← map_zipIdx_shimLabel]
  simp [filterMap_label?_stub, List.filterMap_cons, ← List.map_eq_flatMap]

/-- The labels of the strings are not global. -/
lemma globalLabels_trapAssembly :
    globalLabels (trapAssembly names) = (sortedStrings names).map shimLabel := by
  refine globalLabels_eq _ labels_trapAssembly ?_ ?_
  · intro s
    rw [← map_zipIdx_shimLabel]
    simp [trapAssembly, globl_mem_stub, eq_comm]
  · intro s hs hmem
    obtain ⟨p, -, rfl⟩ := List.mem_map.mp hs
    obtain ⟨name, -, heq⟩ := List.mem_map.mp hmem
    exact nameLabel_ne_shimLabel p.2 name heq.symm

/-! ### The names with stubs -/

/-- The last undefined symbol of a name. -/
def Elf64.lastUndefined (elf : Elf64) (name : String) : Option DynamicSymbol :=
  (elf.dynamicSymbols.filter fun s => s.shndx = shnUndef ∧ s.name = name).getLast?

lemma get?_importsOf : (importsOf elf).get? name =
    if name = "" then none
    else (elf.lastUndefined name).map fun s => typeName (s.info &&& 0x0F) := by
  rw [importsOf, Elf64.lastUndefined]
  -- the symbols are read from the front, and the last one counts
  induction elf.dynamicSymbols using List.reverseRecOn with
  | nil => simp
  | append_singleton symbols symbol ih =>
    rw [List.foldl_append, List.foldl_cons, List.foldl_nil, List.filter_append]
    by_cases hskip : symbol.shndx ≠ shnUndef ∨ symbol.name = ""
    · rw [if_pos hskip, ih]
      by_cases hname : name = ""
      · rw [if_pos hname, if_pos hname]
      · have hother : ¬ (symbol.shndx = shnUndef ∧ symbol.name = name) := by
          rintro ⟨hundef, heq⟩
          rcases hskip with hdef | hempty
          · exact hdef hundef
          · exact hname (heq.symm.trans hempty)
        simp [hname, hother]
    · rw [if_neg hskip, Dict.get?_set, ih]
      rw [not_or, not_not] at hskip
      by_cases heq : name = symbol.name
      · simp [heq, hskip]
      · simp [heq, Ne.symm heq]

lemma exists_lastUndefined {symbol : DynamicSymbol} (hmem : symbol ∈ elf.dynamicSymbols)
    (hundef : symbol.shndx = shnUndef) : ∃ s, elf.lastUndefined symbol.name = some s := by
  rw [Elf64.lastUndefined, ← Option.isSome_iff_exists, List.getLast?_isSome]
  intro hnil
  exact List.filter_eq_nil_iff.mp hnil symbol hmem (by simp [hundef])

lemma typeName_eq_object {n : ℕ} : typeName n = "object" ↔ n = sttObject := by
  match n with
  | 0 => simp [typeName, sttObject]
  | 1 => simp [typeName, sttObject]
  | 2 => simp [typeName, sttObject]
  | n + 3 =>
    have hhead : (typeName (n + 3)).toList.head? = some 't' := by simp [typeName]
    constructor
    · intro h
      rw [h] at hhead
      simp at hhead
    · simp [sttObject]

/-- A test for another category stands before the stubs. -/
lemma ite_stub {p : Prop} [Decidable p] {c rest : Category} (hc : ¬(c = .direct ∨ c = .trap)) :
    (if p then c else rest) = .direct ∨ (if p then c else rest) = .trap ↔
      ¬p ∧ (rest = .direct ∨ rest = .trap) := by
  by_cases h : p
  · rw [if_pos h]
    exact iff_of_false hc fun hrest => hrest.1 h
  · rw [if_neg h]
    exact (and_iff_right h).symm

/-- An import gets a stub unless it has an adapter or is an object. -/
lemma categoryOf_stub : categoryOf name elfType = .direct ∨ categoryOf name elfType = .trap ↔
    elfType ≠ "object" ∧ name ∉ adapterNames := by
  have hmem : name ∈ adapterNames ↔ name ∈ objectSymbols ∨ name ∈ stdioSymbols ∨
      name ∈ specialSymbols ∨ name ∈ pthreadSymbols ∨ name ∈ posixSymbols ∨
      name ∈ elfRuntimeSymbols ∨ name ∈ networkSymbols ∨ name ∈ runtimeSymbols ∨
      name ∈ elfSignalSymbols := by
    simp only [adapterNames, List.mem_append, or_assoc]
  have hlast : ∀ {p : Prop} [Decidable p], (if p then Category.direct else .trap) = .direct ∨
      (if p then Category.direct else .trap) = .trap := by
    intro p _
    by_cases h : p
    · exact .inl (if_pos h)
    · exact .inr (if_neg h)
  rw [hmem, categoryOf]
  iterate 9 rw [ite_stub (by decide)]
  simp only [hlast, and_true, not_or]
  tauto

/-- The names with a stub in one of the generated files. -/
def stubNames (elf : Elf64) : List String :=
  directNames (importRecords elf) ++ trapNames (importRecords elf)

lemma mem_importRecords {x : ImportRecord} : x ∈ importRecords elf ↔
    ∃ name elfType, (importsOf elf).get? name = some elfType ∧ importRecord name elfType = x := by
  simp only [importRecords, List.mem_map, Prod.exists, Dict.mem_items_iff, Dict.get?_sorted]

lemma nodup_name_importRecords : ((importRecords elf).map ImportRecord.name).Nodup := by
  rw [importRecords, List.map_map]
  exact (importsOf elf).sorted.nodup

lemma mem_stubNames : name ∈ stubNames elf ↔ name ≠ "" ∧ name ∉ adapterNames ∧
    ∃ s, elf.lastUndefined name = some s ∧ s.info &&& 0x0F ≠ sttObject := by
  have hrecord : name ∈ stubNames elf ↔ ∃ elfType, (importsOf elf).get? name = some elfType ∧
      elfType ≠ "object" ∧ name ∉ adapterNames := by
    simp only [stubNames, directNames, trapNames, List.mem_append, List.mem_map, List.mem_filter,
      mem_importRecords, decide_eq_true_eq]
    constructor
    · rintro (⟨_, ⟨⟨name, elfType, hget, rfl⟩, hdirect⟩, rfl⟩ |
        ⟨_, ⟨⟨name, elfType, hget, rfl⟩, htrap, -⟩, rfl⟩)
      · exact ⟨elfType, hget, categoryOf_stub.mp (.inl hdirect)⟩
      · exact ⟨elfType, hget, categoryOf_stub.mp (.inr htrap)⟩
    · rintro ⟨elfType, hget, hobject, hadapter⟩
      rcases categoryOf_stub.mpr ⟨hobject, hadapter⟩ with hdirect | htrap
      · exact .inl ⟨_, ⟨⟨name, elfType, hget, rfl⟩, hdirect⟩, rfl⟩
      · exact .inr ⟨_, ⟨⟨name, elfType, hget, rfl⟩, htrap, hobject⟩, rfl⟩
  rw [hrecord, get?_importsOf]
  constructor
  · rintro ⟨elfType, hget, hobject, hadapter⟩
    obtain ⟨hname, hlast⟩ := Option.ite_none_left_eq_some.mp hget
    obtain ⟨s, hs, rfl⟩ := Option.map_eq_some_iff.mp hlast
    exact ⟨hname, hadapter, s, hs, fun h => hobject (typeName_eq_object.mpr h)⟩
  · rintro ⟨hname, hadapter, s, hs, hobject⟩
    refine ⟨typeName (s.info &&& 0x0F), ?_, fun h => hobject (typeName_eq_object.mp h), hadapter⟩
    rw [if_neg hname, hs]
    rfl

lemma nodup_stubNames : (stubNames elf).Nodup := by
  have hnames : ((importRecords elf).map ImportRecord.name).Nodup := nodup_name_importRecords
  rw [stubNames, directNames, trapNames, List.nodup_append]
  refine ⟨hnames.sublist (List.filter_sublist.map _), hnames.sublist (List.filter_sublist.map _),
    ?_⟩
  rintro name hdirect _ htrap rfl
  obtain ⟨x, hx, rfl⟩ := List.mem_map.mp hdirect
  obtain ⟨y, hy, hxy⟩ := List.mem_map.mp htrap
  simp only [List.mem_filter, decide_eq_true_eq] at hx hy
  have heq : y = x := List.inj_on_of_nodup_map hnames hy.1 hx.1 hxy
  rw [heq, hx.2] at hy
  simp at hy

/-! ### The global names of the shim -/

lemma globalLabels_runtimeCompatS : globalLabels runtimeCompatS = [shimLabel "setjmp"] := by
  show globalLabels runtimeCompatS = ["setjmp"].map shimLabel
  refine globalLabels_eq [] rfl (fun s => ?_) (by simp)
  simp [runtimeCompatS]
  rfl

lemma acceptsPlain_nameLabel (index : ℕ) : acceptsPlain (nameLabel index) := by
  have hdigits : ∀ c ∈ Nat.toDigits 10 index, c.isAlphanum := by
    intro c hc
    simp [Char.isAlphanum, Nat.isDigit_of_mem_toDigits (by decide) (by decide) hc]
  have hchars : (nameLabel index).toList = "L_a2i_name_".toList ++ Nat.toDigits 10 index := by
    rw [nameLabel, String.toList_append, Nat.toString_eq_repr, Nat.toList_repr]
  have hhead : acceptsPlain "L_a2i_name_" := by decide +kernel
  rw [acceptsPlain, hchars, List.all_append, Bool.and_eq_true]
  exact ⟨hhead, List.all_eq_true.mpr fun c hc => decide_eq_true (.inl (hdigits c hc))⟩

/-- The assembler accepts a label for each import with neither an adapter nor the type of an
object. -/
def AcceptsStubs (accepts : String → Bool) (elf : Elf64) : Prop :=
  ∀ name s, elf.lastUndefined name = some s → name ≠ "" → name ∉ adapterNames →
    s.info &&& 0x0F ≠ sttObject → accepts (shimLabel name)

lemma acceptsStubs_iff :
    AcceptsStubs accepts elf ↔ ∀ name ∈ stubNames elf, accepts (shimLabel name) := by
  simp only [mem_stubNames]
  constructor
  · rintro h name ⟨hname, hadapter, s, hs, hobject⟩
    exact h name s hs hname hadapter hobject
  · intro h name s hs hname hadapter hobject
    exact h name ⟨hname, hadapter, s, hs, hobject⟩

/-- All other labels have names of letters, digits and underscores. -/
lemma assembles_iff (haccepts : AcceptsNames accepts) (inputElf : String) :
    (generateShimScaffold inputElf elf).sources.all (SourceFile.assembles accepts) ↔
      AcceptsStubs accepts elf := by
  have hsetjmp : accepts "_a2i_setjmp" := haccepts.accepts (by decide +kernel)
  have hstrings : ∀ p : String × ℕ, accepts (nameLabel p.2) :=
    fun p => haccepts.accepts (acceptsPlain_nameLabel p.2)
  have hlabels : runtimeCompatS.filterMap AsmLine.label? = ["_a2i_setjmp"] := rfl
  have hobjects : objectsAsm.filterMap AsmLine.label? = [] := rfl
  have hmem : ∀ {names : List String} {name : String}, name ∈ sortedStrings names ↔ name ∈ names :=
    (sortedStrings_perm _).mem_iff
  rw [acceptsStubs_iff, stubNames, List.forall_mem_append]
  simp [generateShimScaffold, SourceFile.assembles, labels_directAssembly, labels_trapAssembly,
    hlabels, hobjects, hsetjmp, hstrings, hmem]

/-- A refused label leaves no library. -/
lemma globals_of_refused (haccepts : AcceptsNames accepts) (inputElf : String)
    (h : ¬ AcceptsStubs accepts elf) : (generateShimScaffold inputElf elf).globals accepts = [] :=
  if_neg (mt (assembles_iff haccepts inputElf).mp h)

/-- The global names are the labels of the stubs and the names of the fixed files. -/
lemma globals_perm (haccepts : AcceptsNames accepts) (inputElf : String)
    (h : AcceptsStubs accepts elf) :
    ((generateShimScaffold inputElf elf).globals accepts).Perm
      ((stubNames elf).map shimLabel ++ fixedGlobals) := by
  have hdirect := (sortedStrings_perm (directNames (importRecords elf))).map shimLabel
  have htrap := (sortedStrings_perm (trapNames (importRecords elf))).map shimLabel
  have hglobals : (generateShimScaffold inputElf elf).globals accepts =
      (sortedStrings (directNames (importRecords elf))).map shimLabel ++
      (sortedStrings (trapNames (importRecords elf))).map shimLabel ++ fixedGlobals := by
    have hobjects : globalLabels objectsAsm = [] := rfl
    rw [Scaffold.globals, if_pos ((assembles_iff haccepts inputElf).mpr h)]
    simp [generateShimScaffold, SourceFile.globals, fixedGlobals, globalLabels_directAssembly,
      globalLabels_trapAssembly, globalLabels_runtimeCompatS, hobjects]
  rw [hglobals, stubNames, List.map_append]
  exact (hdirect.append htrap).append_right _

/-- Only the helper that the stubs call can be defined twice. -/
lemma nodup_globals_iff (haccepts : AcceptsNames accepts) (inputElf : String) :
    ((generateShimScaffold inputElf elf).globals accepts).Nodup ↔
      (AcceptsStubs accepts elf → "unimplemented" ∉ stubNames elf) := by
  by_cases h : AcceptsStubs accepts elf
  · have hstubs : ((stubNames elf).map shimLabel).Nodup :=
      (List.nodup_map_iff shimLabel_injective).mpr nodup_stubNames
    rw [(globals_perm haccepts inputElf h).nodup_iff, List.nodup_append]
    constructor
    · rintro ⟨-, -, hdisjoint⟩ - hmem
      have hfixed : "unimplemented" ∈ fixedNames := List.mem_cons_self
      exact hdisjoint _ (List.mem_map_of_mem hmem) _ (mem_fixedGlobals.mpr hfixed) rfl
    · intro hno
      refine ⟨hstubs, nodup_fixedGlobals, ?_⟩
      rintro s hs _ hfixed rfl
      obtain ⟨name, hstub, rfl⟩ := List.mem_map.mp hs
      obtain ⟨-, hadapter, -⟩ := mem_stubNames.mp hstub
      rcases List.mem_cons.mp (mem_fixedGlobals.mp hfixed) with rfl | hmem
      · exact hno h hstub
      · exact hadapter hmem
  · rw [globals_of_refused haccepts inputElf h]
    exact iff_of_true List.nodup_nil fun hstubs => absurd hstubs h

/-- When no name is defined twice, the shim defines the names with stubs and those of the fixed
files. -/
lemma count_globals_eq_one (haccepts : AcceptsNames accepts) {inputElf : String}
    (hnodup : ((generateShimScaffold inputElf elf).globals accepts).Nodup) :
    ((generateShimScaffold inputElf elf).globals accepts).count (shimLabel name) = 1 ↔
      AcceptsStubs accepts elf ∧ (name ∈ fixedNames ∨ name ∈ stubNames elf) := by
  have hcount : ((generateShimScaffold inputElf elf).globals accepts).count (shimLabel name) = 1 ↔
      shimLabel name ∈ (generateShimScaffold inputElf elf).globals accepts :=
    ⟨fun h => List.count_pos_iff.mp (by omega), List.count_eq_one_of_mem hnodup⟩
  rw [hcount]
  by_cases h : AcceptsStubs accepts elf
  · rw [(globals_perm haccepts inputElf h).mem_iff, List.mem_append,
      List.mem_map_of_injective shimLabel_injective, mem_fixedGlobals, or_comm, and_iff_right h]
  · rw [globals_of_refused haccepts inputElf h]
    exact iff_of_false List.not_mem_nil fun hall => h hall.1

end

end Apk2Ios
