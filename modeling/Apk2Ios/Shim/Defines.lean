import Mathlib.Data.List.Count
import Apk2Ios.Phase3.Fixups
import Apk2Ios.Phase3.Order
import Apk2Ios.Shim.Scaffold

/-!
# The shim: what the translated library binds to

The translator binds a word for each relocation against an undefined symbol, and the generator
writes a stub for each undefined symbol of most kinds.  The two agree on every library without
an import called `unimplemented`, where the assembler takes the names of all stubs and no
relocation is against a symbol without a name or against an object that has no adapter.
-/

namespace Apk2Ios

open Lib MachO

/-- The shim with these global names defines each symbol that the library binds to once, and no
name twice. -/
structure DefinesBinds (globals : List String) (file : Bytes) : Prop where
  bound : ∃ binds, bindsOf file = some binds ∧ ∀ b ∈ binds, (globals.map utf8).count b.symbol = 1
  nodup : globals.Nodup

/-- The imports that the shim is complete for: in a library that is built, no stub has the name
of the helper, and where a symbol is bound, the library is built and has an adapter or a stub for
the symbol. -/
structure ShimComplete (accepts : String → Bool) (elf : Elf64) : Prop where
  helper : AcceptsStubs accepts elf →
    ∀ s, elf.lastUndefined "unimplemented" = some s → s.info &&& 0x0F = sttObject
  bound : ∀ rel ∈ elf.relocations, ∀ symbol,
    rel.fixup? elf.dynamicSymbols = some (.external symbol) → AcceptsStubs accepts elf ∧
      (symbol.name ∈ fixedNames ∨ symbol.name ≠ "" ∧
        ∀ s, elf.lastUndefined symbol.name = some s → s.info &&& 0x0F ≠ sttObject)

section

variable {accepts : String → Bool} {elf : Elf64}

/-- The condition in terms of the names with stubs. -/
lemma shimComplete_iff : ShimComplete accepts elf ↔
    (AcceptsStubs accepts elf → "unimplemented" ∉ stubNames elf) ∧
    ∀ rel ∈ elf.relocations, ∀ symbol,
      rel.fixup? elf.dynamicSymbols = some (.external symbol) →
        AcceptsStubs accepts elf ∧
          (symbol.name ∈ fixedNames ∨ symbol.name ∈ stubNames elf) := by
  have hhelper : "unimplemented" ∉ stubNames elf ↔
      ∀ s, elf.lastUndefined "unimplemented" = some s → s.info &&& 0x0F = sttObject := by
    have hname : "unimplemented" ∉ adapterNames := by decide +kernel
    simp [mem_stubNames, hname]
  have hbound : ∀ rel ∈ elf.relocations, ∀ symbol,
      rel.fixup? elf.dynamicSymbols = some (.external symbol) →
        ((symbol.name ∈ fixedNames ∨ symbol.name ∈ stubNames elf) ↔
          (symbol.name ∈ fixedNames ∨ symbol.name ≠ "" ∧
            ∀ s, elf.lastUndefined symbol.name = some s → s.info &&& 0x0F ≠ sttObject)) := by
    intro rel _ symbol hfix
    -- the bound symbol itself is undefined and has the name
    obtain ⟨s, hs⟩ := exists_lastUndefined
      (List.mem_of_getElem? (Relocation.getElem?_of_external hfix).1)
      (Relocation.getElem?_of_external hfix).2
    have hadapter : symbol.name ∉ fixedNames → symbol.name ∉ adapterNames :=
      fun h hmem => h (List.mem_cons_of_mem _ hmem)
    simp only [mem_stubNames, hs, Option.some.injEq, exists_eq_left', forall_eq']
    tauto
  constructor
  · intro h
    exact ⟨fun hstubs => hhelper.mpr (h.helper hstubs), fun rel hrel symbol hfix =>
      (h.bound rel hrel symbol hfix).imp_right (hbound rel hrel symbol hfix).mpr⟩
  · rintro ⟨hno, hall⟩
    exact ⟨fun hstubs => hhelper.mp (hno hstubs), fun rel hrel symbol hfix =>
      (hall rel hrel symbol hfix).imp_right (hbound rel hrel symbol hfix).mp⟩

end

namespace Phase3Translator

variable {T : Phase3Translator} {args : TranslateArgs} {accepts : String → Bool}

/-! ### The symbols of the bind table -/

lemma map_symbol_carriedBinds (ordinal addend : ℕ) (items : List Binding) :
    (carriedBinds ordinal addend items).map Bind.symbol =
      (items.map Binding.shimSymbol).map utf8 := by
  induction items generalizing addend with
  | nil => rfl
  | cons b items ih => rw [carriedBinds, List.map_cons, ih]; rfl

/-- The symbols of the bindings are those that the relocations are against. -/
lemma Translation.mem_shimSymbols (t : T.Translation args) {s : String} :
    s ∈ t.st.bindings.map Binding.shimSymbol ↔ ∃ rel ∈ T.elf.relocations, ∃ symbol,
      rel.fixup? T.elf.dynamicSymbols = some (.external symbol) ∧
        s = args.shimPrefix ++ symbol.name := by
  obtain ⟨new, hnew, hforall⟩ := t.relocated.bindings
  rw [List.nil_append] at hnew
  have hsymbols : new.map Binding.shimSymbol =
      (T.elf.relocations.filterMap (Relocation.external? T.elf.dynamicSymbols)).map
        fun p => args.shimPrefix ++ p.2.name :=
    (map_eq_map_of_forall₂ hforall fun p b hb => hb.shimSymbol.symm).symm
  rw [hnew, hsymbols]
  simp only [List.mem_map, List.mem_filterMap, Relocation.external?_eq_some, Prod.exists]
  constructor
  · rintro ⟨rel, symbol, ⟨_, hrel, hfix, rfl⟩, rfl⟩
    exact ⟨_, hrel, symbol, hfix, rfl⟩
  · rintro ⟨rel, hrel, symbol, hfix, rfl⟩
    exact ⟨rel, symbol, ⟨rel, hrel, hfix, rfl⟩, rfl⟩

/-- What the dynamic linker finds for the symbols of a written file. -/
lemma Translation.Fits.bound_iff {t : T.Translation args} (h : t.Fits)
    (hshim : args.shimPrefix = "_a2i_") (globals : List String) :
    (∃ binds, MachO.bindsOf t.file = some binds ∧
        ∀ b ∈ binds, (globals.map utf8).count b.symbol = 1) ↔
      ∀ rel ∈ T.elf.relocations, ∀ symbol,
        rel.fixup? T.elf.dynamicSymbols = some (.external symbol) →
          globals.count (shimLabel symbol.name) = 1 := by
  have hnul : NulFree args.shimPrefix := by rw [hshim]; decide
  have hbinds := h.bindsOf hnul
  have hsymbols : (∀ b ∈ carriedBinds 1 0 (sortedBy Binding.location t.st.bindings),
        (globals.map utf8).count b.symbol = 1) ↔
      ∀ s ∈ t.st.bindings.map Binding.shimSymbol, globals.count s = 1 := by
    rw [← List.forall_mem_map (P := fun s => (globals.map utf8).count s = 1),
      map_symbol_carriedBinds, List.forall_mem_map]
    refine forall_congr' fun s => ?_
    rw [((sortedBy_perm _ _).map _).mem_iff, List.count_map_of_injective _ _ utf8_injective]
  rw [hbinds]
  simp only [Option.some.injEq, exists_eq_left', hsymbols, t.mem_shimSymbols, hshim,
    shimLabel_eq]
  constructor
  · intro hall rel hrel symbol hfix
    exact hall _ ⟨rel, hrel, symbol, hfix, rfl⟩
  · rintro hall s ⟨rel, hrel, symbol, hfix, rfl⟩
    exact hall rel hrel symbol hfix

/-! ### When the shim is complete -/

/-- **The shim defines each symbol that the translated library binds to exactly once, and no name
twice, if and only if** its imports are those that the shim is complete for. -/
theorem definesBinds_iff {out : Phase3Output} (hshim : args.shimPrefix = "_a2i_")
    (haccepts : AcceptsNames accepts) (h : T.translate args = .ok out) (inputElf : String) :
    DefinesBinds ((generateShimScaffold inputElf T.elf).globals accepts) out.file ↔
      ShimComplete accepts T.elf := by
  obtain ⟨t, hfits, rfl⟩ := translate_eq_ok.mp h
  have hbound := hfits.bound_iff hshim
    ((generateShimScaffold inputElf T.elf).globals accepts)
  rw [shimComplete_iff, ← nodup_globals_iff haccepts inputElf]
  constructor
  · rintro ⟨hbinds, hnodup⟩
    refine ⟨hnodup, fun rel hrel symbol hfix => ?_⟩
    exact (count_globals_eq_one haccepts hnodup).mp (hbound.mp hbinds rel hrel symbol hfix)
  · rintro ⟨hnodup, hall⟩
    refine ⟨hbound.mpr fun rel hrel symbol hfix => ?_, hnodup⟩
    exact (count_globals_eq_one haccepts hnodup).mpr (hall rel hrel symbol hfix)

end Phase3Translator

/-! ### A library with an import -/

/-- The small library, with `f` imported. -/
def Elf64.importElf : Elf64 := { smallElf with
  data := (((smallFile.set 0x106 0).set 0xD8 2).set 0xDC 1).set 0xE0 0 }

lemma Elf64.relocations_importElf : importElf.relocations = [⟨0x100B8, 1026, 1, 0⟩] := by
  decide +kernel

lemma Elf64.dynamicSymbols_importElf :
    importElf.dynamicSymbols = [⟨"", 0, 0, 0, 0, 0⟩, ⟨"f", 0x12, 0, 0, 0x20, 4⟩] := by
  decide +kernel

lemma importRecords_importElf :
    importRecords Elf64.importElf = [⟨"f", "_a2i_f", "func", .trap⟩] := by
  decide +kernel

namespace Phase3Translator

/-- Its translator. -/
def importing : Phase3Translator := { small with
  elf := Elf64.importElf
  machine := rfl
  type := rfl
  layout := rfl }

/-- Its binding. -/
def importBinding : Binding := ⟨0x100B8, 1026, "f", "_a2i_f", 2, 1, 0xB8, 0⟩

lemma fixups_importing : ∃ st, importing.fixups {} = .ok st ∧
    st.rebases = [] ∧ st.bindings = [importBinding] ∧ st.image.length = importing.dataEnd := by
  have hin : importing.elf.LoadsInFile := by decide +kernel
  have hrels : importing.elf.relocations = _ := Elf64.relocations_importElf
  have hsymbols : importing.elf.dynamicSymbols = _ := Elf64.dynamicSymbols_importElf
  have hloc : ∀ rel ∈ importing.elf.relocations,
      Located importing importing.elf.dynamicSymbols importing.copied.length rel := by
    intro rel hrel
    rw [hrels, List.mem_singleton] at hrel
    subst hrel
    rw [length_copied hin, hsymbols]
    exact ⟨⟨.external ⟨"f", 0x12, 0, 0, 0x20, 4⟩, rfl⟩, ⟨1, 0x140B8, 0xB8⟩, rfl, by decide⟩
  obtain ⟨st, hst⟩ := (relocateAll_isOk_iff "_a2i_" { image := importing.copied }).mpr hloc
  have hrun := relocated_of_relocateAll hst
  have hapart : importing.elf.relocations.Pairwise importing.PlacesApart := by
    rw [hrels]
    exact List.pairwise_singleton _ _
  obtain ⟨new, hnew, hforall⟩ := bindsWith_of_relocateAll hapart hst
  have hexternal : importing.elf.relocations.filterMap
      (Relocation.external? importing.elf.dynamicSymbols) =
        [(⟨0x100B8, 1026, 1, 0⟩, ⟨"f", 0x12, 0, 0, 0x20, 4⟩)] := by
    rw [hrels, hsymbols]
    rfl
  rw [hexternal] at hforall
  obtain ⟨b, rest, hb, hrest, rfl⟩ := List.forall₂_cons_left_iff.mp hforall
  obtain rfl := List.forall₂_nil_left_iff.mp hrest
  have hsame : b = importBinding := hb.unique
    ⟨⟨rfl, rfl, rfl, rfl, rfl, ⟨1, 0x140B8, 0xB8⟩, rfl, rfl⟩, fun _ _ => rfl⟩
  refine ⟨st, hst, ?_, by rw [hnew, hsame]; rfl, ?_⟩
  · rw [hrun.rebases, hrels, hsymbols]
    rfl
  · rw [hrun.length_image]
    exact length_copied hin

lemma exists_translation_importing : ∃ t : importing.Translation {},
    t.st.bindings = [importBinding] ∧
      t.linkedit = importing.linkedit importing.dataEnd 2 15 ∧ t.Fits := by
  obtain ⟨st, hst, hrebases, hbindings, hlen⟩ := fixups_importing
  have hrs : rebaseStream st.rebases = .ok [0x11, 0x00] := by
    rw [hrebases]
    decide +kernel
  have hbs : bindStream st.bindings = .ok [0x11, 0x51, 0x40, 0x5F, 0x61, 0x32, 0x69, 0x5F, 0x66,
      0x00, 0x71, 0xB8, 0x01, 0x90, 0x00] := by
    rw [hbindings]
    decide +kernel
  have hle : (⟨st, _, _, hst, hrs, hbs⟩ : importing.Translation {}).linkedit =
      importing.linkedit importing.dataEnd 2 15 := by
    rw [Translation.linkedit, hlen]
    rfl
  exact ⟨_, hbindings, hle, Translation.fits_of_linkedit hle (by decide +kernel)
    (by decide +kernel) (by decide +kernel) (by decide +kernel) (by decide +kernel)⟩

lemma shimComplete_importing : ShimComplete acceptsPlain importing.elf := by
  have hstubs : stubNames importing.elf = ["f"] := by
    rw [stubNames, show importing.elf = Elf64.importElf from rfl, importRecords_importElf]
    rfl
  have hrels : importing.elf.relocations = _ := Elf64.relocations_importElf
  have hsymbols : importing.elf.dynamicSymbols = _ := Elf64.dynamicSymbols_importElf
  refine shimComplete_iff.mpr ⟨fun _ => by rw [hstubs]; decide, fun rel hrel symbol hfix => ?_⟩
  rw [hrels, List.mem_singleton] at hrel
  rw [hrel, hsymbols] at hfix
  obtain rfl := Fixup.external.inj (Option.some.inj hfix)
  refine ⟨acceptsStubs_iff.mpr fun name hname => ?_, .inr (by rw [hstubs]; decide)⟩
  rw [hstubs, List.mem_singleton] at hname
  rw [hname]
  decide +kernel

/-- The library with an import binds `_a2i_f`, and `trap.S` defines it. -/
theorem definesBinds_importing : ∃ out b, importing.translate {} = .ok out ∧
    bindsOf out.file = some [b] ∧ b.symbol = utf8 "_a2i_f" ∧
    DefinesBinds ((generateShimScaffold "libil2cpp.so" importing.elf).globals acceptsPlain)
      out.file := by
  obtain ⟨t, hbindings, -, hfits⟩ := exists_translation_importing
  have hout := translate_eq_ok.mpr ⟨t, hfits, rfl⟩
  have hbinds := hfits.bindsOf (by decide)
  rw [hbindings] at hbinds
  exact ⟨_, _, hout, hbinds, rfl, (definesBinds_iff rfl acceptsNames_acceptsPlain hout
    "libil2cpp.so").mpr shimComplete_importing⟩

end Phase3Translator

/-! ### An import with the name of the helper -/

/-- The small library with other sections: the symbols are the nameless one and an undefined
function `unimplemented`. -/
def Elf64.helperFile : Bytes :=
  [0x7F, 0x45, 0x4C, 0x46, 2, 1, 1] ++ List.replicate 9 0 ++
  -- type, machine, version, entry, tables
  leBytes 2 3 ++ leBytes 2 183 ++ leBytes 4 1 ++ leBytes 8 0 ++ leBytes 8 0x40 ++
  leBytes 8 0xF0 ++ leBytes 4 0 ++ leBytes 2 64 ++ leBytes 2 56 ++ leBytes 2 2 ++
  leBytes 2 64 ++ leBytes 2 3 ++ leBytes 2 0 ++
  -- program headers
  leBytes 4 1 ++ leBytes 4 5 ++ leBytes 8 0 ++ leBytes 8 0 ++ leBytes 8 0 ++ leBytes 8 0xB0 ++
  leBytes 8 0xB0 ++ leBytes 8 0x10000 ++
  leBytes 4 1 ++ leBytes 4 6 ++ leBytes 8 0xB0 ++ leBytes 8 0x100B0 ++ leBytes 8 0x100B0 ++
  leBytes 8 0x20 ++ leBytes 8 0x30 ++ leBytes 8 0x10000 ++
  -- dynamic symbols, then their names
  List.replicate 24 0 ++
  leBytes 4 1 ++ [0x12, 0] ++ leBytes 2 0 ++ leBytes 8 0 ++ leBytes 8 0 ++
  [0, 0x75, 0x6E, 0x69, 0x6D, 0x70, 0x6C, 0x65, 0x6D, 0x65, 0x6E, 0x74, 0x65, 0x64, 0, 0] ++
  -- section headers
  List.replicate 64 0 ++
  leBytes 4 0 ++ leBytes 4 11 ++ leBytes 8 0 ++ leBytes 8 0 ++ leBytes 8 0xB0 ++ leBytes 8 48 ++
  leBytes 4 2 ++ leBytes 4 1 ++ leBytes 8 8 ++ leBytes 8 24 ++
  leBytes 4 0 ++ leBytes 4 3 ++ leBytes 8 0 ++ leBytes 8 0 ++ leBytes 8 0xE0 ++ leBytes 8 15 ++
  leBytes 4 0 ++ leBytes 4 0 ++ leBytes 8 1 ++ leBytes 8 0

/-- What the parser makes of it. -/
def Elf64.helperElf : Elf64 where
  data := helperFile
  eType := etDyn
  eMachine := emAarch64
  programHeaders := [⟨1, 5, 0, 0, 0xB0, 0xB0, 0x10000⟩, ⟨1, 6, 0xB0, 0x100B0, 0x20, 0x30, 0x10000⟩]
  sections := [⟨0, 0, 0, 0, 0, 0, 0, 0, 0, 0, ""⟩, ⟨0, 11, 0, 0, 0xB0, 48, 2, 1, 8, 24, ""⟩,
    ⟨0, 3, 0, 0, 0xE0, 15, 0, 0, 1, 0, ""⟩]

lemma Elf64.parse_helperFile : parse helperFile = .ok helperElf := by decide +kernel

namespace Phase3Translator

/-- The translator of that library. -/
def helper : Phase3Translator := { small with
  elf := Elf64.helperElf
  machine := rfl
  type := rfl }

lemma exists_output_helper : ∃ out, helper.translate {} = .ok out := by
  have hrels : helper.elf.relocations = [] := by decide +kernel
  obtain ⟨t, ht⟩ : ∃ t : helper.Translation {},
      t.linkedit = helper.linkedit helper.dataEnd 2 3 := by
    refine exists_translation (T := helper) [0x11, 0x00] (by decide +kernel) ?_
      (by rw [hrels]; rfl) (by rw [hrels]; rfl)
    simp [hrels]
  exact (t.fits_of_linkedit ht (by decide +kernel) (by decide +kernel) (by decide +kernel)
    (by decide +kernel) (by decide +kernel)).exists_output

/-- The translator writes a file for the library.  The label `_a2i_unimplemented` is in `trap.S`,
and `special.c` defines the function `a2i_unimplemented`. -/
theorem helper_defined_twice : ∃ out, Elf64.parse Elf64.helperFile = .ok Elf64.helperElf ∧
    init Elf64.helperElf .default = .ok helper ∧ helper.translate {} = .ok out ∧
    ∀ accepts, AcceptsNames accepts →
      ¬ DefinesBinds ((generateShimScaffold "libil2cpp.so" helper.elf).globals accepts)
        out.file := by
  obtain ⟨out, hout⟩ := exists_output_helper
  refine ⟨out, Elf64.parse_helperFile, init_eq_ok.mpr ⟨rfl, rfl⟩, hout, ?_⟩
  intro accepts haccepts hdefines
  have hstubs : stubNames helper.elf = ["unimplemented"] := by decide +kernel
  have haccepted : AcceptsStubs accepts helper.elf := by
    refine acceptsStubs_iff.mpr fun name hname => ?_
    rw [hstubs, List.mem_singleton] at hname
    rw [hname]
    exact haccepts.accepts (by decide +kernel)
  refine (nodup_globals_iff haccepts "libil2cpp.so").mp hdefines.nodup haccepted ?_
  rw [hstubs]
  exact List.mem_singleton_self _

end Phase3Translator

end Apk2Ios
