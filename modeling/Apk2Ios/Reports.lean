import Apk2Ios.Calls
import Apk2Ios.Phase3.Accounting
import Apk2Ios.Phase4.Header
import Apk2Ios.Shim.Defines

/-!
# What the reports say about the files

The reports of Phase 3 and Phase 4, compared with the files that they are about, as a loader
decodes these.  The numbers, the imports and the starts of the segments of a report are those of
the file.  Phase 4 takes over the report of Phase 3: its size of `__LINKEDIT` leaves out the
export trie and the string table.
-/

namespace Apk2Ios

open Lib MachO

/-! ### Agreement with a decoded file -/

/-- The row has the name of the segment and its places in the file and in memory, with those of
the section for the `PT_LOAD`. -/
structure SegmentRow.Describes (row : SegmentRow) (seg : Segment64) : Prop where
  name : seg.segname = name16 row.name
  vmaddr : seg.vmaddr = intHex row.vmaddr
  fileoff : seg.fileoff = intHex row.fileoff
  data : seg.sections[1]?.map (fun sec => (sec.addr, sec.offset)) =
    some (intHex row.dataAddr, intHex row.dataFileoff)

/-- The imports of the report are the symbols of the bind table, each with the number of its
binds. -/
structure Phase3Report.ListsBinds (report : Phase3Report) (binds : List Bind) : Prop where
  bindCount : report.bindCount = binds.length
  shimSymbolCount : report.shimSymbolCount = (binds.map Bind.symbol).dedup.length
  shimSymbols : ∀ symbol, symbol ∈ report.shimSymbols.map utf8 ↔ symbol ∈ binds.map Bind.symbol
  shimImports : ∀ symbol, symbol ∈ binds.map Bind.symbol →
    ∃ row ∈ report.shimImports, utf8 row.shimSymbol = symbol
  relocationCount : ∀ row ∈ report.shimImports,
    row.relocationCount = (binds.map Bind.symbol).count (utf8 row.shimSymbol)

/-- What the report of Phase 3, and the part of it in the report of Phase 4, says is so. -/
structure Phase3Report.Agrees (report : Phase3Report) (file : Bytes) (im : Image) : Prop where
  read : readImage file = some im
  outputSize : report.outputSize = file.length
  tables : ∃ info, im.dyldInfo? = some info ∧ info.rebaseOff = intHex report.linkeditFileoff ∧
    info.rebaseSize = report.rebaseStreamSize ∧ info.bindSize = report.bindStreamSize
  rebases : ∃ rebases, rebasesOf file = some rebases ∧ rebases.length = report.rebaseCount
  binds : ∃ binds, bindsOf file = some binds ∧ report.ListsBinds binds
  shimInstallName : ∃ d, LoadCommand.loadDylib d ∈ im.commands ∧
    d.Named (utf8 report.shimInstallName)
  segments : List.Forall₂ SegmentRow.Describes report.segments im.segments.dropLast
  linkedit : ∃ seg, im.segments.getLast? = some seg ∧ seg.segname = name16 "__LINKEDIT" ∧
    seg.vmaddr = intHex report.linkeditVmaddr ∧ seg.fileoff = intHex report.linkeditFileoff

/-- The sizes of the segments are those of the file. -/
structure Phase3Report.AgreesSizes (report : Phase3Report) (im : Image) : Prop where
  segments : List.Forall₂ (fun row seg => seg.vmsize = intHex row.vmsize ∧
    seg.filesize = intHex row.filesize) report.segments im.segments.dropLast
  linkedit : ∃ seg, im.segments.getLast? = some seg ∧ seg.filesize = report.linkeditSize

/-- What the report of Phase 4 adds is so: the export trie has as many names as it says and ends
one byte in front of the end of the file.  The size of `__LINKEDIT` is not the one of the file. -/
structure Phase4Report.AgreesExports (report : Phase4Report) (file : Bytes) (im : Image) :
    Prop where
  exports : ∃ info names, im.dyldInfo? = some info ∧ info.exportOff = intHex report.exportOffset ∧
    info.exportSize = report.exportStreamSize ∧
    exportsOf (slice file info.exportOff info.exportSize) = some names ∧
    names.length = report.exportCount
  hasIl2cppInit : report.hasIl2cppInit = true ↔
    ∃ info, exportedAs file im "_il2cpp_init" = some info
  fileEnd : intHex report.exportOffset + report.exportStreamSize + 1 = report.outputSize
  linkedit : ∃ seg, im.segments.getLast? = some seg ∧ seg.fileoff + seg.filesize = file.length ∧
    report.linkeditSize < seg.filesize

/-! ### The bind table -/

section

variable {bindings : List Binding}

/-- The first binding of a symbol names the row. -/
lemma foldl_countBinding {k : String} {l : List Binding} (hl : ∀ b ∈ l, b.symbol = k)
    {o : Option ShimImport} {row : ShimImport}
    (h : l.foldl (fun o b => some (countBinding b o)) o = some row) :
    (∃ row', o = some row' ∧ row.symbol = row'.symbol ∧ row.shimSymbol = row'.shimSymbol) ∨
      ∃ b ∈ l, row.symbol = b.symbol ∧ row.shimSymbol = b.shimSymbol := by
  induction l generalizing o with
  | nil => exact Or.inl ⟨row, h, rfl, rfl⟩
  | cons b l ih =>
    obtain ⟨-, hl⟩ := List.forall_mem_cons.mp hl
    rcases ih hl h with ⟨row', hrow', hsymbol, hshim⟩ | ⟨b', hb', hrow⟩
    · obtain rfl := Option.some.inj hrow'
      cases o with
      | none => exact Or.inr ⟨b, List.mem_cons_self, hsymbol, hshim⟩
      | some row₀ => exact Or.inl ⟨row₀, rfl, hsymbol, hshim⟩
    · exact Or.inr ⟨b', List.mem_cons_of_mem b hb', hrow⟩

/-- A row is that of a binding, and counts the bindings of its symbol. -/
lemma mem_bySymbol {k : String} {row : ShimImport} (h : (k, row) ∈ (bySymbol bindings).items) :
    row.symbol = k ∧ row.relocationCount = (bindings.map Binding.symbol).count k ∧
      ∃ b ∈ bindings, row.symbol = b.symbol ∧ row.shimSymbol = b.shimSymbol := by
  have hget := (Dict.mem_items_iff _).mp h
  have hstep : ∀ item row, (countBinding item row).relocationCount =
      row.elim 0 ShimImport.relocationCount + 1 := by
    rintro item (_ | row) <;> rfl
  have hcount : ((Dict.fill Binding.symbol countBinding bindings).get? k).elim 0
      ShimImport.relocationCount = (bindings.map Binding.symbol).count k :=
    Dict.measure_get?_fill hstep bindings k
  rw [← bySymbol_eq, hget] at hcount
  rw [bySymbol_eq, Dict.get?_fill] at hget
  have hkey : ∀ b ∈ bindings.filter fun b => b.symbol = k, b.symbol = k := fun b hb => by
    simpa using (List.mem_filter.mp hb).2
  rcases foldl_countBinding hkey hget with ⟨row', hrow', -⟩ | ⟨b, hb, hsymbol, hshim⟩
  · cases hrow'
  · exact ⟨hsymbol.trans (hkey b hb), hcount, b, List.mem_of_mem_filter hb, hsymbol, hshim⟩

lemma mem_shimImports {row : ShimImport} :
    row ∈ shimImports bindings ↔ ∃ k, (k, row) ∈ (bySymbol bindings).items := by
  rw [(shimImports_perm bindings).mem_iff, List.mem_map]
  constructor
  · rintro ⟨⟨k, row⟩, hitem, rfl⟩
    exact ⟨k, hitem⟩
  · rintro ⟨k, hitem⟩
    exact ⟨(k, row), hitem, rfl⟩

/-- Every binding has a row. -/
lemma exists_row {b : Binding} (h : b ∈ bindings) :
    ∃ row ∈ shimImports bindings, row.symbol = b.symbol := by
  have hkey : b.symbol ∈ (bySymbol bindings).items.map Prod.fst := by
    rw [bySymbol_eq, (Dict.fst_items_fill_perm Binding.symbol countBinding bindings).mem_iff,
      List.mem_dedup]
    exact List.mem_map_of_mem h
  obtain ⟨⟨k, row⟩, hitem, hk⟩ := List.mem_map.mp hkey
  exact ⟨row, mem_shimImports.mpr ⟨k, hitem⟩, (mem_bySymbol hitem).1.trans hk⟩

/-- The names in the shim are the symbols behind the prefix. -/
lemma map_shimSymbol {shimPrefix : String}
    (hshim : ∀ b ∈ bindings, b.shimSymbol = shimPrefix ++ b.symbol) :
    bindings.map Binding.shimSymbol = (bindings.map Binding.symbol).map (shimPrefix ++ ·) := by
  rw [List.map_map]
  exact List.map_congr_left hshim

lemma listsBinds {shimPrefix : String} {report : Phase3Report} (ordinal addend : ℕ)
    {items : List Binding} (hperm : items.Perm bindings)
    (hshim : ∀ b ∈ bindings, b.shimSymbol = shimPrefix ++ b.symbol)
    (hcount : report.bindCount = bindings.length)
    (hsymbolCount : report.shimSymbolCount = (shimSymbols bindings).length)
    (hsymbols : report.shimSymbols = shimSymbols bindings)
    (himports : report.shimImports = shimImports bindings) :
    report.ListsBinds (carriedBinds ordinal addend items) := by
  -- the bind table is sorted by location, the report by symbol: both count the same bindings
  have hbinds : ((carriedBinds ordinal addend items).map Bind.symbol).Perm
      ((bindings.map Binding.shimSymbol).map utf8) := by
    rw [Phase3Translator.map_symbol_carriedBinds]
    exact (hperm.map _).map _
  have hinj : Function.Injective (shimPrefix ++ ·) := fun a b hab =>
    (String.append_right_inj shimPrefix).mp hab
  constructor
  · rw [hcount, length_carriedBinds, hperm.length_eq]
  · rw [hsymbolCount, hbinds.dedup.length_eq, List.dedup_map_of_injective utf8_injective,
      List.length_map, shimSymbols, sortedSet, List.length_insertionSort]
  · intro symbol
    rw [hsymbols, hbinds.mem_iff, List.mem_map, List.mem_map]
    simp only [shimSymbols, mem_sortedSet]
  · intro symbol hsymbol
    rw [hbinds.mem_iff, List.map_map] at hsymbol
    obtain ⟨b, hb, rfl⟩ := List.mem_map.mp hsymbol
    obtain ⟨row, hrow, hrowSymbol⟩ := exists_row hb
    obtain ⟨k, hitem⟩ := mem_shimImports.mp hrow
    obtain ⟨-, -, b', hb', hsymbol', hshim'⟩ := mem_bySymbol hitem
    refine ⟨row, himports ▸ hrow, ?_⟩
    rw [Function.comp_apply, hshim', hshim b' hb', hshim b hb, ← hsymbol', hrowSymbol]
  · intro row hrow
    rw [himports] at hrow
    obtain ⟨k, hitem⟩ := mem_shimImports.mp hrow
    obtain ⟨hk, hrowCount, b, hb, hsymbol, hrowShim⟩ := mem_bySymbol hitem
    rw [hbinds.count_eq, List.count_map_of_injective _ _ utf8_injective, map_shimSymbol hshim,
      hrowShim, hshim b hb, List.count_map_of_injective _ _ hinj, ← hsymbol, hk, hrowCount]

end

/-! ### The reports of the phases -/

namespace Phase3Translator

variable {T : Phase3Translator} {args : TranslateArgs}

lemma Translation.shimSymbol_eq (t : T.Translation args) :
    ∀ b ∈ t.st.bindings, b.shimSymbol = args.shimPrefix ++ b.symbol := by
  intro b hb
  obtain ⟨new, hnew, hforall⟩ := t.relocated.bindings
  rw [hnew, List.nil_append] at hb
  obtain ⟨p, -, hbinds⟩ := exists_of_mem_forall₂ hforall hb
  rw [hbinds.shimSymbol, hbinds.symbol]

lemma describes_row (seg : ImageSegment) (filesize vmsize : ℕ) :
    seg.row.Describes { seg with filesize := filesize, vmsize := vmsize }.command where
  name := rfl
  vmaddr := (intHex_hex _).symm
  fileoff := (intHex_hex _).symm
  data := by simp [ImageSegment.row, ImageSegment.command, ImageSegment.dataSection, intHex_hex]

/-- What is so for the file of a phase that carries the segments and the tables of Phase 3. -/
lemma Translation.agrees {t : T.Translation args} {file : Bytes} {cs : List LoadCommand}
    {segs : List Segment64} {le : Linkedit} {report : Phase3Report}
    (hreport : report = { T.reportOf args t.st t.linkedit t.file with
      outputSize := file.length, note := report.note })
    (hread : readImage file = some (dylibImage cs dylibFlags))
    (hsegs : (dylibImage cs dylibFlags).segments = segs ++ [le.command])
    (hrows : List.Forall₂ SegmentRow.Describes (T.segments.map ImageSegment.row) segs)
    (hinfo : (dylibImage cs dylibFlags).dyldInfo? = some le.tables)
    (hvmaddr : le.vmaddr = t.linkedit.vmaddr) (hfileoff : le.fileoff = t.linkedit.fileoff)
    (hrebase : le.rebaseSize = t.linkedit.rebaseSize) (hbind : le.bindSize = t.linkedit.bindSize)
    (hrebases : rebasesOf file = some ((sortedBy id t.st.rebases).map pointerRebase))
    (hbinds : bindsOf file = some (carriedBinds 1 0 (sortedBy Binding.location t.st.bindings)))
    (hload : LoadCommand.loadDylib (namedDylib args.shimInstallName) ∈ cs)
    (hname : NulFree args.shimInstallName) :
    report.Agrees file (dylibImage cs dylibFlags) := by
  rw [hreport]
  refine ⟨hread, rfl, ⟨_, hinfo, ?_, hrebase, hbind⟩, ⟨_, hrebases, ?_⟩, ⟨_, hbinds, ?_⟩,
    ⟨_, hload, named_namedDylib hname⟩, ?_, ⟨le.command, ?_, rfl, ?_, ?_⟩⟩
  · exact hfileoff.trans (intHex_hex _).symm
  · rw [List.length_map, (sortedBy_perm id t.st.rebases).length_eq]
    rfl
  -- the library ordinal 1 is the shim, and the addend register starts at 0
  · exact listsBinds 1 0 (sortedBy_perm _ _) t.shimSymbol_eq rfl rfl rfl rfl
  · rw [hsegs, List.dropLast_concat]
    exact hrows
  · rw [hsegs, List.getLast?_concat]
  · exact hvmaddr.trans (intHex_hex _).symm
  · exact hfileoff.trans (intHex_hex _).symm

/-- The report of Phase 3. -/
lemma phase3Report_agrees {out : Phase3Output} (h : T.translate args = .ok out)
    (hshim : NulFree args.shimPrefix) (hname : NulFree args.shimInstallName) :
    ∃ im, out.report.Agrees out.file im ∧ out.report.AgreesSizes im := by
  obtain ⟨t, hfits, rfl⟩ := translate_eq_ok.mp h
  have hrows : ∀ {R : SegmentRow → Segment64 → Prop},
      (∀ seg : ImageSegment, R seg.row seg.command) →
        List.Forall₂ R (T.segments.map ImageSegment.row)
          (T.segments.map ImageSegment.command) := by
    intro R hR
    rw [List.forall₂_map_left_iff, List.forall₂_map_right_iff, List.forall₂_same]
    exact fun seg _ => hR seg
  refine ⟨dylibImage t.commands dylibFlags, t.agrees rfl hfits.file_spec.1 t.segments_file
    (hrows fun seg => describes_row seg seg.filesize seg.vmsize) t.dyldInfo?_file rfl rfl rfl rfl
    hfits.carries.rebases (hfits.bindsOf hshim) ?_ hname, ?_, ?_⟩
  · simp [Translation.commands, imageLoadCommands]
  · rw [t.segments_file, List.dropLast_concat]
    exact hrows fun seg => ⟨(intHex_hex _).symm, (intHex_hex _).symm⟩
  · rw [t.segments_file, List.getLast?_concat]
    exact ⟨_, rfl, rfl⟩

end Phase3Translator

namespace Phase4Translator

variable {T : Phase4Translator} {args : TranslateArgs}

lemma describes_stretched {linkedit : ℕ × ℕ} (segs : List ImageSegment) :
    List.Forall₂ SegmentRow.Describes (segs.map ImageSegment.row)
      ((stretched linkedit segs).map ImageSegment.command) := by
  induction segs with
  | nil => exact .nil
  | cons seg rest ih => exact .cons (Phase3Translator.describes_row seg _ _) ih

/-- The export trie of the written file has the exports and nothing else. -/
lemma Translation.Fits.exportedAs_iff {t : T.Translation args} (h : t.Fits) {name : String}
    {info : ExportInfo} :
    Apk2Ios.exportedAs t.file (dylibImage t.commands dylibFlags) name = some info ↔
      T.exports.get? name = some info.address ∧ info.flags = 0 := by
  obtain ⟨-, -, -, htrie, -⟩ := h.file_spec
  obtain ⟨root, -, -, hlaid⟩ := laidTrie_of_buildExportTrie nulFree_exports t.buildExportTrie
  obtain ⟨r, hr, hiff⟩ := hlaid.findExport (utf8 name)
  have hslice : slice t.file t.linkedit.tables.exportOff t.linkedit.tables.exportSize = t.trie :=
    htrie
  have hexported : Apk2Ios.exportedAs t.file (dylibImage t.commands dylibFlags) name = r := by
    rw [Apk2Ios.exportedAs, t.dyldInfo?_file, Option.bind_eq_bind, Option.bind_some, hslice, hr]
    rfl
  rw [hexported, hiff]
  constructor
  · rintro ⟨s, hs, haddress, hflags⟩
    exact ⟨utf8_injective hs ▸ haddress, hflags⟩
  · rintro ⟨haddress, hflags⟩
    exact ⟨name, rfl, haddress, hflags⟩

/-- The report of Phase 4. -/
lemma phase4Report_agrees {out : Phase4Output} (h : T.translate args = .ok out)
    (hshim : NulFree args.shimPrefix) (hname : NulFree args.shimInstallName) :
    ∃ im, out.report.Agrees out.file im ∧ out.report.AgreesExports out.file im := by
  obtain ⟨t, hfits, rfl⟩ := translate_eq_ok.mp h
  obtain ⟨hread, hlen, -, htrie, -⟩ := hfits.file_spec
  obtain ⟨-, -, h2, h3, h4, h5, h6⟩ := t.bounds
  refine ⟨dylibImage t.commands dylibFlags, t.base.agrees rfl hread t.segments_file
    (describes_stretched T.segments) t.dyldInfo?_file rfl rfl rfl rfl
    hfits.rebasesOf (hfits.bindsOf hshim) ?_ hname, ?_, ?_, ?_, ?_⟩
  · simp [Translation.commands, imageLoadCommands]
  · obtain ⟨root, -, -, hlaid⟩ := laidTrie_of_buildExportTrie nulFree_exports t.buildExportTrie
    obtain ⟨names, hnames, hperm⟩ := hlaid.exportsOf
    refine ⟨_, names, t.dyldInfo?_file, (intHex_hex _).symm, rfl, ?_, ?_⟩
    · exact (congrArg exportsOf htrie).trans hnames
    · rw [hperm.length_eq, List.length_map]
      rfl
  · show (T.exports.get? "_il2cpp_init").isSome = true ↔ _
    rw [Option.isSome_iff_exists]
    constructor
    · rintro ⟨address, haddress⟩
      exact ⟨⟨0, address⟩, hfits.exportedAs_iff.mpr ⟨haddress, rfl⟩⟩
    · rintro ⟨info, hinfo⟩
      exact ⟨info.address, (hfits.exportedAs_iff.mp hinfo).1⟩
  · show intHex (hex t.exportOff) + t.trie.length + 1 = t.file.length
    rw [intHex_hex, hlen, h5]
  · rw [t.segments_file, List.getLast?_concat]
    refine ⟨_, rfl, h6.trans hlen.symm, ?_⟩
    -- Phase 4 appends the export trie and the strings, which the size of Phase 3 leaves out
    have hend := (T.linkedit_bounds t.base.st.image.length t.base.rebases.length
      t.base.binds.length).2.2
    change t.linkedit.bindOff + t.linkedit.bindSize =
      t.linkedit.fileoff + t.base.linkedit.filesize at hend
    show t.base.linkedit.filesize < t.linkedit.filesize
    omega

end Phase4Translator

/-- **The reports tell what the files hold.**  When Phase 3 or Phase 4 returns, its file decodes,
and the report has the size of the file, the places and sizes of the tables, the numbers of
decoded rebases and binds, for every symbol of the bind table the number of its binds, the library
that the binds go to, and the places of all segments.  The report of Phase 3 has the sizes of the
segments; the one of Phase 4 counts the names that the export trie lists, says `il2cpp_init` is
exported exactly when the loader finds it, and gives a `__LINKEDIT` that is too small. -/
theorem reports_agree {args : TranslateArgs} (hshim : NulFree args.shimPrefix)
    (hname : NulFree args.shimInstallName) :
    (∀ (T : Phase3Translator) (out : Phase3Output), T.translate args = .ok out →
      ∃ im, out.report.Agrees out.file im ∧ out.report.AgreesSizes im) ∧
    ∀ (T : Phase4Translator) (out : Phase4Output), T.translate args = .ok out →
      ∃ im, out.report.Agrees out.file im ∧ out.report.AgreesExports out.file im :=
  ⟨fun _ _ h => Phase3Translator.phase3Report_agrees h hshim hname,
    fun _ _ h => Phase4Translator.phase4Report_agrees h hshim hname⟩

/-- The library that imports `f`, with the default arguments. -/
theorem reports_agree_importing : ∃ out im,
    Phase4Translator.importing.translate {} = .ok out ∧ out.report.Agrees out.file im ∧
      out.report.AgreesExports out.file im := by
  obtain ⟨out, -, hout, -⟩ := Phase4Translator.exists_output_importing
  have hagree := @reports_agree {} (by decide) (by decide)
  obtain ⟨im, him, hexports⟩ := hagree.2 Phase4Translator.importing out hout
  exact ⟨out, im, hout, him, hexports⟩

end Apk2Ios
