import Apk2Ios.MachO.Walk
import Apk2Ios.Phase3.Placed
import Apk2Ios.Phase4.Translate

/-!
# The header and the commands of all phases

Three emitters write commands in front of the copied data, behind one limit or another.  What
they write is walked and read back as it was meant, and ends before the data starts.
-/

namespace Apk2Ios

open Lib MachO

/-! ### Sizes -/

/-- The size of a library command. -/
def dylibSize (name : String) : ℕ := align (25 + (utf8 name).length) 8

/-- The header and the commands for `n` segments with sections. -/
def imageHeadLength (n : ℕ) (args : TranslateArgs) : ℕ :=
  32 + (232 * n + 72 + dylibSize args.shimInstallName + dylibSize args.installName + 24 + 48)

variable {name : String} {c : LoadCommand} {segs : List ImageSegment} {args : TranslateArgs}
  {le : Linkedit}

lemma length_encode_namedDylib (name : String) :
    8 + (namedDylib name).encode.length = dylibSize name := by
  have hle := le_align (v := 25 + (utf8 name).length) isPage_eight.pos
  have hraw : (utf8 name ++ [0]).length = (utf8 name).length + 1 := List.length_append
  have hpath : (namedDylib name).path.length = (utf8 name).length + 1 +
      (align (24 + ((utf8 name).length + 1)) 8 - 24 - ((utf8 name).length + 1)) := by
    rw [← hraw, ← List.length_replicate (n := align _ 8 - 24 - _) (a := (0 : UInt8)),
      ← List.length_append]
    rfl
  have hsum : 24 + ((utf8 name).length + 1) = 25 + (utf8 name).length := by omega
  rw [Dylib.encode, List.length_append, length_words, hpath, hsum, dylibSize]
  simp only [List.length_cons, List.length_nil]
  omega

/-- The zeros behind the name are no part of it. -/
lemma named_namedDylib (h : NulFree name) : (namedDylib name).Named (utf8 name) := by
  have hpath : (namedDylib name).path = utf8 name ++ [0] ++ _ := rfl
  refine ⟨?_, hpath ▸ List.prefix_append _ _⟩
  have hnul : ∀ b ∈ utf8 name, decide (b ≠ 0) = true := by
    intro b hb
    rw [decide_eq_true_eq]
    rintro rfl
    exact zero_notMem_utf8.mpr h hb
  rw [Dylib.name, hpath, List.append_assoc, List.takeWhile_append_of_pos hnul]
  exact List.append_nil _

lemma sized_namedDylib (h : NulFree name) (hbody : c.body = (namedDylib name).encode)
    (hcontents : c.contents = 24 + (namedDylib name).name.length + 1) : c.Sized := by
  have hsize : c.cmdsize = dylibSize name := by
    rw [LoadCommand.cmdsize, hbody, length_encode_namedDylib]
  refine ⟨hsize ▸ dvd_align isPage_eight _, ?_⟩
  have hle := le_align (v := 25 + (utf8 name).length) isPage_eight.pos
  rw [hcontents, hsize, (named_namedDylib h).name_eq, dylibSize]
  omega

lemma sized_imageLoadCommands (hshim : NulFree args.shimInstallName)
    (hname : NulFree args.installName) : ∀ c ∈ imageLoadCommands segs args le, c.Sized := by
  intro c hc
  simp only [imageLoadCommands, List.mem_append, List.mem_map, List.mem_cons, List.not_mem_nil,
    or_false] at hc
  rcases hc with ⟨seg, -, rfl⟩ | rfl | rfl | rfl | rfl | rfl
  · refine sized_segment (length_name16 _) fun t ht => ?_
    rcases List.mem_pair.mp ht with rfl | rfl
    · exact ⟨length_name16 _, length_name16 _⟩
    · exact ⟨length_name16 _, length_name16 _⟩
  · exact sized_segment (length_name16 _) fun t ht => absurd ht List.not_mem_nil
  · exact sized_namedDylib hshim rfl rfl
  · exact sized_namedDylib hname rfl rfl
  · exact ⟨⟨3, rfl⟩, le_rfl⟩
  · exact ⟨⟨6, rfl⟩, le_rfl⟩

lemma cmdsize_command (seg : ImageSegment) : (LoadCommand.segment seg.command).cmdsize = 232 := by
  simp [LoadCommand.cmdsize, LoadCommand.body, Segment64.encode, Section64.encode,
    ImageSegment.command, ImageSegment.sentinel, ImageSegment.dataSection]

lemma cmdsize_plainSegment (name : String) (vmaddr vmsize fileoff filesize prot : ℕ) :
    (LoadCommand.segment (plainSegment name vmaddr vmsize fileoff filesize prot)).cmdsize = 72 := by
  simp [LoadCommand.cmdsize, LoadCommand.body, Segment64.encode, plainSegment]

lemma length_flatMap_encode (cs : List LoadCommand) :
    (cs.flatMap LoadCommand.encode).length = (cs.map LoadCommand.cmdsize).sum := by
  rw [List.length_flatMap]
  exact congrArg List.sum (List.map_congr_left fun c _ => c.length_encode)

/-- The values in the commands do not change how long they are. -/
lemma headLength_imageLoadCommands (segs : List ImageSegment) (args : TranslateArgs)
    (le : Linkedit) : headLength (imageLoadCommands segs args le) =
      imageHeadLength segs.length args := by
  have hsegs : ((segs.map fun seg => LoadCommand.segment seg.command).map
      LoadCommand.cmdsize).sum = 232 * segs.length := by
    have hconst : segs.map (LoadCommand.cmdsize ∘ fun seg => LoadCommand.segment seg.command) =
        segs.map fun _ => 232 := List.map_congr_left fun seg _ => cmdsize_command seg
    rw [List.map_map, hconst, List.map_const', List.sum_replicate, smul_eq_mul, Nat.mul_comm]
  have hlinkedit : (LoadCommand.segment le.command).cmdsize = 72 := cmdsize_plainSegment _ _ _ _ _ _
  have hload : (LoadCommand.loadDylib (namedDylib args.shimInstallName)).cmdsize =
      dylibSize args.shimInstallName := length_encode_namedDylib _
  have hid : (LoadCommand.idDylib (namedDylib args.installName)).cmdsize =
      dylibSize args.installName := length_encode_namedDylib _
  have hversion : (LoadCommand.buildVersion (iosVersion args.minIos)).cmdsize = 24 := rfl
  have hinfo : (LoadCommand.dyldInfo le.tables).cmdsize = 48 := rfl
  rw [headLength, length_flatMap_encode, imageLoadCommands, List.map_append, List.sum_append,
    hsegs]
  simp only [List.map_cons, List.map_nil, List.sum_cons, List.sum_nil, hlinkedit, hload, hid,
    hversion, hinfo, imageHeadLength]
  omega

/-! ### The commands and the data -/

/-- The header and the commands decode and end where the copied pieces may start. -/
structure HeadSafe (limit : ℕ) (pieces : List Piece) (copied file : Bytes) (im : Image) :
    Prop where
  decodes : Decodes file im
  ends : 32 + im.header.sizeofcmds ≤ limit
  pieces : ∀ p ∈ pieces, limit ≤ p.dst
  zeros : copied.take limit = List.replicate limit 0

namespace Phase2Translator

variable {T : Phase2Translator} {args : Phase2.TranslateArgs} {out : Phase2Output}

/-- Nothing is copied into the header page. -/
lemma take_copied : T.copied.take T.params.pageSize = List.replicate T.params.pageSize 0 := by
  have hle : T.params.pageSize ≤ (List.replicate T.dataEnd (0 : UInt8)).length :=
    T.pageSize_le_dataEnd.trans_eq List.length_replicate.symm
  rw [copied_eq, take_copyPieces T.plan.le_dst hle, List.take_replicate,
    Nat.min_eq_left T.pageSize_le_dataEnd]

lemma sized_loadCommands (hname : NulFree args.installName) :
    ∀ c ∈ T.loadCommands args, c.Sized := by
  have hplain : ∀ seg : MappedLoad, (LoadCommand.segment seg.command).Sized := fun seg =>
    sized_segment (length_name16 _) fun t ht => absurd ht List.not_mem_nil
  intro c hc
  simp only [loadCommands, List.cons_append, List.mem_cons, List.mem_append, List.mem_map,
    List.not_mem_nil, or_false] at hc
  rcases hc with rfl | ⟨seg, -, rfl⟩ | rfl | rfl
  · exact hplain _
  · exact hplain seg
  · exact sized_namedDylib hname rfl rfl
  · exact ⟨⟨3, rfl⟩, le_rfl⟩

lemma headLength_loadCommands (T : Phase2Translator) (args : Phase2.TranslateArgs) :
    headLength (T.loadCommands args) =
      32 + (72 * (T.loads.length + 1) + dylibSize args.installName + 24) := by
  have hsize : ∀ seg : MappedLoad, (LoadCommand.segment seg.command).cmdsize = 72 := by
    intro seg
    simp [LoadCommand.cmdsize, LoadCommand.body, Segment64.encode, MappedLoad.command]
  have hconst : T.loads.map (LoadCommand.cmdsize ∘ fun seg => LoadCommand.segment seg.command) =
      T.loads.map fun _ => 72 := List.map_congr_left fun seg _ => hsize seg
  have hid : (LoadCommand.idDylib (namedDylib args.installName)).cmdsize =
      dylibSize args.installName := length_encode_namedDylib _
  have hversion : (LoadCommand.buildVersion (iosVersion args.minIos)).cmdsize = 24 := rfl
  rw [headLength, length_flatMap_encode, loadCommands, List.map_append, List.sum_append,
    List.map_cons, List.sum_cons, hsize, List.map_map, hconst, List.map_const',
    List.sum_replicate, smul_eq_mul]
  simp only [List.map_cons, List.map_nil, List.sum_cons, List.sum_nil, hid, hversion]
  omega

theorem headSafe (hname : NulFree args.installName) (h : T.translate args = .ok out) :
    HeadSafe T.params.pageSize T.pieces T.copied out.file
      (dylibImage (T.loadCommands args) 0) := by
  simp only [translate, PyM.bind_eq_ok, commands_eq_ok, PyM.pure_eq_ok] at h
  obtain ⟨-, -, st, -, _, ⟨hfit, rfl⟩, file, hfile, rfl⟩ := h
  obtain ⟨⟨hn, hlt, hle⟩, rfl⟩ := (emitCommands_eq_ok (Nat.two_pow_pos 32)).mp hfile
  exact ⟨decodes_encode_append (dylibImage_valid hfit.valid hn hlt (Nat.two_pow_pos 32))
    (sized_loadCommands hname) _, hle, T.plan.le_dst, T.take_copied⟩

end Phase2Translator

theorem Phase3Translator.Translation.Fits.headSafe {T : Phase3Translator}
    {t : T.Translation args} (h : t.Fits) (hshim : NulFree args.shimInstallName)
    (hname : NulFree args.installName) :
    HeadSafe T.params.headerReserve T.pieces T.copied t.file
      (dylibImage t.commands dylibFlags) := by
  have hflags : dylibFlags < 2 ^ 32 := by decide
  exact ⟨decodes_encode_append (dylibImage_valid h.commands.valid h.count h.head.1 hflags)
    (sized_imageLoadCommands hshim hname) _, h.head.2, T.plan.le_dst, T.take_copied⟩

theorem Phase4Translator.Translation.Fits.headSafe {T : Phase4Translator}
    {t : T.Translation args} (h : t.Fits) (hshim : NulFree args.shimInstallName)
    (hname : NulFree args.installName) :
    HeadSafe T.params.headerReserve T.pieces T.copied t.file
      (dylibImage t.commands dylibFlags) := by
  have hflags : dylibFlags < 2 ^ 32 := by decide
  have hsized : ∀ c ∈ t.commands, c.Sized := by
    intro c hc
    rcases List.mem_append.mp hc with hc | hc
    · exact sized_imageLoadCommands hshim hname c hc
    · rcases List.mem_singleton.mp hc with rfl
      exact ⟨⟨3, rfl⟩, le_rfl⟩
  exact ⟨decodes_encode_append (dylibImage_valid h.valid h.count h.head.1 hflags) hsized _,
    h.head.2, T.plan.le_dst, T.take_copied⟩

/-- A result that is not returned is an error. -/
lemma exists_error {α : Type} {r : PyM α} (h : ∀ out, r ≠ .ok out) : ∃ e, r = .error e := by
  cases hr : r with
  | ok out => exact absurd hr (h out)
  | error e => exact ⟨e, rfl⟩

/-- **Load commands decode back to what was meant.**  For every file and all names without NUL:
when a phase returns, the header and the commands of its file read back as the ones that were
meant, a walk by their sizes ends after the bytes that the header counts, the names are ended by
a NUL, and the data is behind all of them.  When the commands do not fit, the phase raises. -/
theorem loadCommands_decode :
    (∀ (T : Phase2Translator) (args : Phase2.TranslateArgs), NulFree args.installName →
      (namedDylib args.installName).Named (utf8 args.installName) ∧
      (∀ out, T.translate args = .ok out → HeadSafe T.params.pageSize T.pieces T.copied out.file
        (dylibImage (T.loadCommands args) 0)) ∧
      (T.params.pageSize < 32 + (72 * (T.loads.length + 1) + dylibSize args.installName + 24) →
        ∃ e, T.translate args = .error e)) ∧
    (∀ (T : Phase3Translator) (args : TranslateArgs), NulFree args.shimInstallName →
      NulFree args.installName →
      (namedDylib args.shimInstallName).Named (utf8 args.shimInstallName) ∧
      (namedDylib args.installName).Named (utf8 args.installName) ∧
      (∀ out, T.translate args = .ok out → ∃ t : T.Translation args, out.file = t.file ∧
        HeadSafe T.params.headerReserve T.pieces T.copied out.file
          (dylibImage (imageLoadCommands T.segments args t.linkedit) dylibFlags)) ∧
      (T.params.headerReserve < imageHeadLength T.segments.length args →
        ∃ e, T.translate args = .error e)) ∧
    ∀ (T : Phase4Translator) (args : TranslateArgs), NulFree args.shimInstallName →
      NulFree args.installName →
      (namedDylib args.shimInstallName).Named (utf8 args.shimInstallName) ∧
      (namedDylib args.installName).Named (utf8 args.installName) ∧
      (∀ out, T.translate args = .ok out → ∃ t : T.Translation args, out.file = t.file ∧
        HeadSafe T.params.headerReserve T.pieces T.copied out.file
          (dylibImage (imageLoadCommands t.segments args t.linkedit ++ [.symtab t.symtab])
            dylibFlags)) ∧
      (T.params.headerReserve < imageHeadLength T.segments.length args + 24 →
        ∃ e, T.translate args = .error e) := by
  refine ⟨fun T args hname => ?_, fun T args hshim hname => ?_, fun T args hshim hname => ?_⟩
  · refine ⟨named_namedDylib hname, fun out h => T.headSafe hname h, fun hlong => ?_⟩
    -- a returned file has a header that ends in its room, which a long one does not
    refine exists_error fun out h => ?_
    have hends : headLength (T.loadCommands args) ≤ T.params.pageSize := (T.headSafe hname h).ends
    rw [T.headLength_loadCommands] at hends
    omega
  · refine ⟨named_namedDylib hshim, named_namedDylib hname, fun out h => ?_, fun hlong => ?_⟩
    · obtain ⟨t, ht, rfl⟩ := Phase3Translator.translate_eq_ok.mp h
      exact ⟨t, rfl, ht.headSafe hshim hname⟩
    · refine exists_error fun out h => ?_
      obtain ⟨t, ht, rfl⟩ := Phase3Translator.translate_eq_ok.mp h
      have hends := ht.head.2
      rw [Phase3Translator.Translation.commands, headLength_imageLoadCommands] at hends
      omega
  · refine ⟨named_namedDylib hshim, named_namedDylib hname, fun out h => ?_, fun hlong => ?_⟩
    · obtain ⟨t, ht, rfl⟩ := Phase4Translator.translate_eq_ok.mp h
      exact ⟨t, rfl, ht.headSafe hshim hname⟩
    · refine exists_error fun out h => ?_
      obtain ⟨t, ht, rfl⟩ := Phase4Translator.translate_eq_ok.mp h
      have hends := ht.head.2
      rw [t.headLength_commands, headLength_imageLoadCommands,
        Phase4Translator.Translation.segments, length_stretched] at hends
      omega

theorem loadCommands_decode_small :
    (∃ out, Phase2Translator.small.translate {} = .ok out ∧
      HeadSafe 0x4000 Phase2Translator.small.pieces Phase2Translator.small.copied out.file
        (dylibImage (Phase2Translator.small.loadCommands {}) 0)) ∧
    ∃ out, ∃ t : Phase4Translator.small.Translation {},
      Phase4Translator.small.translate {} = .ok out ∧ out.file = t.file := by
  obtain ⟨out, hout⟩ := Phase2Translator.exists_output_small
  obtain ⟨t, ht⟩ := Phase4Translator.exists_translation_small
  have hout' := Phase4Translator.translate_eq_ok.mpr ⟨t, ht, rfl⟩
  obtain ⟨h2, -, h4⟩ := loadCommands_decode
  obtain ⟨t', ht', -⟩ := (h4 Phase4Translator.small {} (by decide) (by decide)).2.2.1 _ hout'
  exact ⟨⟨out, hout, (h2 Phase2Translator.small {} (by decide)).2.1 out hout⟩, _, t', hout', ht'⟩

end Apk2Ios
