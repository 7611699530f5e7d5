import Apk2Ios.Phase3.Load

/-!
# Phase 3: the order of the relocations

When no two words overlap, every step of the loop sees its word as the library has it.  The
addend of a binding is then that of its relocation, and the order in which the sections list the
relocations leaves no trace in the image or in the two streams.
-/

namespace Apk2Ios

open Lib MachO

namespace Phase3Translator

variable {T : Phase3Translator}

/-! ### The addends of the bindings -/

/-- The binding of a relocation, with the addend that the image gives it. -/
structure BindsWith (T : Phase3Translator) (shimPrefix : String) (image : Bytes)
    (p : Relocation × DynamicSymbol) (b : Binding) : Prop extends T.BindsTo shimPrefix p b where
  addend : ∀ loc, T.location p.1.offset = .ok loc →
    b.addend = p.1.addend +
      if p.1.type = rAarch64Abs64 then (word image loc.outputOffset : ℤ) else 0

/-- The words of two relocations are apart in the output. -/
def PlacesApart (T : Phase3Translator) (r r' : Relocation) : Prop :=
  ∀ loc loc', T.location r.offset = .ok loc → T.location r'.offset = .ok loc' →
    Apart loc.outputOffset loc'.outputOffset

section

variable {symbols : List DynamicSymbol} {shimPrefix : String} {rels : List Relocation}

/-- A word that is patched is not that of a later relocation. -/
lemma BindsWith.of_patch {st : RelocState} {loc : Location} {rel : Relocation} {target : ℤ}
    {additive : Bool} {p : Relocation × DynamicSymbol} {b : Binding}
    (hloc : T.location rel.offset = .ok loc) (hle : loc.outputOffset + 8 ≤ st.image.length)
    (hapart : T.PlacesApart rel p.1)
    (h : T.BindsWith shimPrefix (T.patch st loc rel target additive).image p b) :
    T.BindsWith shimPrefix st.image p b := by
  refine { h with addend := fun loc' hloc' => ?_ }
  have hword : word (T.patch st loc rel target additive).image loc'.outputOffset =
      word st.image loc'.outputOffset := by
    have hfar := hapart loc loc' hloc hloc'
    rw [Apart] at hfar
    refine word_congr fun i hi => WordUpdate.getElem?_apply hle ?_
    show loc'.outputOffset + i < loc.outputOffset ∨ loc.outputOffset + 8 ≤ loc'.outputOffset + i
    omega
  rw [h.addend loc' hloc', hword]

/-- **The bindings of a run**: when no two words overlap, every addend is that of the relocation,
plus the word of the image before the run for `ABS64`. -/
lemma bindsWith_of_relocateAll {st st' : RelocState} (hapart : rels.Pairwise T.PlacesApart)
    (h : T.relocateAll symbols shimPrefix st rels = .ok st') :
    ∃ new, st'.bindings = st.bindings ++ new ∧
      List.Forall₂ (T.BindsWith shimPrefix st.image)
        (rels.filterMap (Relocation.external? symbols)) new := by
  induction rels generalizing st with
  | nil =>
    obtain rfl := PyM.pure_eq_ok.mp h
    exact ⟨[], by simp⟩
  | cons rel rels ih =>
    rw [List.pairwise_cons] at hapart
    rw [relocateAll, List.foldlM_cons, PyM.bind_eq_ok] at h
    obtain ⟨st₁, hstep, hrest⟩ := h
    obtain ⟨new, hnew, hforall⟩ := ih hapart.2 hrest
    obtain ⟨loc, hloc, hle, ⟨target, additive, hfix, rfl⟩ | ⟨symbol, hfix, hext⟩⟩ :=
      relocate_eq_ok.mp hstep
    · have hnone : rel.external? symbols = none := by simp [Relocation.external?, hfix]
      rw [List.filterMap_cons_none hnone]
      refine ⟨new, hnew, ?_⟩
      have hmem : ∀ p ∈ rels.filterMap (Relocation.external? symbols), T.PlacesApart rel p.1 := by
        intro p hp
        obtain ⟨r, hr, hext⟩ := List.mem_filterMap.mp hp
        rw [← (Relocation.external?_eq_some.mp hext).2]
        exact hapart.1 r hr
      exact ((List.forall₂_and_left _ _).mpr ⟨hmem, hforall⟩).imp
        fun p b hp => hp.2.of_patch hloc hle hp.1
    · have hsome : rel.external? symbols = some (rel, symbol) := by
        simp [Relocation.external?, hfix]
      obtain ⟨-, b, rfl, hb⟩ := relocateExternal_eq_ok.mp hext
      rw [List.filterMap_cons_some hsome]
      refine ⟨b :: new, by rw [hnew, List.append_assoc]; rfl, .cons ?_ hforall⟩
      subst hb
      refine ⟨⟨rfl, rfl, rfl, rfl, rfl, loc, hloc, rfl⟩, fun loc' hloc' => ?_⟩
      obtain rfl := Except.ok.inj (hloc.symm.trans hloc')
      rfl

end

lemma placesApart_of_held {rels : List Relocation} (hheld : WindowsHeld T.pieces rels)
    (hapart : WindowsApart rels) : rels.Pairwise T.PlacesApart := by
  refine hapart.imp_of_mem fun {r r'} hr hr' hrr loc loc' hloc hloc' => ?_
  obtain ⟨p, hp, hholds⟩ := hheld r hr
  obtain ⟨q, hq, hholds'⟩ := hheld r' hr'
  obtain ⟨seg, -, hfind, hout, -⟩ := exists_segment_of_location hloc
  obtain ⟨seg', -, hfind', hout', -⟩ := exists_segment_of_location hloc'
  obtain rfl := Option.some.inj (hp.symm.trans hfind)
  obtain rfl := Option.some.inj (hq.symm.trans hfind')
  rw [hout, hout']
  exact apart_position T.ascending_pieces (findPiece_eq_some hp).1 (findPiece_eq_some hq).1 hholds
    hholds' hrr

/-! ### Any order -/

section

variable {symbols : List DynamicSymbol} {shimPrefix : String} {rels rels' : List Relocation}
  {image : Bytes} {p q : Relocation × DynamicSymbol} {b c : Binding}

/-- Different relocations have different places in the tables. -/
lemma eq_of_location (hapart : WindowsApart rels)
    (hp : p ∈ rels.filterMap (Relocation.external? symbols))
    (hq : q ∈ rels.filterMap (Relocation.external? symbols))
    (hb : T.BindsWith shimPrefix image p b) (hc : T.BindsWith shimPrefix image q c)
    (h : b.location = c.location) : p = q := by
  obtain ⟨loc, hloc, hpair⟩ := hb.location
  obtain ⟨loc', hloc', hpair'⟩ := hc.location
  rw [hpair, hpair', Location.pair, Location.pair, Prod.mk.injEq] at h
  obtain ⟨-, ph, seg, -, hseg, -, -, hvm⟩ := location_place hloc
  obtain ⟨-, ph', seg', -, hseg', -, -, hvm'⟩ := location_place hloc'
  rw [h.1] at hseg
  obtain rfl := Option.some.inj (hseg.symm.trans hseg')
  have hoff : p.1.offset = q.1.offset := by omega
  obtain ⟨rel, hrel, hext⟩ := List.mem_filterMap.mp hp
  obtain ⟨rel', hrel', hext'⟩ := List.mem_filterMap.mp hq
  obtain ⟨hfix, rfl⟩ := Relocation.external?_eq_some.mp hext
  obtain ⟨hfix', rfl⟩ := Relocation.external?_eq_some.mp hext'
  have hsame : p.1 = q.1 := by
    by_contra hne
    have _ : Std.Symm fun r r' : Relocation => Apart r.offset r'.offset := ⟨fun _ _ h => h.symm⟩
    have hfar := List.Pairwise.forall hapart hrel hrel' hne
    rw [Apart] at hfar
    omega
  rw [hsame, hfix', Option.some.injEq, Fixup.external.injEq] at hfix
  exact Prod.ext hsame hfix.symm

/-- A relocation has one binding. -/
lemma BindsWith.unique (hb : T.BindsWith shimPrefix image p b)
    (hc : T.BindsWith shimPrefix image p c) : b = c := by
  obtain ⟨loc, hloc, hpair⟩ := hb.location
  obtain ⟨loc', hloc', hpair'⟩ := hc.location
  obtain rfl := Except.ok.inj (hloc.symm.trans hloc')
  have haddend := (hb.addend loc hloc).trans (hc.addend loc hloc).symm
  have hsame := Prod.ext_iff.mp (hpair.trans hpair'.symm)
  have h1 := hb.offset.trans hc.offset.symm
  have h2 := hb.type.trans hc.type.symm
  have h3 := hb.symbol.trans hc.symbol.symm
  have h4 := hb.shimSymbol.trans hc.shimSymbol.symm
  have h5 := hb.symbolType.trans hc.symbolType.symm
  rw [Binding.location, Binding.location] at hsame
  cases b
  cases c
  simp_all only

lemma count_comm (p : Patched) (a b : ℕ) : (p.count a).count b = (p.count b).count a := by
  simp only [Patched.count]
  split_ifs <;> rfl

/-- **The order of the relocations leaves no trace.**  When their words lie in their pieces and do
not overlap, the loop returns on every reordering of a list on which it returns, with the same
image, the same counters and the same two streams. -/
theorem relocateAll_perm (hperm : rels.Perm rels') (hheld : WindowsHeld T.pieces rels)
    (hapart : WindowsApart rels) {st : RelocState}
    (h : T.relocateAll symbols shimPrefix { image := image } rels = .ok st) :
    ∃ st', T.relocateAll symbols shimPrefix { image := image } rels' = .ok st' ∧
      st'.image = st.image ∧ st'.patched = st.patched ∧
      rebaseStream st'.rebases = rebaseStream st.rebases ∧
      bindStream st'.bindings = bindStream st.bindings := by
  have hheld' : WindowsHeld T.pieces rels' := fun r hr => hheld r (hperm.mem_iff.mpr hr)
  have hapart' : WindowsApart rels' := hperm.pairwise hapart fun hrr => hrr.symm
  have hrun := relocated_of_relocateAll h
  obtain ⟨st', h'⟩ := (relocateAll_isOk_iff shimPrefix { image := image }).mpr
    fun rel hrel => hrun.located rel (hperm.mem_iff.mpr hrel)
  -- both runs start from the same image, and what they do is read off the relocations
  have hrun' := relocated_of_relocateAll h'
  refine ⟨st', h', ?_, ?_, ?_, ?_⟩
  · have hpair : (wordUpdates T.slide symbols T.pieces rels).Pairwise
        fun u v => Apart u.pos v.pos := pairwise_wordUpdates T.ascending_pieces hheld hapart
    rw [hrun.image, hrun'.image]
    exact (applyUpdates_perm hrun.inside hpair (hperm.filterMap _)).symm
  · rw [hrun.patched, hrun'.patched]
    exact (hperm.filterMap _).symm.foldl_eq' (fun a _ b _ p => count_comm p a b) _
  · have hrebases : st'.rebases.Perm st.rebases := by
      rw [hrun.rebases, hrun'.rebases]
      exact (hperm.filterMap _).symm
    have hsorted : sortedBy id st'.rebases = sortedBy id st.rebases :=
      sortedBy_congr hrebases fun _ _ _ _ hab => hab
    rw [rebaseStream, rebaseStream, hsorted]
  · obtain ⟨new, hnew, hforall⟩ :=
      bindsWith_of_relocateAll (placesApart_of_held hheld hapart) h
    obtain ⟨new', hnew', hforall'⟩ :=
      bindsWith_of_relocateAll (placesApart_of_held hheld' hapart') h'
    rw [List.nil_append] at hnew hnew'
    -- the binding of a relocation depends on the image before the loop only
    have hunique : Relator.RightUnique (T.BindsWith shimPrefix image) :=
      fun _ _ _ hb hc => hb.unique hc
    have hbindings : st'.bindings.Perm st.bindings := by
      rw [hnew, hnew']
      exact List.rel_perm_imp hunique hforall' hforall (hperm.filterMap _).symm
    have hsorted : sortedBy Binding.location st'.bindings =
        sortedBy Binding.location st.bindings := by
      refine sortedBy_congr hbindings fun b hb c hc hsame => ?_
      rw [hnew'] at hb hc
      obtain ⟨p, hp, hbp⟩ := exists_of_mem_forall₂ hforall' hb
      obtain ⟨q, hq, hcq⟩ := exists_of_mem_forall₂ hforall' hc
      obtain rfl := eq_of_location hapart' hp hq hbp hcq hsame
      exact hbp.unique hcq
    rw [bindStream, bindStream, hsorted]

end

/-- Two pointers of the small library, in either order. -/
theorem relocateAll_perm_small : ∃ st st',
    small.relocateAll [] "_a2i_" { image := small.copied }
      [⟨0x100B8, 1027, 0, 0x10⟩, ⟨0x100C0, 1027, 0, 0x20⟩] = .ok st ∧
    small.relocateAll [] "_a2i_" { image := small.copied }
      [⟨0x100C0, 1027, 0, 0x20⟩, ⟨0x100B8, 1027, 0, 0x10⟩] = .ok st' ∧
    st.rebases = [(1, 0xB8), (1, 0xC0)] ∧ st'.rebases = [(1, 0xC0), (1, 0xB8)] ∧
    st'.image = st.image ∧ rebaseStream st'.rebases = rebaseStream st.rebases := by
  have hheld : WindowsHeld small.pieces [⟨0x100B8, 1027, 0, 0x10⟩, ⟨0x100C0, 1027, 0, 0x20⟩] := by
    simp only [WindowsHeld, List.forall_mem_cons, List.not_mem_nil, false_imp_iff, implies_true,
      and_true]
    exact ⟨⟨⟨0x100B0, 0xB0, 0x20, 0x140B0⟩, rfl, by decide⟩,
      ⟨0x100B0, 0xB0, 0x20, 0x140B0⟩, rfl, by decide⟩
  have hlen : small.copied.length = 0x18000 := by
    rw [length_copied (by decide +kernel)]
    decide +kernel
  have hlocated : ∀ rel ∈ ([⟨0x100B8, 1027, 0, 0x10⟩, ⟨0x100C0, 1027, 0, 0x20⟩] : List Relocation),
      Located small [] small.copied.length rel := by
    simp only [List.forall_mem_cons, List.not_mem_nil, false_imp_iff, implies_true, and_true,
      Located, hlen]
    exact ⟨⟨⟨_, rfl⟩, ⟨1, 0x140B8, 0xB8⟩, rfl, by decide⟩, ⟨_, rfl⟩, ⟨1, 0x140C0, 0xC0⟩, rfl,
      by decide⟩
  obtain ⟨st, hst⟩ := (relocateAll_isOk_iff "_a2i_" { image := small.copied }).mpr hlocated
  obtain ⟨st', hst', himage, -, hstream, -⟩ :=
    relocateAll_perm (.swap _ _ _) hheld (by decide) hst
  exact ⟨st, st', hst, hst', (relocated_of_relocateAll hst).rebases,
    (relocated_of_relocateAll hst').rebases, himage, hstream⟩

end Phase3Translator

end Apk2Ios
