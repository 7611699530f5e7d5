import Apk2Ios.Lib.Bytes

/-!
# Independent updates of words

A loader patches an image word by word.  When the patched words do not overlap, the order
of the patches does not matter: every word becomes the image of what it was before, and
every other byte stays.
-/

namespace Apk2Ios.Lib

/-- The number in the eight little-endian bytes at `off`. -/
def word (bs : Bytes) (off : ℕ) : ℕ := leNat (slice bs off 8)

/-- Words are equal where the bytes are. -/
lemma word_congr {bs bs' : Bytes} {off off' : ℕ} (h : ∀ i < 8, bs[off + i]? = bs'[off' + i]?) :
    word bs off = word bs' off' := by
  rw [word, word, slice_congr h]

/-- Two words at the given positions do not overlap. -/
def Apart (p q : ℕ) : Prop := p + 8 ≤ q ∨ q + 8 ≤ p

instance (p q : ℕ) : Decidable (Apart p q) := inferInstanceAs (Decidable (_ ∨ _))

lemma Apart.symm {p q : ℕ} (h : Apart p q) : Apart q p := Or.symm h

/-- An update of the word at `pos` by a function of its old value. -/
structure WordUpdate where
  pos : ℕ
  f : ℕ → ℕ

namespace WordUpdate

/-- Replace the word. -/
def apply (u : WordUpdate) (img : Bytes) : Bytes :=
  sliceAssign img u.pos 8 (leBytes 8 (u.f (word img u.pos)))

variable {u : WordUpdate} {img : Bytes}

lemma length_apply (h : u.pos + 8 ≤ img.length) : (u.apply img).length = img.length :=
  length_sliceAssign (length_leBytes 8 _) h

lemma getElem?_apply (h : u.pos + 8 ≤ img.length) {i : ℕ} (hi : i < u.pos ∨ u.pos + 8 ≤ i) :
    (u.apply img)[i]? = img[i]? := by
  rw [apply, getElem?_sliceAssign (length_leBytes 8 _) (by omega), if_neg (by omega)]

lemma word_apply_self (h : u.pos + 8 ≤ img.length) :
    word (u.apply img) u.pos = u.f (word img u.pos) % 2 ^ 64 := by
  rw [word, apply, slice_sliceAssign_self (length_leBytes 8 _) (by omega), leNat_leBytes,
    show 256 ^ 8 = 2 ^ 64 by norm_num]

end WordUpdate

/-- Apply updates one after another. -/
def applyUpdates (us : List WordUpdate) (img : Bytes) : Bytes :=
  us.foldl (fun img u => u.apply img) img

/-- All updated words lie inside the image. -/
def Inside (us : List WordUpdate) (img : Bytes) : Prop := ∀ u ∈ us, u.pos + 8 ≤ img.length

section

variable {us vs : List WordUpdate} {img : Bytes}

@[simp] lemma applyUpdates_nil (img : Bytes) : applyUpdates [] img = img := rfl

@[simp] lemma applyUpdates_cons (u : WordUpdate) (us : List WordUpdate) (img : Bytes) :
    applyUpdates (u :: us) img = applyUpdates us (u.apply img) := rfl

lemma applyUpdates_append (us vs : List WordUpdate) (img : Bytes) :
    applyUpdates (us ++ vs) img = applyUpdates vs (applyUpdates us img) := List.foldl_append

lemma Inside.tail {u : WordUpdate} (h : Inside (u :: us) img) : Inside us (u.apply img) := by
  intro v hv
  rw [WordUpdate.length_apply (h u List.mem_cons_self)]
  exact h v (List.mem_cons_of_mem u hv)

@[simp] lemma inside_append {img : Bytes} :
    Inside (us ++ vs) img ↔ Inside us img ∧ Inside vs img := by
  simp [Inside, or_imp, forall_and]

@[simp] lemma inside_cons {u : WordUpdate} :
    Inside (u :: us) img ↔ u.pos + 8 ≤ img.length ∧ Inside us img := by
  simp [Inside]

lemma length_applyUpdates (h : Inside us img) : (applyUpdates us img).length = img.length := by
  induction us generalizing img with
  | nil => rfl
  | cons u us ih =>
    rw [applyUpdates_cons, ih h.tail, WordUpdate.length_apply (h u List.mem_cons_self)]

/-- Bytes outside all updated words stay. -/
lemma getElem?_applyUpdates (h : Inside us img) {i : ℕ}
    (hi : ∀ u ∈ us, i < u.pos ∨ u.pos + 8 ≤ i) : (applyUpdates us img)[i]? = img[i]? := by
  induction us generalizing img with
  | nil => rfl
  | cons u us ih =>
    rw [applyUpdates_cons, ih h.tail fun v hv => hi v (List.mem_cons_of_mem u hv),
      WordUpdate.getElem?_apply (h u List.mem_cons_self) (hi u List.mem_cons_self)]

lemma word_applyUpdates_of_apart (h : Inside us img) {p : ℕ} (hp : ∀ u ∈ us, Apart u.pos p) :
    word (applyUpdates us img) p = word img p := by
  refine word_congr fun i hi => getElem?_applyUpdates h fun u hu => ?_
  have hap := hp u hu
  rw [Apart] at hap
  omega

/-- A word that no other update touches becomes the update of its original value. -/
lemma word_applyUpdates_split {u : WordUpdate} (h : Inside (us ++ u :: vs) img)
    (hus : ∀ v ∈ us, Apart v.pos u.pos) (hvs : ∀ v ∈ vs, Apart v.pos u.pos) :
    word (applyUpdates (us ++ u :: vs) img) u.pos = u.f (word img u.pos) % 2 ^ 64 := by
  rw [inside_append, inside_cons] at h
  have hlen := length_applyUpdates h.1
  have hu : u.pos + 8 ≤ (applyUpdates us img).length := by rw [hlen]; exact h.2.1
  have hin : Inside vs (u.apply (applyUpdates us img)) := by
    intro v hv
    rw [WordUpdate.length_apply hu, hlen]
    exact h.2.2 v hv
  rw [applyUpdates_append, applyUpdates_cons, word_applyUpdates_of_apart hin hvs,
    WordUpdate.word_apply_self hu, word_applyUpdates_of_apart h.1 hus]

/-- **Every word of pairwise apart updates becomes the update of its original value.** -/
theorem word_applyUpdates {u : WordUpdate} (h : Inside us img)
    (hapart : us.Pairwise fun u v => Apart u.pos v.pos) (hu : u ∈ us) :
    word (applyUpdates us img) u.pos = u.f (word img u.pos) % 2 ^ 64 := by
  obtain ⟨pre, post, rfl⟩ := List.append_of_mem hu
  rw [List.pairwise_append, List.pairwise_cons] at hapart
  obtain ⟨-, ⟨hpost, -⟩, hpre⟩ := hapart
  exact word_applyUpdates_split h (fun v hv => hpre v hv u List.mem_cons_self)
    fun v hv => (hpost v hv).symm

/-- Byte strings are equal when their words at some positions are, and their other bytes. -/
lemma ext_words {bs bs' : Bytes} (ps : List ℕ) (hlen : bs.length = bs'.length)
    (hin : ∀ p ∈ ps, p + 8 ≤ bs.length) (hwords : ∀ p ∈ ps, word bs p = word bs' p)
    (hbytes : ∀ i, (∀ p ∈ ps, i < p ∨ p + 8 ≤ i) → bs[i]? = bs'[i]?) : bs = bs' := by
  apply List.ext_getElem?
  intro i
  by_cases hi : ∃ p ∈ ps, p ≤ i ∧ i < p + 8
  · obtain ⟨p, hp, hle, hlt⟩ := hi
    have hlong := hin p hp
    have hslice : slice bs p 8 = slice bs' p 8 := by
      have h := length_slice_of_le hlong
      have h' := length_slice_of_le (hlen ▸ hlong)
      rw [← leBytes_leNat (slice bs p 8), ← leBytes_leNat (slice bs' p 8), h, h']
      exact congrArg (leBytes 8) (hwords p hp)
    have hbyte := congrArg (·[i - p]?) hslice
    simpa only [getElem?_slice, if_pos (show i - p < 8 by omega), Nat.add_sub_cancel' hle]
      using hbyte
  · refine hbytes i fun p hp => ?_
    by_contra hno
    exact hi ⟨p, hp, by omega, by omega⟩

/-- **The order of updates that are pairwise apart does not matter.** -/
theorem applyUpdates_perm (h : Inside us img) (hapart : us.Pairwise fun u v => Apart u.pos v.pos)
    (hperm : us.Perm vs) : applyUpdates us img = applyUpdates vs img := by
  have h' : Inside vs img := fun v hv => h v (hperm.mem_iff.mpr hv)
  have hapart' : vs.Pairwise fun u v => Apart u.pos v.pos :=
    hperm.pairwise hapart fun huv => huv.symm
  have hlen := length_applyUpdates h
  have hmem : ∀ p ∈ us.map WordUpdate.pos, ∃ u ∈ us, u.pos = p := fun p hp => List.mem_map.mp hp
  refine ext_words (us.map WordUpdate.pos) (hlen.trans (length_applyUpdates h').symm)
    ?_ ?_ fun i hi => ?_
  · intro p hp
    obtain ⟨u, hu, rfl⟩ := hmem p hp
    rw [hlen]
    exact h u hu
  · intro p hp
    obtain ⟨u, hu, rfl⟩ := hmem p hp
    rw [word_applyUpdates h hapart hu, word_applyUpdates h' hapart' (hperm.mem_iff.mp hu)]
  · have hout : ∀ u ∈ us, i < u.pos ∨ u.pos + 8 ≤ i :=
      fun u hu => hi u.pos (List.mem_map_of_mem hu)
    rw [getElem?_applyUpdates h hout,
      getElem?_applyUpdates h' fun v hv => hout v (hperm.mem_iff.mpr hv)]

end

end Apk2Ios.Lib
