import Apk2Ios.Lib.Utf8

/-!
# Records in a buffer

A record is a list of fields, each with its width in bytes, packed one after another.  A buffer
holds a byte string at an offset when the string starts there.  Packing and unpacking undo each
other.
-/

namespace Apk2Ios.Lib

/-- The buffer has the bytes at the offset. -/
def HoldsAt (buf : Bytes) (off : ℕ) (bs : Bytes) : Prop := bs <+: buf.drop off

instance (buf : Bytes) (off : ℕ) (bs : Bytes) : Decidable (HoldsAt buf off bs) :=
  inferInstanceAs (Decidable (_ <+: _))

namespace HoldsAt

variable {buf bs : Bytes} {off : ℕ}

lemma slice_eq (h : HoldsAt buf off bs) : slice buf off bs.length = bs :=
  (List.prefix_iff_eq_take.mp h).symm

/-- A string with bytes ends inside the buffer. -/
lemma le_length (h : HoldsAt buf off bs) (hne : 0 < bs.length) :
    off + bs.length ≤ buf.length := by
  have hle := h.length_le
  rw [List.length_drop] at hle
  omega

/-- What follows is what the string leaves of the buffer. -/
lemma drop_eq (h : HoldsAt buf off bs) : ∃ rest, buf.drop off = bs ++ rest := by
  obtain ⟨rest, hrest⟩ := h
  exact ⟨rest, hrest.symm⟩

end HoldsAt

/-! ### Packed fields -/

/-- The fields of a record, each a width and a value, one after another. -/
def packed (fields : List (ℕ × ℕ)) : Bytes := fields.flatMap fun f => leBytes f.1 f.2

/-- Every value is in the range of its width. -/
def FieldsFit (fields : List (ℕ × ℕ)) : Prop := ∀ f ∈ fields, f.2 < 256 ^ f.1

instance (fields : List (ℕ × ℕ)) : Decidable (FieldsFit fields) :=
  inferInstanceAs (Decidable (∀ _ ∈ _, _))

/-- The number of bytes of the fields. -/
def packedSize (fields : List (ℕ × ℕ)) : ℕ := (fields.map Prod.fst).sum

@[simp] lemma length_packed (fields : List (ℕ × ℕ)) :
    (packed fields).length = packedSize fields := by
  simp [packed, packedSize, List.length_flatMap]

/-- The value of the field of width `w` at an offset of a record, if it has one there. -/
def valueAt : List (ℕ × ℕ) → ℕ → ℕ → Option ℕ
  | [], _, _ => none
  | f :: _, 0, w => if f.1 = w then some f.2 else none
  | f :: fields, off + 1, w => if f.1 ≤ off + 1 then valueAt fields (off + 1 - f.1) w else none

/-- **A field of a packed record is read back at its offset.** -/
lemma leNat_slice_packed {fields : List (ℕ × ℕ)} (hfit : FieldsFit fields) {off w n : ℕ}
    (hvalue : valueAt fields off w = some n) : leNat (slice (packed fields) off w) = n := by
  induction fields generalizing off with
  | nil => simp [valueAt] at hvalue
  | cons f fields ih =>
    have hcons : packed (f :: fields) = leBytes f.1 f.2 ++ packed fields := rfl
    cases off with
    | zero =>
      obtain ⟨rfl, rfl⟩ : f.1 = w ∧ f.2 = n := by simpa [valueAt] using hvalue
      rw [hcons, slice, List.drop_zero, List.take_left' (length_leBytes f.1 f.2)]
      exact leNat_leBytes_of_lt (hfit f List.mem_cons_self)
    | succ off =>
      obtain ⟨hle, hrest⟩ : f.1 ≤ off + 1 ∧ valueAt fields (off + 1 - f.1) w = some n := by
        simpa [valueAt] using hvalue
      rw [← ih (fun g hg => hfit g (List.mem_cons_of_mem f hg)) hrest, hcons, slice, slice,
        List.drop_append, length_leBytes, List.drop_eq_nil_of_le (by simpa using hle),
        List.nil_append]

/-- The fields of a byte string for a list of widths. -/
def unpacked : List ℕ → Bytes → List (ℕ × ℕ)
  | [], _ => []
  | w :: ws, bs => (w, leNat (bs.take w)) :: unpacked ws (bs.drop w)

lemma fieldsFit_unpacked (ws : List ℕ) (bs : Bytes) : FieldsFit (unpacked ws bs) := by
  induction ws generalizing bs with
  | nil => simp [FieldsFit, unpacked]
  | cons w ws ih =>
    rintro f (_ | ⟨_, hf⟩)
    · have hlen : (bs.take w).length ≤ w := by
        rw [List.length_take]
        omega
      exact (leNat_lt _).trans_le (Nat.pow_le_pow_right (by omega) hlen)
    · exact ih _ f hf

/-- Unpacked fields pack to the string they come from. -/
lemma packed_unpacked {ws : List ℕ} {bs : Bytes} (h : bs.length = ws.sum) :
    packed (unpacked ws bs) = bs := by
  induction ws generalizing bs with
  | nil => simpa [packed, unpacked, eq_comm] using h
  | cons w ws ih =>
    rw [List.sum_cons] at h
    have htake : (bs.take w).length = w := by
      rw [List.length_take]
      omega
    have hdrop : (bs.drop w).length = ws.sum := by
      rw [List.length_drop]
      omega
    have hhead : leBytes w (leNat (bs.take w)) = bs.take w := by
      have hbytes := leBytes_leNat (bs.take w)
      rwa [htake] at hbytes
    have hcons : packed (unpacked (w :: ws) bs) =
        leBytes w (leNat (bs.take w)) ++ packed (unpacked ws (bs.drop w)) := rfl
    rw [hcons, hhead, ih hdrop, List.take_append_drop]

/-- The buffer has the packed record at the offset, and the record is in range. -/
structure HoldsRecord (buf : Bytes) (off : ℕ) (fields : List (ℕ × ℕ)) : Prop where
  bytes : HoldsAt buf off (packed fields)
  fit : FieldsFit fields

instance (buf : Bytes) (off : ℕ) (fields : List (ℕ × ℕ)) :
    Decidable (HoldsRecord buf off fields) :=
  decidable_of_iff (HoldsAt buf off (packed fields) ∧ FieldsFit fields)
    ⟨fun h => ⟨h.1, h.2⟩, fun h => ⟨h.1, h.2⟩⟩

namespace HoldsRecord

variable {buf : Bytes} {off size : ℕ} {fields : List (ℕ × ℕ)}

lemma slice_eq (h : HoldsRecord buf off fields) (hsize : packedSize fields = size) :
    slice buf off size = packed fields := by
  rw [← hsize, ← length_packed]
  exact h.bytes.slice_eq

lemma le_length (h : HoldsRecord buf off fields) (hsize : packedSize fields = size)
    (hpos : 0 < size) : off + size ≤ buf.length := by
  rw [← hsize, ← length_packed] at hpos ⊢
  exact h.bytes.le_length hpos

/-- A reader of the record gets its fields. -/
lemma leNat_slice (h : HoldsRecord buf off fields) (hsize : packedSize fields = size)
    {pos w n : ℕ} (hvalue : valueAt fields pos w = some n) :
    leNat (slice (slice buf off size) pos w) = n := by
  rw [h.slice_eq hsize]
  exact leNat_slice_packed h.fit hvalue

end HoldsRecord

/-- Bytes inside a buffer are a record of every list of widths that fills them. -/
lemma holdsRecord_unpacked {buf : Bytes} {off : ℕ} (ws : List ℕ)
    (h : off + ws.sum ≤ buf.length) :
    HoldsRecord buf off (unpacked ws (slice buf off ws.sum)) where
  bytes := by
    rw [packed_unpacked (length_slice_of_le h)]
    exact List.take_prefix _ _
  fit := fieldsFit_unpacked _ _

/-! ### Strings in a string table -/

/-- The bytes of a string, up to its NUL. -/
lemma takeWhile_cstring {buf bs : Bytes} {off : ℕ} (h : HoldsAt buf off (bs ++ [0]))
    (hbs : (0 : UInt8) ∉ bs) : (buf.drop off).takeWhile (· ≠ 0) = bs := by
  obtain ⟨rest, hrest⟩ := h.drop_eq
  have hall : ∀ b ∈ bs, (b ≠ 0) = true := fun b hb => by
    simpa using fun hzero : b = 0 => hbs (hzero ▸ hb)
  rw [hrest, List.append_assoc, List.takeWhile_append_of_pos (by simpa using hall)]
  simp

end Apk2Ios.Lib
