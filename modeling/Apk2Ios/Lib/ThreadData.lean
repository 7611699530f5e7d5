import Mathlib.Data.Finset.Insert
import Mathlib.Data.Finset.Erase

/-!
# Thread-specific data

A store in which every thread has a value of its own under every live key.  What a thread
reads is given by the history of the accesses alone.  A store may be kept in another one,
under the keys an injective map gives: it then reads the same.
-/

namespace Apk2Ios.Lib

/-- The live keys, and the value of every thread under every key.  The value `0` is none. -/
structure ThreadData (κ τ α : Type*) where
  live : Finset κ
  value : κ → τ → α

/-- What changes a store. -/
inductive Access (κ τ α : Type*) where
  | create (k : κ)
  | delete (k : κ)
  | set (t : τ) (k : κ) (v : α)

namespace Access

variable {κ τ α : Type*} [DecidableEq κ] [DecidableEq τ] [Zero α]

/-- The key has been created and not deleted since.  The newest access is the first. -/
def Live : List (Access κ τ α) → κ → Prop
  | [], _ => False
  | .create k' :: h, k => k' = k ∨ Live h k
  | .delete k' :: h, k => k' ≠ k ∧ Live h k
  | .set .. :: h, k => Live h k

/-- The value the thread `t` last set under `k` since the last creation of `k`. -/
def lastSet : List (Access κ τ α) → τ → κ → α
  | [], _, _ => 0
  | .create k' :: h, t, k => if k' = k then 0 else lastSet h t k
  | .delete _ :: h, t, k => lastSet h t k
  | .set t' k' v :: h, t, k => if t' = t ∧ k' = k then v else lastSet h t k

end Access

namespace ThreadData

variable {κ κ' τ α : Type*} [DecidableEq κ] [DecidableEq κ'] [DecidableEq τ] [Zero α]
variable (d : ThreadData κ τ α)

omit [DecidableEq κ] in
/-- No key is live. -/
def empty : ThreadData κ τ α := ⟨∅, fun _ _ => 0⟩

/-- A key begins, without a value in any thread. -/
def create (k : κ) : ThreadData κ τ α := ⟨insert k d.live, Function.update d.value k fun _ => 0⟩

/-- A key ends. -/
def delete (k : κ) : ThreadData κ τ α := ⟨d.live.erase k, d.value⟩

/-- The thread `t` sets its value under the key `k`. -/
def set (t : τ) (k : κ) (v : α) : ThreadData κ τ α :=
  ⟨d.live, Function.update d.value k (Function.update (d.value k) t v)⟩

/-- What the thread `t` reads under the key `k`. -/
def get (t : τ) (k : κ) : α := if k ∈ d.live then d.value k t else 0

/-- The store after a history of accesses, from the empty one. -/
def after : List (Access κ τ α) → ThreadData κ τ α
  | [] => empty
  | .create k :: h => (after h).create k
  | .delete k :: h => (after h).delete k
  | .set t k v :: h => (after h).set t k v

/-! ### Histories -/

variable (h : List (Access κ τ α)) (t : τ) (k : κ)

lemma mem_live_after : k ∈ (after h).live ↔ Access.Live h k := by
  induction h with
  | nil => simp [after, empty, Access.Live]
  | cons a h ih =>
    cases a with
    | create k' => simp [after, create, Access.Live, ih, eq_comm]
    | delete k' => simp [after, delete, Access.Live, ih, eq_comm]
    | set t' k' v => simp [after, set, Access.Live, ih]

lemma value_after : (after h).value k t = Access.lastSet h t k := by
  induction h with
  | nil => rfl
  | cons a h ih =>
    cases a with
    | create k' =>
      show Function.update (after h).value k' (fun _ => 0) k t = _
      rw [Access.lastSet]
      rcases eq_or_ne k' k with rfl | hk
      · simp
      · rw [Function.update_of_ne hk.symm, ih, if_neg hk]
    | delete k' => exact ih
    | set t' k' v =>
      show Function.update (after h).value k' _ k t = _
      rw [Access.lastSet]
      rcases eq_or_ne k' k with rfl | hk
      · rw [Function.update_self]
        rcases eq_or_ne t' t with rfl | ht
        · simp
        · rw [Function.update_of_ne ht.symm, ih, if_neg (by simp [ht])]
      · rw [Function.update_of_ne hk.symm, ih, if_neg (by simp [hk])]

variable {h t k}

/-- A thread reads the value it last set. -/
lemma get_after (hk : Access.Live h k) : (after h).get t k = Access.lastSet h t k := by
  rw [get, if_pos ((mem_live_after h k).mpr hk), value_after]

/-! ### A store kept in another one -/

/-- The live keys of `a` are those at which `g` is defined; `g` takes them, one to one, to
live keys of `c` with the same values. -/
structure Keeps (g : κ → Option κ') (a : ThreadData κ τ α) (c : ThreadData κ' τ α) : Prop where
  live : ∀ k, k ∈ a.live ↔ (g k).isSome
  mem : ∀ k l, g k = some l → l ∈ c.live
  value : ∀ k l, g k = some l → c.value l = a.value k
  injective : ∀ k k' l, g k = some l → g k' = some l → k = k'

namespace Keeps

variable {g : κ → Option κ'} {a : ThreadData κ τ α} {c : ThreadData κ' τ α} {l : κ'}

omit [DecidableEq κ] [DecidableEq κ'] [DecidableEq τ] in
/-- The empty store is kept anywhere. -/
lemma empty : Keeps (fun _ => none) (empty : ThreadData κ τ α) c :=
  ⟨fun k => by simp [ThreadData.empty], nofun, nofun, nofun⟩

omit [DecidableEq τ] in
lemma get (hs : Keeps g a c) (hk : g k = some l) (t : τ) : c.get t l = a.get t k := by
  have hlive : k ∈ a.live := (hs.live k).mpr (by rw [hk]; rfl)
  rw [ThreadData.get, ThreadData.get, if_pos (hs.mem k l hk), if_pos hlive, hs.value k l hk]

omit [DecidableEq τ] in
/-- A new key is kept under a fresh one. -/
lemma create (hs : Keeps g a c) (hl : l ∉ c.live) :
    Keeps (Function.update g k (some l)) (a.create k) (c.create l) := by
  have hold : ∀ k' l', Function.update g k (some l) k' = some l' →
      k' = k ∧ l' = l ∨ k' ≠ k ∧ l' ≠ l ∧ g k' = some l' := by
    rintro k' l' h
    rcases eq_or_ne k' k with rfl | hk'
    · rw [Function.update_self] at h
      exact Or.inl ⟨rfl, (Option.some.inj h).symm⟩
    · rw [Function.update_of_ne hk'] at h
      refine Or.inr ⟨hk', ?_, h⟩
      rintro rfl
      exact hl (hs.mem k' l' h)
  refine ⟨fun k' => ?_, fun k' l' h => ?_, fun k' l' h => ?_, fun k' k'' l' h h' => ?_⟩
  · rcases eq_or_ne k' k with rfl | hk'
    · simp [ThreadData.create]
    · rw [Function.update_of_ne hk', ← hs.live k']
      simp [ThreadData.create, hk']
  · rcases hold k' l' h with ⟨-, rfl⟩ | ⟨-, -, h⟩
    · exact Finset.mem_insert_self _ _
    · exact Finset.mem_insert_of_mem (hs.mem k' l' h)
  · show Function.update c.value l _ l' = Function.update a.value k _ k'
    rcases hold k' l' h with ⟨rfl, rfl⟩ | ⟨hk', hl', h⟩
    · rw [Function.update_self, Function.update_self]
    · rw [Function.update_of_ne hk', Function.update_of_ne hl', hs.value k' l' h]
  · rcases hold k' l' h with ⟨rfl, rfl⟩ | ⟨-, hl', h⟩ <;>
      rcases hold k'' _ h' with ⟨hk'', hl''⟩ | ⟨-, hl'', h'⟩
    · exact hk''.symm
    · exact absurd rfl hl''
    · exact absurd hl'' hl'
    · exact hs.injective _ _ _ h h'

omit [DecidableEq τ] [Zero α] in
lemma delete (hs : Keeps g a c) (hk : g k = some l) :
    Keeps (Function.update g k none) (a.delete k) (c.delete l) := by
  have hold : ∀ k' l', Function.update g k none k' = some l' → k' ≠ k ∧ g k' = some l' := by
    rintro k' l' h
    rcases eq_or_ne k' k with rfl | hk'
    · simp at h
    · rw [Function.update_of_ne hk'] at h
      exact ⟨hk', h⟩
  refine ⟨fun k' => ?_, fun k' l' h => ?_, fun k' l' h => ?_, fun k' k'' l' h h' => ?_⟩
  · rcases eq_or_ne k' k with rfl | hk'
    · simp [ThreadData.delete]
    · rw [Function.update_of_ne hk', ← hs.live k']
      simp [ThreadData.delete, hk']
  · obtain ⟨hk', h⟩ := hold k' l' h
    refine Finset.mem_erase.mpr ⟨?_, hs.mem k' l' h⟩
    rintro rfl
    exact hk' (hs.injective _ _ _ h hk)
  · exact hs.value k' l' (hold k' l' h).2
  · exact hs.injective _ _ _ (hold k' l' h).2 (hold k'' l' h').2

omit [Zero α] in
lemma set (hs : Keeps g a c) (hk : g k = some l) (t : τ) (v : α) :
    Keeps g (a.set t k v) (c.set t l v) := by
  refine ⟨hs.live, hs.mem, fun k' l' h => ?_, hs.injective⟩
  show Function.update c.value l _ l' = Function.update a.value k _ k'
  rcases eq_or_ne k' k with rfl | hk'
  · obtain rfl := Option.some.inj (h.symm.trans hk)
    rw [Function.update_self, Function.update_self, hs.value k' l' h]
  · have hl' : l' ≠ l := by
      rintro rfl
      exact hk' (hs.injective _ _ _ h hk)
    rw [Function.update_of_ne hk', Function.update_of_ne hl', hs.value k' l' h]

end Keeps

end ThreadData

end Apk2Ios.Lib
