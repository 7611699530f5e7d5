import Mathlib.Data.List.Nodup
import Mathlib.Data.List.Flatten
import Mathlib.Tactic.Tauto

/-!
# Tries

Trees whose edges carry keys and whose nodes carry labels.  A path of keys leads to at most
one node when the edges of every node are distinct, so a trie with a partial value on its
labels is a finite map from paths to values; changing the label at the end of a path updates
that map at the path and nowhere else.
-/

namespace Apk2Ios.Lib

/-- The children of a node, in the order in which they were added. -/
inductive Forest (κ α : Type) where
  | nil
  | cons (edge : κ) (label : α) (children rest : Forest κ α)
deriving DecidableEq, Repr

/-- A node with the tree below it. -/
structure Tree (κ α : Type) where
  label : α
  children : Forest κ α
deriving DecidableEq, Repr

variable {κ α β τ : Type}

namespace Forest

/-- The edges with the trees they lead to. -/
def items : Forest κ α → List (κ × Tree κ α)
  | nil => []
  | cons e a k r => (e, ⟨a, k⟩) :: r.items

/-- No node has two edges with one key. -/
def Distinct : Forest κ α → Prop
  | nil => True
  | cons e _ k r => e ∉ r.items.map Prod.fst ∧ k.Distinct ∧ r.Distinct

/-- Change every label. -/
def map (g : α → β) : Forest κ α → Forest κ β
  | nil => nil
  | cons e a k r => cons e (g a) (k.map g) (r.map g)

/-- All nodes with their paths. -/
def entries : Forest κ α → List (List κ × α)
  | nil => []
  | cons e a k r => ([e], a) :: (k.entries.map fun p => (e :: p.1, p.2)) ++ r.entries

/-- The keys of all edges. -/
def edges : Forest κ α → List κ
  | nil => []
  | cons e _ k r => e :: (k.edges ++ r.edges)

/-- All nodes, each before its children and those before what follows it. -/
def nodes : Forest κ α → List (Tree κ α)
  | nil => []
  | cons _ a k r => ⟨a, k⟩ :: (k.nodes ++ r.nodes)

/-- The length of the longest path. -/
def depth : Forest κ α → ℕ
  | nil => 0
  | cons _ _ k r => max (k.depth + 1) r.depth

/-- A path of new nodes. -/
def path (fresh : α) (f : α → α) : List κ → Forest κ α
  | [] => nil
  | [c] => cons c (f fresh) nil nil
  | c :: cs => cons c fresh (path fresh f cs) nil

section

variable [DecidableEq κ]

/-- The label at the end of a path. -/
def get? : Forest κ α → List κ → Option α
  | nil, _ => none
  | cons _ _ _ _, [] => none
  | cons e a k r, c :: cs =>
    if e = c then match cs with
      | [] => some a
      | _ :: _ => k.get? cs
    else r.get? (c :: cs)

/-- Change the label at the end of a path, adding nodes on the way where they are missing. -/
def update (fresh : α) (f : α → α) : Forest κ α → List κ → Forest κ α
  | nil, cs => path fresh f cs
  | cons e a k r, [] => cons e a k r
  | cons e a k r, c :: cs =>
    if e = c then match cs with
      | [] => cons e (f a) k r
      | _ :: _ => cons e a (k.update fresh f cs) r
    else cons e a k (r.update fresh f (c :: cs))

end

end Forest

namespace Tree

/-- The node and all nodes below it, each with its path. -/
def entries (t : Tree κ α) : List (List κ × α) := ([], t.label) :: t.children.entries

/-- The node and all nodes below it, each before its children. -/
def nodes (t : Tree κ α) : List (Tree κ α) := t :: t.children.nodes

/-- Change every label. -/
def map (g : α → β) (t : Tree κ α) : Tree κ β := ⟨g t.label, t.children.map g⟩

section

variable [DecidableEq κ]

/-- The label at the end of a path. -/
def get? (t : Tree κ α) : List κ → Option α
  | [] => some t.label
  | c :: cs => t.children.get? (c :: cs)

/-- Change the label at the end of a path, adding nodes on the way where they are missing. -/
def update (fresh : α) (f : α → α) (t : Tree κ α) : List κ → Tree κ α
  | [] => ⟨f t.label, t.children⟩
  | c :: cs => ⟨t.label, t.children.update fresh f (c :: cs)⟩

end

end Tree

/-! ### Children -/

namespace Forest

@[simp] lemma get?_nil [DecidableEq κ] (f : Forest κ α) : f.get? [] = none := by
  cases f <;> rfl

/-- A path goes through the first child with its first key. -/
lemma get?_cons [DecidableEq κ] (f : Forest κ α) (c : κ) (cs : List κ) :
    f.get? (c :: cs) = (f.items.find? fun p => p.1 = c).bind fun p => p.2.get? cs := by
  induction f with
  | nil => rfl
  | cons e a k r _ ih =>
    rw [items, List.find?_cons]
    by_cases h : e = c
    · simp only [get?, h, if_true, decide_true, Option.bind_some]
      cases cs <;> rfl
    · simp only [get?, h, if_false, decide_false]
      exact ih

lemma distinct_iff (f : Forest κ α) :
    f.Distinct ↔ (f.items.map Prod.fst).Nodup ∧ ∀ p ∈ f.items, p.2.children.Distinct := by
  induction f with
  | nil => simp [Distinct, items]
  | cons e a k r _ ih =>
    simp only [Distinct, items, List.map_cons, List.nodup_cons, List.forall_mem_cons, ih]
    tauto

lemma entries_eq_flatMap (f : Forest κ α) :
    f.entries = f.items.flatMap fun p => p.2.entries.map fun q => (p.1 :: q.1, q.2) := by
  induction f with
  | nil => rfl
  | cons e a k r _ ih =>
    rw [entries, items, List.flatMap_cons, ← ih]
    rfl

lemma nodes_eq_flatMap (f : Forest κ α) : f.nodes = f.items.flatMap fun p => p.2.nodes := by
  induction f with
  | nil => rfl
  | cons e a k r _ ih =>
    rw [nodes, items, List.flatMap_cons, ← ih]
    rfl

lemma mem_edges {e : κ} (f : Forest κ α) :
    e ∈ f.edges ↔ ∃ p ∈ f.items, e = p.1 ∨ e ∈ p.2.children.edges := by
  induction f with
  | nil => simp [edges, items]
  | cons e' a k r _ ih => simp [edges, items, ih, or_assoc]

lemma forall_items {P : Tree κ α → Prop} (f : Forest κ α)
    (h : ∀ t : Tree κ α, (∀ p ∈ t.children.items, P p.2) → P t) : ∀ p ∈ f.items, P p.2 := by
  induction f with
  | nil => simp [items]
  | cons e a k r ihk ihr =>
    rw [items, List.forall_mem_cons]
    exact ⟨h ⟨a, k⟩ ihk, ihr⟩

end Forest

namespace Tree

/-- Induction on trees: a property of a node follows from that of its children. -/
theorem induction {P : Tree κ α → Prop}
    (h : ∀ t : Tree κ α, (∀ p ∈ t.children.items, P p.2) → P t) (t : Tree κ α) : P t :=
  h t (t.children.forall_items h)

/-- The children of a node are nodes. -/
lemma mem_nodes_of_mem_items {t n : Tree κ α} (hn : n ∈ t.nodes) {p : κ × Tree κ α}
    (hp : p ∈ n.children.items) : p.2 ∈ t.nodes := by
  induction t using Tree.induction with
  | h t ih =>
    rw [nodes, Forest.nodes_eq_flatMap, List.mem_cons, List.mem_flatMap] at hn ⊢
    rcases hn with rfl | ⟨q, hq, hn⟩
    · exact .inr ⟨p, hp, List.mem_cons_self⟩
    · exact .inr ⟨q, hq, ih q hq hn⟩

/-- The edges of a node are edges of the tree. -/
lemma mem_edges_of_mem_nodes {t n : Tree κ α} (hn : n ∈ t.nodes) {p : κ × Tree κ α}
    (hp : p ∈ n.children.items) : p.1 ∈ t.children.edges := by
  induction t using Tree.induction with
  | h t ih =>
    rw [nodes, Forest.nodes_eq_flatMap, List.mem_cons, List.mem_flatMap] at hn
    rw [Forest.mem_edges]
    rcases hn with rfl | ⟨q, hq, hn⟩
    · exact ⟨p, hp, .inl rfl⟩
    · exact ⟨q, hq, .inr (ih q hq hn)⟩

@[simp] lemma get?_nil [DecidableEq κ] (t : Tree κ α) : t.get? [] = some t.label := rfl

lemma get?_cons [DecidableEq κ] (t : Tree κ α) (c : κ) (cs : List κ) :
    t.get? (c :: cs) = (t.children.items.find? fun p => p.1 = c).bind fun p => p.2.get? cs :=
  t.children.get?_cons c cs

end Tree

/-- With distinct keys the item of a key is the one that a search finds. -/
lemma find?_key_eq_some [DecidableEq κ] {items : List (κ × β)} {p : κ × β} {c : κ}
    (h : (items.map Prod.fst).Nodup) :
    (items.find? fun p => p.1 = c) = some p ↔ p ∈ items ∧ p.1 = c := by
  constructor
  · intro hp
    exact ⟨List.mem_of_find?_eq_some hp, by simpa using List.find?_some hp⟩
  · rintro ⟨hmem, rfl⟩
    obtain ⟨q, hq⟩ : ∃ q, (items.find? fun q => q.1 = p.1) = some q := by
      rw [← Option.isSome_iff_exists, List.find?_isSome]
      exact ⟨p, hmem, by simp⟩
    have hqmem := List.mem_of_find?_eq_some hq
    have hkey : q.1 = p.1 := by simpa using List.find?_some hq
    rw [hq, List.inj_on_of_nodup_map h hqmem hmem hkey]

/-! ### Entries -/

/-- The entries of a tree with distinct edges are what its paths lead to. -/
theorem Tree.mem_entries [DecidableEq κ] {t : Tree κ α} (h : t.children.Distinct) {q : List κ}
    {a : α} : (q, a) ∈ t.entries ↔ t.get? q = some a := by
  induction t using Tree.induction generalizing q with
  | h t ih =>
    obtain ⟨hkeys, hsub⟩ := (Forest.distinct_iff _).mp h
    rw [entries, Forest.entries_eq_flatMap]
    cases q with
    | nil => simp [eq_comm]
    | cons c cs =>
      simp only [List.mem_cons, Prod.mk.injEq, reduceCtorEq, false_and, false_or,
        List.mem_flatMap, List.mem_map, List.cons.injEq, get?_cons, Option.bind_eq_some_iff,
        find?_key_eq_some hkeys]
      constructor
      · rintro ⟨p, hp, ⟨q, b⟩, hq, ⟨rfl, rfl⟩, rfl⟩
        exact ⟨p, ⟨hp, rfl⟩, (ih p hp (hsub p hp)).mp hq⟩
      · rintro ⟨p, ⟨hp, rfl⟩, hget⟩
        exact ⟨p, hp, (cs, a), (ih p hp (hsub p hp)).mpr hget, ⟨rfl, rfl⟩, rfl⟩

/-- No path is listed twice. -/
theorem Tree.nodup_entries [DecidableEq κ] {t : Tree κ α} (h : t.children.Distinct) :
    (t.entries.map Prod.fst).Nodup := by
  induction t using Tree.induction with
  | h t ih =>
    obtain ⟨hkeys, hsub⟩ := (Forest.distinct_iff _).mp h
    rw [entries, Forest.entries_eq_flatMap, List.map_cons, List.map_flatMap, List.nodup_cons]
    constructor
    · simp
    · rw [List.nodup_flatMap]
      constructor
      · intro p hp
        have hcons : Function.Injective (List.cons p.1) := List.cons_injective
        simpa [Function.comp_def] using (ih p hp (hsub p hp)).map hcons
      · refine (List.pairwise_map.mp hkeys).imp ?_
        intro p q hpq
        simp only [Function.onFun, List.disjoint_left, List.map_map, List.mem_map]
        rintro _ ⟨a, _, rfl⟩ ⟨b, _, hb⟩
        exact hpq (List.cons.inj hb).1.symm

/-! ### Changing labels -/

namespace Forest

lemma items_map (g : α → β) (f : Forest κ α) :
    (f.map g).items = f.items.map fun p => (p.1, p.2.map g) := by
  induction f with
  | nil => rfl
  | cons e a k r _ ih =>
    rw [map, items, items, List.map_cons, ih]
    rfl

lemma distinct_map (g : α → β) (f : Forest κ α) : (f.map g).Distinct ↔ f.Distinct := by
  induction f with
  | nil => rfl
  | cons e a k r ihk ihr => simp [map, Distinct, items_map, ihk, ihr]

end Forest

lemma Forest.edges_map (g : α → β) (f : Forest κ α) : (f.map g).edges = f.edges := by
  induction f with
  | nil => rfl
  | cons e a k r ihk ihr => rw [map, edges, edges, ihk, ihr]

lemma Tree.get?_map [DecidableEq κ] (g : α → β) (t : Tree κ α) (q : List κ) :
    (t.map g).get? q = (t.get? q).map g := by
  induction t using Tree.induction generalizing q with
  | h t ih =>
    cases q with
    | nil => rfl
    | cons c cs =>
      have hitems : (t.map g).children.items = t.children.items.map fun p => (p.1, p.2.map g) :=
        Forest.items_map g t.children
      rw [get?_cons, get?_cons, hitems, List.find?_map]
      simp only [Function.comp_def]
      cases hp : t.children.items.find? fun p => p.1 = c with
      | none => rfl
      | some p => exact ih p (List.mem_of_find?_eq_some hp) cs

/-! ### Updates -/

section

variable [DecidableEq κ] {fresh : α} {g : α → α}

namespace Forest

lemma fst_items_update (f : Forest κ α) (e c : κ) (cs : List κ) :
    e ∈ (f.update fresh g (c :: cs)).items.map Prod.fst ↔ e ∈ f.items.map Prod.fst ∨ e = c := by
  induction f with
  | nil => cases cs <;> simp [update, path, items]
  | cons e' a k r _ ih =>
    by_cases h : e' = c
    · subst h
      cases cs <;> simp [update, items] <;> tauto
    · simp only [update, if_neg h, items, List.map_cons, List.mem_cons, ih]
      tauto

omit [DecidableEq κ] in
lemma edges_path (cs : List κ) : (path fresh g cs).edges = cs := by
  induction cs with
  | nil => rfl
  | cons c cs ih => cases cs <;> simp_all [path, edges]

/-- An update adds no edges but those of its path. -/
lemma mem_edges_update {f : Forest κ α} {cs : List κ} {e : κ}
    (h : e ∈ (f.update fresh g cs).edges) : e ∈ f.edges ∨ e ∈ cs := by
  induction f generalizing cs with
  | nil =>
    rw [update, edges_path] at h
    exact .inr h
  | cons e' a k r ihk ihr =>
    cases cs with
    | nil => exact .inl h
    | cons c cs =>
      by_cases hc : e' = c
      · subst hc
        cases cs with
        | nil => exact .inl (by simpa [update, edges] using h)
        | cons c' cs =>
          simp only [update, if_true, edges, List.mem_cons, List.mem_append] at h ⊢
          rcases h with h | h | h
          · tauto
          · have hk := ihk h
            rw [List.mem_cons] at hk
            tauto
          · tauto
      · simp only [update, if_neg hc, edges, List.mem_cons, List.mem_append] at h ⊢
        rcases h with h | h | h
        · tauto
        · tauto
        · have hr := ihr h
          rw [List.mem_cons] at hr
          tauto

omit [DecidableEq κ] in
lemma distinct_path (cs : List κ) : (path fresh g cs).Distinct := by
  induction cs with
  | nil => trivial
  | cons c cs ih => cases cs <;> simp_all [path, Distinct, items]

lemma Distinct.update {f : Forest κ α} (h : f.Distinct) (cs : List κ) :
    (f.update fresh g cs).Distinct := by
  induction f generalizing cs with
  | nil => exact distinct_path cs
  | cons e a k r ihk ihr =>
    obtain ⟨he, hk, hr⟩ := h
    cases cs with
    | nil => exact ⟨he, hk, hr⟩
    | cons c cs =>
      by_cases hc : e = c
      · subst hc
        cases cs with
        | nil =>
          simp only [Forest.update, if_true, Distinct, hk, hr, he, not_false_eq_true, and_self]
        | cons c' cs =>
          simp only [Forest.update, if_true, Distinct, ihk hk, hr, he, not_false_eq_true, and_self]
      · simp only [Forest.update, if_neg hc, Distinct, fst_items_update, not_or]
        exact ⟨⟨he, hc⟩, hk, ihr hr _⟩

omit [DecidableEq κ] in
lemma depth_path (cs : List κ) : (path fresh g cs).depth = cs.length := by
  induction cs with
  | nil => rfl
  | cons c cs ih => cases cs <;> simp_all [path, depth]

/-- An update makes the tree as deep as its path. -/
lemma depth_update (f : Forest κ α) (cs : List κ) :
    (f.update fresh g cs).depth = max f.depth cs.length := by
  induction f generalizing cs with
  | nil => rw [update, depth_path, depth, Nat.zero_max]
  | cons e a k r ihk ihr =>
    cases cs with
    | nil => rw [update, List.length_nil, Nat.max_zero]
    | cons c cs =>
      by_cases hc : e = c
      · cases cs with
        | nil =>
          simp only [update, if_pos hc, depth, List.length_singleton]
          omega
        | cons c' cs =>
          simp only [update, if_pos hc, depth, ihk, List.length_cons]
          omega
      · simp only [update, if_neg hc, depth, ihr, List.length_cons]
        omega

/-- A path of new nodes has a value at its end only. -/
lemma bind_get?_path {value : α → Option τ} (hfresh : value fresh = none) (cs ds : List κ)
    (hcs : cs ≠ []) :
    ((path fresh g cs).get? ds).bind value = if ds = cs then value (g fresh) else none := by
  induction cs generalizing ds with
  | nil => exact absurd rfl hcs
  | cons c cs ih =>
    cases ds with
    | nil => simp
    | cons d ds =>
      by_cases h : c = d
      · subst h
        cases cs <;> cases ds <;> simp [path, get?, hfresh, ih]
      · cases cs <;> simp [path, get?, h, Ne.symm h]

/-- An update changes the value at its path only. -/
lemma bind_get?_update {value : α → Option τ} (hfresh : value fresh = none) (f : Forest κ α)
    (cs ds : List κ) (hcs : cs ≠ []) :
    ((f.update fresh g cs).get? ds).bind value =
      if ds = cs then value (g ((f.get? cs).getD fresh)) else (f.get? ds).bind value := by
  induction f generalizing cs ds with
  | nil => exact bind_get?_path hfresh cs ds hcs
  | cons e a k r ihk ihr =>
    cases cs with
    | nil => exact absurd rfl hcs
    | cons c cs =>
      cases ds with
      | nil => simp
      | cons d ds =>
        by_cases hc : e = c
        · subst hc
          by_cases hd : e = d
          · subst hd
            cases cs <;> cases ds <;> simp [update, get?, ihk]
          · cases cs <;> simp [update, get?, hd, Ne.symm hd]
        · by_cases hd : e = d
          · subst hd
            simp [update, get?, hc]
          · simp [update, get?, hc, hd, ihr]

end Forest

/-- An update changes the value at its path only. -/
theorem Tree.bind_get?_update {value : α → Option τ} (hfresh : value fresh = none) (t : Tree κ α)
    (cs ds : List κ) :
    ((t.update fresh g cs).get? ds).bind value =
      if ds = cs then value (g ((t.get? cs).getD fresh)) else (t.get? ds).bind value := by
  cases cs with
  | nil => cases ds <;> rfl
  | cons c cs =>
    cases ds with
    | nil => rfl
    | cons d ds =>
      exact Forest.bind_get?_update hfresh t.children (c :: cs) (d :: ds) (List.cons_ne_nil c cs)

lemma Tree.mem_edges_update {t : Tree κ α} {cs : List κ} {e : κ}
    (h : e ∈ (t.update fresh g cs).children.edges) : e ∈ t.children.edges ∨ e ∈ cs := by
  cases cs with
  | nil => exact .inl h
  | cons c cs => exact Forest.mem_edges_update h

lemma Tree.depth_update (t : Tree κ α) (cs : List κ) :
    (t.update fresh g cs).children.depth = max t.children.depth cs.length := by
  cases cs with
  | nil => exact (Nat.max_zero _).symm
  | cons c cs => exact Forest.depth_update t.children (c :: cs)

lemma Tree.distinct_update {t : Tree κ α} (h : t.children.Distinct) (cs : List κ) :
    (t.update fresh g cs).children.Distinct := by
  cases cs with
  | nil => exact h
  | cons c cs => exact Forest.Distinct.update h (c :: cs)

end

end Apk2Ios.Lib
