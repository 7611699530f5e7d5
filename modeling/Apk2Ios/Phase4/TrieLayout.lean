import Apk2Ios.Lib.Relaxation
import Apk2Ios.Phase4.ExportTrie

/-!
# Phase 4: the layout of the export trie ends

The nodes of the trie are records that contain the offsets of their children, so the passes of
the layout are those of a relaxation: offsets never decrease, and for a trie of less than two
megabytes one of the 32 passes changes nothing.  The nodes are listed by a recursion that is as deep
as the longest name, and the interpreter bounds it.
-/

namespace Apk2Ios

open Lib MachO Relaxation

/-! ### The nodes as records -/

/-- The bytes of a node besides the offsets of its children. -/
def ownBytes (label : NodeLabel) (children : Forest Char NodeLabel) : ℕ :=
  (uleb128 label.terminal.length).length + label.terminal.length + 1 +
    (children.items.map fun p => (String.utf8EncodeChar p.1).length + 1).sum

/-- The numbers of the topmost nodes, when the nodes are counted from `i` on. -/
def childIndices : ℕ → Forest Char NodeLabel → List ℕ
  | _, .nil => []
  | i, .cons _ _ children rest => i :: childIndices (i + 1 + children.nodes.length) rest

/-- The records of the nodes, counted from `i` on. -/
def recordsFrom : ℕ → Forest Char NodeLabel → List Record
  | _, .nil => []
  | i, .cons _ label children rest =>
    ⟨ownBytes label children, childIndices (i + 1) children⟩ ::
      (recordsFrom (i + 1) children ++ recordsFrom (i + 1 + children.nodes.length) rest)

/-- The records of all nodes. -/
def trieRecords (root : TrieNode) : List Record :=
  ⟨ownBytes root.label root.children, childIndices 1 root.children⟩ :: recordsFrom 1 root.children

/-- The nodes with other offsets. -/
def placed (o : ℕ → ℕ) : ℕ → Forest Char NodeLabel → Forest Char NodeLabel
  | _, .nil => .nil
  | i, .cons edge label children rest =>
    .cons edge { label with offset := o i } (placed o (i + 1) children)
      (placed o (i + 1 + children.nodes.length) rest)

/-- The trie with other offsets. -/
def placedTrie (o : ℕ → ℕ) (root : TrieNode) : TrieNode :=
  ⟨{ root.label with offset := o 0 }, placed o 1 root.children⟩

variable {o : ℕ → ℕ} {i : ℕ} {f : Forest Char NodeLabel} {root : TrieNode}

lemma nodes_length_cons (edge : Char) (label : NodeLabel) (children rest : Forest Char NodeLabel) :
    (Forest.cons edge label children rest).nodes.length =
      children.nodes.length + rest.nodes.length + 1 := by
  rw [Forest.nodes, List.length_cons, List.length_append]

lemma length_recordsFrom (i : ℕ) (f : Forest Char NodeLabel) :
    (recordsFrom i f).length = f.nodes.length := by
  induction f generalizing i with
  | nil => rfl
  | cons edge label children rest ihk ihr =>
    rw [recordsFrom, List.length_cons, List.length_append, ihk, ihr, nodes_length_cons]

lemma length_trieRecords (root : TrieNode) : (trieRecords root).length = root.nodes.length := by
  rw [trieRecords, List.length_cons, length_recordsFrom, Tree.nodes, List.length_cons]

/-- Every node is the child of one node. -/
lemma perm_refs (i : ℕ) (f : Forest Char NodeLabel) :
    (childIndices i f ++ (recordsFrom i f).flatMap Record.refs).Perm
      (List.range' i f.nodes.length) := by
  induction f generalizing i with
  | nil => exact .nil
  | cons edge label children rest ihk ihr =>
    have hrange : List.range' i (children.nodes.length + rest.nodes.length + 1) =
        i :: (List.range' (i + 1) children.nodes.length ++
          List.range' (i + 1 + children.nodes.length) rest.nodes.length) := by
      rw [List.range'_succ, List.range'_append_1]
    rw [nodes_length_cons, hrange, childIndices, recordsFrom, List.flatMap_cons,
      List.flatMap_append, List.cons_append]
    refine List.Perm.cons i ?_
    refine List.Perm.trans ?_ ((ihk (i + 1)).append (ihr (i + 1 + children.nodes.length)))
    -- the later siblings come before the grandchildren in one order and after them in the other
    rw [← List.append_assoc (childIndices (i + 1) children)]
    exact List.perm_append_comm_assoc _ _ _

lemma once_trieRecords (root : TrieNode) : Once (trieRecords root) := by
  have hperm : ((trieRecords root).flatMap Record.refs).Perm
      (List.range' 1 root.children.nodes.length) := by
    rw [trieRecords, List.flatMap_cons]
    exact perm_refs 1 root.children
  refine ⟨hperm.nodup_iff.mpr List.nodup_range', fun c hc => ?_⟩
  have hmem := List.mem_range'_1.mp (hperm.mem_iff.mp hc)
  rw [length_trieRecords, Tree.nodes, List.length_cons]
  omega

/-! ### Nodes with other offsets -/

lemma items_placed (o : ℕ → ℕ) (i : ℕ) (f : Forest Char NodeLabel) :
    (placed o i f).items.map (fun p => (p.1, p.2.label.offset)) =
      (f.items.map Prod.fst).zip ((childIndices i f).map o) := by
  induction f generalizing i with
  | nil => rfl
  | cons edge label children rest _ ihr =>
    rw [placed, Forest.items, Forest.items, childIndices, List.map_cons, List.map_cons,
      List.map_cons, List.zip_cons_cons, ihr]

lemma length_childIndices (i : ℕ) (f : Forest Char NodeLabel) :
    (childIndices i f).length = f.items.length := by
  induction f generalizing i with
  | nil => rfl
  | cons edge label children rest _ ihr =>
    rw [childIndices, Forest.items, List.length_cons, List.length_cons, ihr]

lemma fst_items_placed (o : ℕ → ℕ) (i : ℕ) (f : Forest Char NodeLabel) :
    (placed o i f).items.map Prod.fst = f.items.map Prod.fst := by
  have h := congrArg (List.map Prod.fst) (items_placed o i f)
  rw [List.map_map, List.map_fst_zip (by simp [length_childIndices])] at h
  exact h

lemma offsets_items_placed (o : ℕ → ℕ) (i : ℕ) (f : Forest Char NodeLabel) :
    (placed o i f).items.map (fun p => p.2.label.offset) = (childIndices i f).map o := by
  have h := congrArg (List.map Prod.snd) (items_placed o i f)
  rw [List.map_map, List.map_snd_zip (by simp [length_childIndices])] at h
  exact h

lemma offsets_nodes_placed (o : ℕ → ℕ) (i : ℕ) (f : Forest Char NodeLabel) :
    (placed o i f).nodes.map (fun node => node.label.offset) =
      (List.range' i f.nodes.length).map o := by
  induction f generalizing i with
  | nil => rfl
  | cons edge label children rest ihk ihr =>
    rw [placed, Forest.nodes, List.map_cons, List.map_append, ihk, ihr, nodes_length_cons,
      List.range'_succ, ← List.range'_append_1, List.map_cons, List.map_append]

/-! ### A pass -/

/-- Offsets below `2 ^ 21` have a byte for each seven bits. -/
lemma length_uleb128 {n : ℕ} (h : n < 2 ^ 21) : (uleb128 n).length = width sevenBits n := by
  have hone : ∀ m : ℕ, m < 128 → (uleb128 m).length = 1 := by
    intro m hm
    rw [uleb128_of_lt hm, List.length_singleton]
  have hmore : ∀ m : ℕ, 128 ≤ m → (uleb128 m).length = (uleb128 (m / 128)).length + 1 := by
    intro m hm
    rw [uleb128_of_le hm, List.length_cons]
  have hwidth : width sevenBits n = 1 + (if 128 ≤ n then 1 else 0) +
      (if 16384 ≤ n then 1 else 0) := by
    simp [width, sevenBits, List.countP_cons]
    omega
  rw [hwidth]
  by_cases h128 : n < 128
  · rw [hone n h128, if_neg (by omega), if_neg (by omega)]
  · rw [hmore n (by omega), if_pos (by omega)]
    by_cases h16384 : n < 16384
    · rw [hone _ (by omega), if_neg (by omega)]
    · rw [hmore _ (by omega), hone _ (by omega), if_pos (by omega)]

lemma length_nodeBytes (label : NodeLabel) (children : Forest Char NodeLabel) :
    (nodeBytes ⟨label, children⟩).length = ownBytes label children +
      ((children.items.map fun p => p.2.label.offset).map fun n => (uleb128 n).length).sum := by
  have hedge : ∀ p : Char × TrieNode, (edgeBytes p).length =
      ((String.utf8EncodeChar p.1).length + 1) + (uleb128 p.2.label.offset).length := by
    intro p
    rw [edgeBytes, List.length_append, List.length_append, List.length_singleton]
  have hedges : ((sortedItems children.items).flatMap edgeBytes).length =
      (children.items.map fun p => (String.utf8EncodeChar p.1).length + 1).sum +
        ((children.items.map fun p => p.2.label.offset).map fun n => (uleb128 n).length).sum := by
    rw [List.length_flatMap, ((sortedItems_perm children.items).map _).sum_eq, List.map_map,
      ← List.sum_map_add]
    exact congrArg List.sum (List.map_congr_left fun p _ => hedge p)
  show (uleb128 label.terminal.length ++ (label.terminal ++ (leBytes 1 children.items.length ++
    (sortedItems children.items).flatMap edgeBytes))).length = _
  rw [List.length_append, List.length_append, List.length_append, length_leBytes, hedges, ownBytes]
  omega

/-- The code of a node with other offsets has the size of its record. -/
lemma length_nodeBytes_placed (label : NodeLabel) (children : Forest Char NodeLabel) (i x : ℕ)
    (ho : ∀ c ∈ childIndices i children, o c < 2 ^ 21) :
    (nodeBytes ⟨{ label with offset := x }, placed o i children⟩).length =
      Record.size sevenBits o ⟨ownBytes label children, childIndices i children⟩ := by
  have hown : ownBytes { label with offset := x } (placed o i children) =
      ownBytes label children := by
    have hfst := congrArg (List.map fun c => (String.utf8EncodeChar c).length + 1)
      (fst_items_placed o i children)
    rw [List.map_map, List.map_map] at hfst
    exact congrArg (fun l => _ + List.sum l) hfst
  rw [length_nodeBytes, hown, offsets_items_placed, List.map_map, Record.size]
  exact congrArg (fun l => _ + List.sum l)
    (List.map_congr_left fun c hc => length_uleb128 (ho c hc))

lemma forall_mem_childIndices (i : ℕ) (f : Forest Char NodeLabel) :
    ∀ c ∈ childIndices i f, c < i + f.nodes.length := by
  intro c hc
  have hmem := (perm_refs i f).mem_iff.mp (List.mem_append_left _ hc)
  exact (List.mem_range'_1.mp hmem).2

/-- A pass gives the nodes the places of the next layout, and says whether these are new. -/
lemma layoutForest_placed {rs : List Record} (hrs : recordsFrom i f <+: rs.drop i)
    (ho : ∀ c < rs.length, o c < 2 ^ 21)
    (hcount : ∀ node ∈ f.nodes, node.children.items.length ≤ 255) (changed : Bool) :
    layoutForest (placed o i f) (start sevenBits rs o i, changed) =
      .ok (placed (start sevenBits rs o) i f, start sevenBits rs o (i + f.nodes.length),
        changed || (List.range' i f.nodes.length).any fun j => o j != start sevenBits rs o j) := by
  induction f generalizing i changed with
  | nil => simp [placed, layoutForest, Forest.nodes]
  | cons edge label children rest ihk ihr =>
    obtain ⟨post, hpost⟩ := hrs
    rw [recordsFrom, List.cons_append, List.append_assoc] at hpost
    obtain ⟨hnode, hnodes⟩ := List.forall_mem_cons.mp hcount
    obtain ⟨hk, hr⟩ := List.forall_mem_append.mp hnodes
    -- the node has record `i`; its children come next, then its siblings
    have hrecord : rs[i]? =
        some ⟨ownBytes label children, childIndices (i + 1) children⟩ := by
      rw [← List.head?_drop, ← hpost, List.head?_cons]
    have hdrop : rs.drop (i + 1) = recordsFrom (i + 1) children ++
        (recordsFrom (i + 1 + children.nodes.length) rest ++ post) := by
      rw [← List.tail_drop, ← hpost, List.tail_cons]
    have hdrop' : rs.drop (i + 1 + children.nodes.length) =
        recordsFrom (i + 1 + children.nodes.length) rest ++ post := by
      rw [← List.drop_drop, hdrop, ← length_recordsFrom (i + 1) children, List.drop_left]
    have hlen : i + 1 + children.nodes.length ≤ rs.length := by
      have := congrArg List.length hdrop
      rw [List.length_drop, List.length_append, length_recordsFrom] at this
      have := (List.getElem?_eq_some_iff.mp hrecord).1
      omega
    have hcode : encodeNode ⟨{ label with offset := o i }, placed o (i + 1) children⟩ =
        .ok (nodeBytes ⟨{ label with offset := o i }, placed o (i + 1) children⟩) := by
      refine encodeNode_eq_ok.mpr ⟨?_, rfl⟩
      have hitems := congrArg List.length (fst_items_placed o (i + 1) children)
      rw [List.length_map, List.length_map] at hitems
      exact hitems.trans_le hnode
    -- the size of the node depends on the old offsets of its children, as in the next layout
    have hcursor : start sevenBits rs o i +
        (nodeBytes ⟨{ label with offset := o i }, placed o (i + 1) children⟩).length =
          start sevenBits rs o (i + 1) := by
      rw [start_succ hrecord, length_nodeBytes_placed]
      exact fun c hc => ho c ((forall_mem_childIndices _ _ c hc).trans_le hlen)
    rw [placed, layoutForest, hcode, PyM.ok_bind, hcursor,
      ihk (hdrop ▸ List.prefix_append _ _) hk, PyM.ok_bind]
    dsimp only
    rw [ihr (hdrop' ▸ List.prefix_append _ _) hr, PyM.ok_bind, nodes_length_cons,
      List.range'_succ, ← List.range'_append_1]
    have hend : i + 1 + children.nodes.length + rest.nodes.length =
        i + (children.nodes.length + rest.nodes.length + 1) := by omega
    simp only [List.any_cons, List.any_append, Bool.or_assoc, placed, hend]
    rfl

/-- No record is empty. -/
lemma own_pos : ∀ r ∈ trieRecords root, 0 < r.own := by
  have hown : ∀ label children, 0 < ownBytes label children := by
    intro label children
    rw [ownBytes]
    omega
  have hforest : ∀ (f : Forest Char NodeLabel) (i : ℕ), ∀ r ∈ recordsFrom i f, 0 < r.own := by
    intro f
    induction f with
    | nil => simp [recordsFrom]
    | cons edge label children rest ihk ihr =>
      intro i
      rw [recordsFrom, List.forall_mem_cons, List.forall_mem_append]
      exact ⟨hown _ _, ihk _, ihr _⟩
  rw [trieRecords, List.forall_mem_cons]
  exact ⟨hown _ _, hforest _ _⟩

/-- The places of the nodes after some passes. -/
def triePlace (root : TrieNode) (k : ℕ) : ℕ → ℕ := place sevenBits (trieRecords root) k

/-- The offsets of the nodes. -/
def offsets (root : TrieNode) : List ℕ := root.nodes.map fun node => node.label.offset

/-- The bytes of a node with three bytes for the offset of each child. -/
def wideBytes (node : TrieNode) : ℕ :=
  (uleb128 node.label.terminal.length).length + node.label.terminal.length + 1 +
    (node.children.items.map fun p => (String.utf8EncodeChar p.1).length + 1 + 3).sum

/-- What the layout needs of a trie. -/
structure Layable (root : TrieNode) : Prop where
  count : ∀ node ∈ root.nodes, node.children.items.length ≤ 255
  size : (root.nodes.map wideBytes).sum ≤ 2 ^ 21

lemma wideBytes_eq (i : ℕ) (node : TrieNode) : wideBytes node =
    ownBytes node.label node.children + (childIndices i node.children).length * 3 := by
  have hsum : (node.children.items.map fun p => (String.utf8EncodeChar p.1).length + 1 + 3).sum =
      (node.children.items.map fun p => (String.utf8EncodeChar p.1).length + 1).sum +
        node.children.items.length * 3 := by
    rw [List.sum_map_add, List.map_const', List.sum_replicate, smul_eq_mul]
  rw [wideBytes, ownBytes, hsum, length_childIndices]
  omega

lemma map_wide_recordsFrom (i : ℕ) (f : Forest Char NodeLabel) :
    (recordsFrom i f).map (fun r => r.own + r.refs.length * (1 + sevenBits.length)) =
      f.nodes.map wideBytes := by
  induction f generalizing i with
  | nil => rfl
  | cons edge label children rest ihk ihr =>
    rw [recordsFrom, Forest.nodes, List.map_cons, List.map_append, ihk, ihr, List.map_cons,
      List.map_append, wideBytes_eq (i + 1)]
    rfl

lemma map_wide_trieRecords (root : TrieNode) :
    (trieRecords root).map (fun r => r.own + r.refs.length * (1 + sevenBits.length)) =
      root.nodes.map wideBytes := by
  rw [trieRecords, Tree.nodes, List.map_cons, map_wide_recordsFrom, List.map_cons,
    wideBytes_eq 1 root]
  rfl

/-- Every place of every pass is below `2 ^ 21`. -/
lemma Layable.triePlace_lt (h : Layable root) (k : ℕ) :
    ∀ c < (trieRecords root).length, triePlace root k c < 2 ^ 21 := by
  intro c hc
  cases k with
  | zero => exact Nat.two_pow_pos 21
  | succ k =>
    have hr : (trieRecords root)[c]? = some (trieRecords root)[c] := List.getElem?_eq_getElem hc
    have hend : start sevenBits (trieRecords root) (triePlace root k) c +
        (trieRecords root)[c].own ≤ 2 ^ 21 := by
      refine (start_add_own_le hr).trans ?_
      rw [map_wide_trieRecords]
      exact h.size
    have hown := own_pos _ (List.getElem_mem hc)
    show start sevenBits (trieRecords root) (triePlace root k) c < 2 ^ 21
    omega

lemma offsets_placedTrie (o : ℕ → ℕ) (root : TrieNode) :
    offsets (placedTrie o root) = (List.range root.nodes.length).map o := by
  rw [offsets, placedTrie, Tree.nodes, List.map_cons, offsets_nodes_placed, Tree.nodes,
    List.length_cons, List.range_eq_range', List.range'_succ, List.map_cons]

/-- A pass over all nodes. -/
lemma layoutPass_placedTrie (ho : ∀ c < (trieRecords root).length, o c < 2 ^ 21)
    (hcount : ∀ node ∈ root.nodes, node.children.items.length ≤ 255) :
    layoutPass (placedTrie o root) =
      .ok (placedTrie (start sevenBits (trieRecords root) o) root,
        (List.range root.nodes.length).any fun j =>
          o j != start sevenBits (trieRecords root) o j) := by
  obtain ⟨hroot, hnodes⟩ := List.forall_mem_cons.mp hcount
  have hcode : encodeNode (placedTrie o root) = .ok (nodeBytes (placedTrie o root)) := by
    refine encodeNode_eq_ok.mpr ⟨?_, rfl⟩
    have hitems := congrArg List.length (fst_items_placed o 1 root.children)
    rw [List.length_map, List.length_map] at hitems
    exact hitems.trans_le hroot
  have hcursor : (nodeBytes (placedTrie o root)).length =
      start sevenBits (trieRecords root) o 1 := by
    rw [start_succ (i := 0) rfl, placedTrie, length_nodeBytes_placed]
    · exact (Nat.zero_add _).symm
    · intro c hc
      refine ho c ((forall_mem_childIndices _ _ c hc).trans_eq ?_)
      rw [length_trieRecords, Tree.nodes, List.length_cons, Nat.add_comm]
  have hforest : layoutForest (placed o 1 root.children)
      (start sevenBits (trieRecords root) o 1, o 0 != 0) = _ :=
    layoutForest_placed (List.prefix_rfl : recordsFrom 1 root.children <+: _) ho hnodes _
  rw [layoutPass, hcode, PyM.ok_bind, hcursor]
  show (layoutForest (placed o 1 root.children) (_, o 0 != 0) >>= _) = _
  rw [hforest, Tree.nodes, List.length_cons, List.range_eq_range', List.range'_succ,
    List.any_cons]
  rfl

/-! ### The passes -/

/-- The trie after some passes. -/
def passes : ℕ → TrieNode → PyM TrieNode
  | 0, root => return root
  | n + 1, root => do
    let (root, _) ← layoutPass root
    passes n root

lemma Layable.layoutPass (h : Layable root) (k : ℕ) :
    layoutPass (placedTrie (triePlace root k) root) =
      .ok (placedTrie (triePlace root (k + 1)) root,
        (List.range root.nodes.length).any fun j =>
          triePlace root k j != triePlace root (k + 1) j) :=
  layoutPass_placedTrie (h.triePlace_lt k) h.count

lemma Layable.passes (h : Layable root) (n k : ℕ) :
    passes n (placedTrie (triePlace root k) root) =
      .ok (placedTrie (triePlace root (k + n)) root) := by
  induction n generalizing k with
  | zero => rfl
  | succ n ih =>
    rw [Apk2Ios.passes, h.layoutPass, PyM.ok_bind]
    show Apk2Ios.passes n _ = _
    rw [ih, Nat.add_right_comm, Nat.add_assoc]

/-- The passes end with the first one that changes nothing. -/
lemma Layable.layoutPasses (h : Layable root) {n k : ℕ}
    (hstable : ∃ d < n, triePlace root (k + d + 1) = triePlace root (k + d)) :
    ∃ root', layoutPasses n (placedTrie (triePlace root k) root) = .ok root' := by
  induction n generalizing k with
  | zero =>
    obtain ⟨d, hd, -⟩ := hstable
    exact absurd hd (Nat.not_lt_zero d)
  | succ n ih =>
    obtain ⟨d, hd, heq⟩ := hstable
    rw [Apk2Ios.layoutPasses, h.layoutPass, PyM.ok_bind]
    dsimp only
    split
    · rename_i hchanged
      refine ih ?_
      cases d with
      | zero =>
        rw [Nat.add_zero] at heq
        simp [heq] at hchanged
      | succ d => exact ⟨d, Nat.lt_of_succ_lt_succ hd, by rw [Nat.add_right_comm k 1 d]; exact heq⟩
    · exact ⟨_, rfl⟩

/-! ### A new trie -/

/-- Nodes without an offset, of which those without children have a terminal. -/
def Fresh : Forest Char NodeLabel → Prop
  | .nil => True
  | .cons _ label children rest => label.offset = 0 ∧
      (children = .nil → 2 ≤ label.terminal.length) ∧ Fresh children ∧ Fresh rest

lemma length_uleb128_pos (n : ℕ) : 0 < (uleb128 n).length :=
  List.length_pos_iff.mpr (uleb128_ne_nil n)

lemma length_exportPayload (address : ℕ) : 2 ≤ (exportPayload address).length := by
  have hflags := length_uleb128_pos 0
  have haddress := length_uleb128_pos address
  rw [exportPayload, List.length_append]
  omega

section

variable {g : NodeLabel → NodeLabel} (hoff : ∀ label, (g label).offset = label.offset)
  (hterm : ∀ label, 2 ≤ (g label).terminal.length)
include hoff hterm

lemma fresh_path (cs : List Char) : Fresh (Forest.path {} g cs) := by
  induction cs with
  | nil => trivial
  | cons c cs ih =>
    cases cs with
    | nil => exact ⟨hoff _, fun _ => hterm _, trivial, trivial⟩
    | cons c' cs =>
      refine ⟨rfl, fun hnil => ?_, ih, trivial⟩
      cases cs <;> cases hnil

lemma Fresh.update (h : Fresh f) (cs : List Char) : Fresh (f.update {} g cs) := by
  induction f generalizing cs with
  | nil => exact fresh_path hoff hterm cs
  | cons edge label children rest ihk ihr =>
    obtain ⟨hzero, hleaf, hk, hr⟩ := h
    cases cs with
    | nil => exact ⟨hzero, hleaf, hk, hr⟩
    | cons c cs =>
      by_cases hc : edge = c
      · cases cs with
        | nil =>
          rw [Forest.update, if_pos hc]
          exact ⟨(hoff label).trans hzero, fun _ => hterm label, hk, hr⟩
        | cons c' cs =>
          rw [Forest.update, if_pos hc]
          refine ⟨hzero, fun hnil => ?_, ihk hk _, hr⟩
          -- the node of the edge has a child after the update
          have hmem : c' ∈ (children.update {} g (c' :: cs)).items.map Prod.fst :=
            (Forest.fst_items_update children c' c' cs).mpr (.inr rfl)
          rw [hnil] at hmem
          exact absurd hmem List.not_mem_nil
      · have hrest : (Forest.cons edge label children rest).update {} g (c :: cs) =
            .cons edge label children (rest.update {} g (c :: cs)) := by
          cases cs <;> rw [Forest.update, if_neg hc]
        rw [hrest]
        exact ⟨hzero, hleaf, hk, ihr hr _⟩

end

lemma fresh_exportRoot (exports : Dict String ℕ) :
    (exportRoot exports).label.offset = 0 ∧ Fresh (exportRoot exports).children := by
  have hall : ∀ (items : List (String × ℕ)) (root : TrieNode),
      root.label.offset = 0 ∧ Fresh root.children →
        (items.foldl insertExport root).label.offset = 0 ∧
          Fresh (items.foldl insertExport root).children := by
    intro items
    induction items with
    | nil => exact fun _ h => h
    | cons item items ih =>
      rintro root ⟨hzero, hfresh⟩
      refine ih _ ?_
      rw [insertExport]
      cases item.1.toList with
      | nil => exact ⟨hzero, hfresh⟩
      | cons c cs =>
        exact ⟨hzero, hfresh.update
          (g := fun label => { label with terminal := exportPayload item.2 })
          (fun _ => rfl) (fun _ => length_exportPayload item.2) (c :: cs)⟩
  exact hall _ _ ⟨rfl, trivial⟩

lemma Fresh.placed (h : Fresh f) (i : ℕ) : placed (fun _ => 0) i f = f := by
  induction f generalizing i with
  | nil => rfl
  | cons edge label children rest ihk ihr =>
    obtain ⟨hzero, -, hk, hr⟩ := h
    rw [Apk2Ios.placed, ihk hk, ihr hr, ← hzero]

/-- A node has four bytes besides the widths of its offsets, unless it is an empty trie. -/
lemma four_le_ownBytes (i : ℕ) {label : NodeLabel} {children : Forest Char NodeLabel}
    (h : children = .nil → 2 ≤ label.terminal.length) :
    4 ≤ ownBytes label children + (childIndices i children).length := by
  have huleb := length_uleb128_pos label.terminal.length
  rw [ownBytes]
  cases children with
  | nil =>
    have hterm := h rfl
    omega
  | cons edge label' children rest =>
    rw [Forest.items, List.map_cons, List.sum_cons, childIndices, List.length_cons]
    omega

lemma two_mul_le_ownBytes (i : ℕ) (label : NodeLabel) (children : Forest Char NodeLabel) :
    2 * (childIndices i children).length ≤ ownBytes label children := by
  have hsum := List.card_nsmul_le_sum
    (children.items.map fun p => (String.utf8EncodeChar p.1).length + 1) 2 (by
      simp only [List.forall_mem_map]
      intro p _
      have hpos := List.length_pos_iff.mpr (String.utf8EncodeChar_ne_nil (c := p.1))
      omega)
  rw [List.length_map, smul_eq_mul] at hsum
  rw [length_childIndices, ownBytes]
  omega

lemma two_mul_le_own : ∀ r ∈ trieRecords root, 2 * r.refs.length ≤ r.own := by
  have hforest : ∀ (f : Forest Char NodeLabel) (i : ℕ),
      ∀ r ∈ recordsFrom i f, 2 * r.refs.length ≤ r.own := by
    intro f
    induction f with
    | nil => simp [recordsFrom]
    | cons edge label children rest ihk ihr =>
      intro i
      rw [recordsFrom, List.forall_mem_cons, List.forall_mem_append]
      exact ⟨two_mul_le_ownBytes _ _ _, ihk _, ihr _⟩
  rw [trieRecords, List.forall_mem_cons]
  exact ⟨two_mul_le_ownBytes _ _ _, hforest _ _⟩

lemma Fresh.four_le (h : Fresh f) (i : ℕ) : ∀ r ∈ recordsFrom i f, 4 ≤ r.own + r.refs.length := by
  induction f generalizing i with
  | nil => simp [recordsFrom]
  | cons edge label children rest ihk ihr =>
    obtain ⟨-, hleaf, hk, hr⟩ := h
    rw [recordsFrom, List.forall_mem_cons, List.forall_mem_append]
    exact ⟨four_le_ownBytes _ hleaf, ihk hk _, ihr hr _⟩

lemma Fresh.spaced (h : Fresh root.children) : Spaced 4 (trieRecords root) := by
  intro i r hi hr
  cases i with
  | zero =>
    obtain rfl := Option.some.inj hr
    refine four_le_ownBytes 1 fun hnil => ?_
    -- an empty trie has one record only
    rw [length_trieRecords, Tree.nodes, hnil] at hi
    exact absurd hi (lt_irrefl 1)
  | succ i => exact h.four_le 1 r (List.mem_of_getElem? hr)

lemma exportRoot_placed (exports : Dict String ℕ) :
    placedTrie (triePlace (exportRoot exports) 0) (exportRoot exports) = exportRoot exports := by
  obtain ⟨hzero, hfresh⟩ := fresh_exportRoot exports
  show (⟨{ (exportRoot exports).label with offset := 0 },
    placed (fun _ => 0) 1 (exportRoot exports).children⟩ : TrieNode) = _
  rw [hfresh.placed, ← hzero]

/-- A layout without an error is written out. -/
lemma exists_mapM_encodeNode {exports : Dict String ℕ} (h : exportTrie exports = .ok root) :
    ∃ codes, root.nodes.mapM encodeNode = .ok codes := by
  have hlaid := (layoutPasses_spec h).2.2
  exact ⟨_, (PyM.mapM_eq_ok_map fun _ _ => encodeNode_eq_ok).mpr
    ⟨fun node hn => (hlaid node hn).count, rfl⟩⟩

/-- `_build_export_trie` returns when its visit and its layout do. -/
lemma exists_buildExportTrie_iff {calls : ℕ} {exports : Dict String ℕ} :
    (∃ trie, buildExportTrie calls exports = .ok trie) ↔
      WithinCalls calls exports ∧ ∃ root, exportTrie exports = .ok root := by
  simp only [buildExportTrie, PyM.bind_eq_ok, PyM.pure_eq_ok, visit_eq_ok]
  rw [← depth_exportRoot_lt_iff]
  constructor
  · rintro ⟨_, _, ⟨hdepth, -⟩, root, hroot, -⟩
    exact ⟨hdepth, root, hroot⟩
  · rintro ⟨hdepth, root, hroot⟩
    obtain ⟨codes, hcodes⟩ := exists_mapM_encodeNode hroot
    exact ⟨_, _, ⟨hdepth, rfl⟩, root, hroot, codes, hcodes, rfl⟩

/-- **The layout ends.**  When no node of the trie has more than 255 children and the nodes have
no more than two megabytes with three bytes for each offset, one of the 32 passes changes
nothing, and from each pass to the next no offset decreases. -/
theorem exportTrie_converges (exports : Dict String ℕ) (h : Layable (exportRoot exports)) :
    (∃ k < 32, ∃ root, passes k (exportRoot exports) = .ok root ∧
      layoutPass root = .ok (root, false)) ∧
    (∀ k, ∃ root root' changed, passes k (exportRoot exports) = .ok root ∧
      layoutPass root = .ok (root', changed) ∧
      List.Forall₂ (· ≤ ·) (offsets root) (offsets root')) ∧
    ∃ root, exportTrie exports = .ok root := by
  -- the passes of the code are the steps of the relaxation on the records of the trie
  have hpasses : ∀ k, passes k (exportRoot exports) =
      .ok (placedTrie (triePlace (exportRoot exports) k) (exportRoot exports)) := by
    intro k
    have hk := h.passes k 0
    rwa [exportRoot_placed, Nat.zero_add] at hk
  obtain ⟨k, hk, hstable⟩ := exists_stable (once_trieRecords (exportRoot exports)) two_mul_le_own
    (fresh_exportRoot exports).2.spaced
  change triePlace _ (k + 1) = triePlace _ k at hstable
  refine ⟨⟨k, hk, _, hpasses k, ?_⟩, fun j => ⟨_, _, _, hpasses j, h.layoutPass j, ?_⟩, ?_⟩
  · rw [h.layoutPass, hstable]
    simp
  · rw [offsets_placedTrie, offsets_placedTrie, List.forall₂_map_left_iff,
      List.forall₂_map_right_iff, List.forall₂_same]
    exact fun i _ => place_le_succ j i
  · have hend := h.layoutPasses (k := 0) ⟨k, hk, by rw [Nat.zero_add]; exact hstable⟩
    rwa [exportRoot_placed] at hend

/-- What the layout of `_build_export_trie` is meant to do: one of its 32 passes changes no
offset, no offset decreases from one pass to the next, and the function returns. -/
structure Converges (calls : ℕ) (exports : Dict String ℕ) : Prop where
  stable : ∃ k < 32, ∃ root, passes k (exportRoot exports) = .ok root ∧
    layoutPass root = .ok (root, false)
  ascending : ∀ k, ∃ root root' changed, passes k (exportRoot exports) = .ok root ∧
    layoutPass root = .ok (root', changed) ∧
    List.Forall₂ (· ≤ ·) (offsets root) (offsets root')
  returns : ∃ trie, buildExportTrie calls exports = .ok trie

/-- **The layout ends, and the function returns when `visit` does.**  A trie with at most 255
children for each node and two megabytes is laid out in 32 passes; the function returns it exactly
when the interpreter allows as many nested calls as the longest name has characters, and one more
for the root. -/
theorem buildExportTrie_converges_iff (calls : ℕ) (exports : Dict String ℕ)
    (h : Layable (exportRoot exports)) :
    Converges calls exports ↔ 0 < calls ∧ ∀ item ∈ exports.items, item.1.length < calls := by
  obtain ⟨hstable, hascending, hroot⟩ := exportTrie_converges exports h
  constructor
  · intro hconverges
    exact (exists_buildExportTrie_iff.mp hconverges.returns).1
  · intro hcalls
    exact ⟨hstable, hascending, exists_buildExportTrie_iff.mpr ⟨hcalls, hroot⟩⟩

theorem buildExportTrie_converges_fg : Converges 1000 fgExports :=
  (buildExportTrie_converges_iff 1000 fgExports ⟨by decide +kernel, by decide +kernel⟩).mpr
    ⟨by decide, by decide⟩

/-! ### A deep trie -/

lemma wideBytes_le {node : TrieNode} {m : ℕ} (hcount : node.children.items.length ≤ 1)
    (hlabel : (uleb128 node.label.terminal.length).length + node.label.terminal.length ≤ m) :
    wideBytes node ≤ m + 9 := by
  have hchar : ∀ c : Char, (String.utf8EncodeChar c).length ≤ 4 := by
    intro c
    rw [String.length_utf8EncodeChar]
    exact Char.utf8Size_le_four c
  rw [wideBytes]
  cases hitems : node.children.items with
  | nil =>
    rw [List.map_nil, List.sum_nil]
    omega
  | cons p ps =>
    obtain rfl : ps = [] := by
      rw [hitems, List.length_cons] at hcount
      exact List.length_eq_zero_iff.mp (by omega)
    have hp := hchar p.1
    rw [List.map_singleton, List.sum_singleton]
    omega

lemma length_items_path_le (g : NodeLabel → NodeLabel) (cs : List Char) :
    (Forest.path {} g cs).items.length ≤ 1 := by
  cases cs with
  | nil => exact Nat.zero_le _
  | cons c cs => cases cs <;> exact le_rfl

/-- The nodes of a path have one child at most, and one label except for the last. -/
lemma of_mem_path {g : NodeLabel → NodeLabel} (cs : List Char) :
    ∀ node ∈ (Forest.path {} g cs).nodes,
      node.children.items.length ≤ 1 ∧ (node.label = {} ∨ node.label = g {}) := by
  induction cs with
  | nil => simp [Forest.path, Forest.nodes]
  | cons c cs ih =>
    cases cs with
    | nil => simp [Forest.path, Forest.nodes, Forest.items]
    | cons c' cs =>
      have hpath : Forest.path ({} : NodeLabel) g (c :: c' :: cs) =
          .cons c {} (.path {} g (c' :: cs)) .nil := rfl
      rw [hpath, Forest.nodes, Forest.nodes, List.append_nil, List.forall_mem_cons]
      exact ⟨⟨length_items_path_le _ _, .inl rfl⟩, ih⟩

lemma length_nodes_path (g : NodeLabel → NodeLabel) (cs : List Char) :
    (Forest.path {} g cs).nodes.length = cs.length := by
  induction cs with
  | nil => rfl
  | cons c cs ih => cases cs <;> simp_all [Forest.path, Forest.nodes]

section

variable {name : String} {address : ℕ}

lemma items_single : (Dict.empty.set name address).items = [(name, address)] := rfl

/-- One export makes a trie with one node for each prefix of its name. -/
lemma exportRoot_single (hname : name.toList ≠ []) :
    exportRoot (Dict.empty.set name address) = ⟨{}, .path {}
      (fun label => { label with terminal := exportPayload address }) name.toList⟩ := by
  have hroot : exportRoot (Dict.empty.set name address) =
      insertExport ⟨{}, .nil⟩ (name, address) := rfl
  rw [hroot, insertExport]
  cases hcs : name.toList with
  | nil => exact absurd hcs hname
  | cons c cs => rfl

/-- The layout takes a name of some thousands of characters. -/
lemma layable_single (hname : name.toList ≠ []) (hlen : name.toList.length ≤ 2 ^ 16)
    (haddress : (exportPayload address).length ≤ 11) :
    Layable (exportRoot (Dict.empty.set name address)) := by
  rw [exportRoot_single hname]
  set f := Forest.path ({} : NodeLabel)
    (fun label => { label with terminal := exportPayload address }) name.toList with hf
  have hlabel : ∀ label : NodeLabel, label = {} ∨ label = { terminal := exportPayload address } →
      (uleb128 label.terminal.length).length + label.terminal.length ≤ 12 := by
    intro label hlabel
    have hterm : label.terminal.length ≤ 11 := by
      rcases hlabel with rfl | rfl
      · exact Nat.zero_le _
      · exact haddress
    have hone : (uleb128 label.terminal.length).length = 1 := by
      rw [length_uleb128 (by omega), width]
      simp [sevenBits]
      omega
    omega
  have hcount : f.items.length ≤ 1 := length_items_path_le _ _
  have hnodes : ∀ node ∈ (⟨{}, f⟩ : TrieNode).nodes,
      node.children.items.length ≤ 1 ∧ wideBytes node ≤ 12 + 9 := by
    rw [Tree.nodes, List.forall_mem_cons]
    refine ⟨⟨hcount, wideBytes_le hcount (hlabel _ (.inl rfl))⟩, fun node hnode => ?_⟩
    obtain ⟨hcount, hor⟩ := of_mem_path _ node hnode
    exact ⟨hcount, wideBytes_le hcount (hlabel _ hor)⟩
  refine ⟨fun node hnode => (hnodes node hnode).1.trans (by decide), ?_⟩
  have hsum := List.sum_le_card_nsmul _ _ (List.forall_mem_map.mpr fun node h => (hnodes node h).2)
  have hlen' : (⟨{}, f⟩ : TrieNode).nodes.length = name.toList.length + 1 := by
    rw [Tree.nodes, List.length_cons, hf, length_nodes_path]
  rw [List.length_map, smul_eq_mul] at hsum
  omega

lemma not_withinCalls_single {calls : ℕ} (hlen : calls ≤ name.length) :
    ¬ WithinCalls calls (Dict.empty.set name address) := by
  rintro ⟨-, hcalls⟩
  exact absurd (hcalls (name, address) (items_single ▸ List.mem_singleton_self _)) (not_lt.mpr hlen)

end

/-- The interpreter allows 1000 nested calls when nobody changes its limit.  A name of 1200
characters is too long for `visit`, and the layout would end. -/
theorem buildExportTrie_deep : ∃ name : String, name = String.ofList (List.replicate 1200 'x') ∧
    NulFree name ∧ Layable (exportRoot (Dict.empty.set name 1)) ∧
    buildExportTrie 1000 (Dict.empty.set name 1) = .error .recursion ∧
    ¬ Converges 1000 (Dict.empty.set name 1) := by
  obtain ⟨name, hname⟩ : ∃ name, name = String.ofList (List.replicate 1200 'x') := ⟨_, rfl⟩
  have hlist : name.toList = List.replicate 1200 'x' := by rw [hname, String.toList_ofList]
  have hlen : name.toList.length = 1200 := by rw [hlist, List.length_replicate]
  have hdeep : ¬ WithinCalls 1000 (Dict.empty.set name 1) :=
    not_withinCalls_single (by rw [← String.length_toList]; omega)
  refine ⟨name, hname, ?_, layable_single ?_ (by omega) (by decide +kernel),
    buildExportTrie_of_deep hdeep, fun h => hdeep (exists_buildExportTrie_iff.mp h.returns).1⟩
  · rw [NulFree, hlist, List.mem_replicate]
    exact fun h => absurd h.2 (by decide)
  · exact List.ne_nil_of_length_pos (by omega)

end Apk2Ios
