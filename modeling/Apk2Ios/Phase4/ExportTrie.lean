import Apk2Ios.MachO.ExportTrie
import Apk2Ios.Python
import Apk2Ios.Phase3.Encoding

/-!
# Phase 4: the export trie

The trie of the exported names, its layout and its bytes.  A node's code contains the offsets
of its children, whose widths depend on the layout, so the layout is repeated until nothing
changes; then every node is where its parent says it is, and dyld finds in the bytes exactly
the exports that went in.
-/

namespace Apk2Ios

open Lib MachO

/-! ### Building -/

/-- `TrieNode`: a terminal, an offset and the children in insertion order. -/
abbrev TrieNode := ExportTree

/-- `_uleb128(0) + _uleb128(address)`. -/
def exportPayload (address : ℕ) : Bytes := uleb128 0 ++ uleb128 address

/-- Add one export, with the nodes on its way. -/
def insertExport (root : TrieNode) (item : String × ℕ) : TrieNode :=
  root.update {} (fun label => { label with terminal := exportPayload item.2 }) item.1.toList

/-- The trie of the exports, before its layout. -/
def exportRoot (exports : Dict String ℕ) : TrieNode :=
  (sortedItems exports.items).foldl insertExport ⟨{}, .nil⟩

/-- The nodes `visit` appends below a node, which it calls itself for; `calls` is the number of
nested calls that the recursion limit of the interpreter still allows. -/
def visitForest : Forest Char NodeLabel → ℕ → PyM (List TrieNode)
  | .nil, _ => return []
  | .cons _ _ _ _, 0 => throw .recursion
  | .cons _ label children rest, calls + 1 => do
    let below ← visitForest children calls
    let after ← visitForest rest (calls + 1)
    return ⟨label, children⟩ :: (below ++ after)

/-- The list `nodes` after `visit(node)`. -/
def visit : ℕ → TrieNode → PyM (List TrieNode)
  | 0, _ => throw .recursion
  | calls + 1, node => do
    let below ← visitForest node.children calls
    return node :: below

/-- `encode_node` for a child. -/
def edgeBytes (p : Char × TrieNode) : Bytes :=
  String.utf8EncodeChar p.1 ++ [0] ++ uleb128 p.2.label.offset

/-- The bytes of a node. -/
def nodeBytes (node : TrieNode) : Bytes :=
  uleb128 node.label.terminal.length ++ (node.label.terminal ++
    (leBytes 1 node.children.items.length ++ (sortedItems node.children.items).flatMap edgeBytes))

/-- `encode_node(node)`. -/
def encodeNode (node : TrieNode) : PyM Bytes := do
  raiseIf (255 < node.children.items.length) (.phase3 .trieChildren)
  return nodeBytes node

/-- One pass of the layout over the nodes below a node, from a cursor and a flag that says
whether an offset has changed. -/
def layoutForest : Forest Char NodeLabel → ℕ × Bool → PyM (Forest Char NodeLabel × ℕ × Bool)
  | .nil, state => return (.nil, state)
  | .cons edge label children rest, (cursor, changed) => do
    let code ← encodeNode ⟨label, children⟩
    let (children, state) ← layoutForest children
      (cursor + code.length, changed || label.offset != cursor)
    let (rest, state) ← layoutForest rest state
    return (.cons edge { label with offset := cursor } children rest, state)

/-- One pass of the layout over all nodes, with the flag. -/
def layoutPass (root : TrieNode) : PyM (TrieNode × Bool) := do
  let code ← encodeNode root
  let (children, _, changed) ← layoutForest root.children (code.length, root.label.offset != 0)
  return (⟨{ root.label with offset := 0 }, children⟩, changed)

/-- `for _ in range(n)`: passes until one changes nothing. -/
def layoutPasses : ℕ → TrieNode → PyM TrieNode
  | 0, _ => throw (.phase3 .trieLayout)
  | n + 1, root => do
    let (root, changed) ← layoutPass root
    if changed then layoutPasses n root else return root

/-- The trie of the exports with its final layout. -/
def exportTrie (exports : Dict String ℕ) : PyM TrieNode := layoutPasses 32 (exportRoot exports)

/-- `_build_export_trie(exports)`, when `visit` can be called `calls` deep.  The passes go over
the nodes in the order of the visit. -/
def buildExportTrie (calls : ℕ) (exports : Dict String ℕ) : PyM Bytes := do
  let _ ← visit calls (exportRoot exports)
  let root ← exportTrie exports
  let codes ← root.nodes.mapM encodeNode
  return codes.flatten

lemma encodeNode_eq_ok {node : TrieNode} {code : Bytes} :
    encodeNode node = .ok code ↔ node.children.items.length ≤ 255 ∧ nodeBytes node = code := by
  simp [encodeNode]

lemma length_nodeBytes_pos (node : TrieNode) : 0 < (nodeBytes node).length := by
  simp [nodeBytes, length_leBytes]

/-! ### The depth of the trie -/

lemma visitForest_eq_ok {f : Forest Char NodeLabel} {calls : ℕ} {nodes : List TrieNode} :
    visitForest f calls = .ok nodes ↔ f.depth ≤ calls ∧ nodes = f.nodes := by
  induction f generalizing calls nodes with
  | nil =>
    rw [visitForest, PyM.pure_eq_ok, Forest.depth, Forest.nodes, eq_comm]
    exact (and_iff_right (Nat.zero_le calls)).symm
  | cons edge label children rest ihk ihr =>
    rw [Forest.depth, Forest.nodes, Nat.max_le]
    cases calls with
    | zero =>
      rw [visitForest, PyM.throw_ne_ok, false_iff]
      exact fun h => Nat.not_succ_le_zero _ h.1.1
    | succ calls =>
      simp only [visitForest, PyM.bind_eq_ok, PyM.pure_eq_ok, ihk, ihr, Nat.succ_le_succ_iff]
      constructor
      · rintro ⟨_, ⟨hk, rfl⟩, _, ⟨hr, rfl⟩, rfl⟩
        exact ⟨⟨hk, hr⟩, rfl⟩
      · rintro ⟨⟨hk, hr⟩, rfl⟩
        exact ⟨_, ⟨hk, rfl⟩, _, ⟨hr, rfl⟩, rfl⟩

/-- A visit returns when it has more calls than the tree is deep, and then it has listed all
nodes. -/
lemma visit_eq_ok {calls : ℕ} {node : TrieNode} {nodes : List TrieNode} :
    visit calls node = .ok nodes ↔ node.children.depth < calls ∧ nodes = node.nodes := by
  cases calls with
  | zero => simp [visit]
  | succ calls =>
    simp only [visit, PyM.bind_eq_ok, PyM.pure_eq_ok, visitForest_eq_ok, Nat.lt_succ_iff]
    constructor
    · rintro ⟨_, ⟨hdepth, rfl⟩, rfl⟩
      exact ⟨hdepth, rfl⟩
    · rintro ⟨hdepth, rfl⟩
      exact ⟨_, ⟨hdepth, rfl⟩, rfl⟩

lemma raises_visitForest (f : Forest Char NodeLabel) (calls : ℕ) :
    (visitForest f calls).Raises (· = .recursion) := by
  induction f generalizing calls with
  | nil => exact PyM.raises_pure _
  | cons edge label children rest ihk ihr =>
    cases calls with
    | zero => exact PyM.raises_error rfl
    | succ calls =>
      exact (ihk calls).bind fun _ => (ihr (calls + 1)).bind fun _ => PyM.raises_pure _

lemma raises_visit (calls : ℕ) (node : TrieNode) :
    (visit calls node).Raises (· = .recursion) := by
  cases calls with
  | zero => exact PyM.raises_error rfl
  | succ calls => exact (raises_visitForest _ calls).bind fun _ => PyM.raises_pure _

/-- The trie of the exports is as deep as the longest name. -/
lemma depth_exportRoot_le_iff {exports : Dict String ℕ} {n : ℕ} :
    (exportRoot exports).children.depth ≤ n ↔ ∀ item ∈ exports.items, item.1.length ≤ n := by
  have hall : ∀ (items : List (String × ℕ)) (root : TrieNode),
      (items.foldl insertExport root).children.depth ≤ n ↔
        root.children.depth ≤ n ∧ ∀ item ∈ items, item.1.length ≤ n := by
    intro items
    induction items with
    | nil => simp
    | cons item items ih =>
      intro root
      rw [List.foldl_cons, ih, insertExport, Tree.depth_update, String.length_toList, Nat.max_le,
        List.forall_mem_cons, and_assoc]
  have hempty : Forest.nil.depth (κ := Char) (α := NodeLabel) ≤ n := Nat.zero_le n
  rw [exportRoot, hall]
  refine (and_iff_right hempty).trans ?_
  exact forall_congr' fun item => by rw [(sortedItems_perm exports.items).mem_iff]

/-- The interpreter lets `visit` get to the end of every name. -/
def WithinCalls (calls : ℕ) (exports : Dict String ℕ) : Prop :=
  0 < calls ∧ ∀ item ∈ exports.items, item.1.length < calls

lemma depth_exportRoot_lt_iff {calls : ℕ} {exports : Dict String ℕ} :
    (exportRoot exports).children.depth < calls ↔ WithinCalls calls exports := by
  cases calls with
  | zero => simp [WithinCalls]
  | succ calls =>
    rw [Nat.lt_succ_iff, depth_exportRoot_le_iff, WithinCalls, and_iff_right calls.succ_pos]
    exact forall₂_congr fun _ _ => Nat.lt_succ_iff.symm

/-- The function fails in its visit when a name is too long. -/
lemma buildExportTrie_of_deep {calls : ℕ} {exports : Dict String ℕ}
    (h : ¬ WithinCalls calls exports) : buildExportTrie calls exports = .error .recursion := by
  rw [buildExportTrie]
  cases hvisit : visit calls (exportRoot exports) with
  | error e =>
    rw [raises_visit _ _ e hvisit]
    rfl
  | ok nodes => exact absurd (depth_exportRoot_lt_iff.mp (visit_eq_ok.mp hvisit).1) h

/-! ### The layout -/

/-- The bytes of the nodes of a forest. -/
def forestBytes (f : Forest Char NodeLabel) : Bytes := f.nodes.flatMap nodeBytes

lemma forestBytes_cons (edge : Char) (label : NodeLabel) (children rest : Forest Char NodeLabel) :
    forestBytes (.cons edge label children rest) =
      nodeBytes ⟨label, children⟩ ++ (forestBytes children ++ forestBytes rest) := by
  simp [forestBytes, Forest.nodes]

/-- Every node's offset is the place of its bytes, when those of the forest start at
`cursor`. -/
def Laid : ℕ → Forest Char NodeLabel → Prop
  | _, .nil => True
  | cursor, .cons _ label children rest =>
    label.offset = cursor ∧ children.items.length ≤ 255 ∧
      Laid (cursor + (nodeBytes ⟨label, children⟩).length) children ∧
      Laid (cursor + (nodeBytes ⟨label, children⟩).length + (forestBytes children).length) rest

/-- A pass changes offsets only. -/
lemma map_terminal_layoutForest {f f' : Forest Char NodeLabel} {state state' : ℕ × Bool}
    (h : layoutForest f state = .ok (f', state')) :
    f'.map NodeLabel.terminal = f.map NodeLabel.terminal := by
  induction f generalizing f' state state' with
  | nil =>
    obtain ⟨rfl, -⟩ := Prod.mk.inj (PyM.pure_eq_ok.mp h)
    rfl
  | cons edge label children rest ihk ihr =>
    obtain ⟨cursor, changed⟩ := state
    simp only [layoutForest, PyM.bind_eq_ok, PyM.pure_eq_ok, Prod.exists, Prod.mk.injEq] at h
    obtain ⟨code, -, children', c, ch, hk, rest', c', ch', hr, rfl, -⟩ := h
    rw [Forest.map, Forest.map, ihk hk, ihr hr]

/-- A pass that changes nothing has every node in its place. -/
lemma laid_of_layoutForest {f f' : Forest Char NodeLabel} {cursor cursor' : ℕ} {changed : Bool}
    (h : layoutForest f (cursor, changed) = .ok (f', cursor', false)) :
    changed = false ∧ f' = f ∧ cursor' = cursor + (forestBytes f).length ∧ Laid cursor f := by
  induction f generalizing f' cursor cursor' changed with
  | nil =>
    obtain ⟨rfl, hstate⟩ := Prod.mk.inj (PyM.pure_eq_ok.mp h)
    obtain ⟨rfl, rfl⟩ := Prod.mk.inj hstate
    exact ⟨rfl, rfl, rfl, trivial⟩
  | cons edge label children rest ihk ihr =>
    simp only [layoutForest, PyM.bind_eq_ok, PyM.pure_eq_ok, Prod.exists, Prod.mk.injEq] at h
    obtain ⟨code, hcode, children', c, ch, hk, rest', c', ch', hr, rfl, rfl, rfl⟩ := h
    obtain ⟨hcount, rfl⟩ := encodeNode_eq_ok.mp hcode
    obtain ⟨rfl, rfl, rfl, hlaidr⟩ := ihr hr
    obtain ⟨hch, rfl, rfl, hlaidk⟩ := ihk hk
    obtain ⟨rfl, hoff⟩ : changed = false ∧ label.offset = cursor := by simpa using hch
    subst hoff
    refine ⟨rfl, rfl, ?_, rfl, hcount, hlaidk, hlaidr⟩
    rw [forestBytes_cons, List.length_append, List.length_append]
    omega

/-- No child starts before the cursor. -/
lemma Laid.le {cursor : ℕ} {f : Forest Char NodeLabel} (h : Laid cursor f) :
    ∀ p ∈ f.items, cursor ≤ p.2.label.offset := by
  induction f generalizing cursor with
  | nil => simp [Forest.items]
  | cons edge label children rest _ ihr =>
    obtain ⟨hoff, -, -, hrest⟩ := h
    rw [Forest.items, List.forall_mem_cons]
    refine ⟨hoff.ge, fun p hp => ?_⟩
    have := ihr hrest p hp
    omega

/-- A node is written at its offset, and its children after it. -/
structure NodeLaid (trie : Bytes) (node : TrieNode) : Prop where
  count : node.children.items.length ≤ 255
  code : nodeBytes node <+: trie.drop node.label.offset
  after : ∀ p ∈ node.children.items, node.label.offset < p.2.label.offset

lemma NodeLaid.of_append {trie post : Bytes} {node : TrieNode} (pre : Bytes)
    (htrie : trie = pre ++ (nodeBytes node ++ post)) (hpre : pre.length = node.label.offset)
    (hcount : node.children.items.length ≤ 255)
    (hlaid : Laid (node.label.offset + (nodeBytes node).length) node.children) :
    NodeLaid trie node := by
  refine ⟨hcount, ?_, fun p hp => ?_⟩
  · rw [htrie, ← hpre, List.drop_left]
    exact List.prefix_append _ post
  · have hle := hlaid.le p hp
    have hpos := length_nodeBytes_pos node
    omega

lemma Laid.nodeLaid {trie : Bytes} {cursor : ℕ} {f : Forest Char NodeLabel}
    (h : Laid cursor f) (pre post : Bytes) (htrie : trie = pre ++ (forestBytes f ++ post))
    (hpre : pre.length = cursor) : ∀ node ∈ f.nodes, NodeLaid trie node := by
  induction f generalizing cursor pre post with
  | nil => simp [Forest.nodes]
  | cons edge label children rest ihk ihr =>
    obtain ⟨hoff, hcount, hk, hr⟩ := h
    rw [forestBytes_cons, List.append_assoc] at htrie
    rw [Forest.nodes, List.forall_mem_cons, List.forall_mem_append]
    refine ⟨NodeLaid.of_append pre htrie (hpre.trans hoff.symm) hcount (hoff ▸ hk), ihk hk
      (pre ++ nodeBytes ⟨label, children⟩) (forestBytes rest ++ post) ?_ ?_, ihr hr
      (pre ++ (nodeBytes ⟨label, children⟩ ++ forestBytes children)) post ?_ ?_⟩
    · simpa using htrie
    · rw [List.length_append, hpre]
    · simpa using htrie
    · rw [List.length_append, List.length_append, hpre, Nat.add_assoc]

/-- What the passes return: the same trie but for offsets, with every node in its place. -/
lemma layoutPasses_spec {n : ℕ} {root root' : TrieNode} (h : layoutPasses n root = .ok root') :
    root'.map NodeLabel.terminal = root.map NodeLabel.terminal ∧ root'.label.offset = 0 ∧
      ∀ node ∈ root'.nodes, NodeLaid (root'.nodes.flatMap nodeBytes) node := by
  induction n generalizing root with
  | zero => cases h
  | succ n ih =>
    simp only [layoutPasses, layoutPass, bind_assoc, PyM.bind_eq_ok, Prod.exists, pure_bind] at h
    obtain ⟨code, hcode, children, cursor, changed, hpass, h⟩ := h
    have hterm : (⟨{ root.label with offset := 0 }, children⟩ : TrieNode).map NodeLabel.terminal =
        root.map NodeLabel.terminal :=
      congrArg (Tree.mk root.label.terminal) (map_terminal_layoutForest hpass)
    -- a pass that changes an offset is followed by another; one that does not has laid the trie
    cases changed with
    | true =>
      obtain ⟨hmap, hrest⟩ := ih h
      exact ⟨hmap.trans hterm, hrest⟩
    | false =>
      obtain rfl := PyM.pure_eq_ok.mp h
      obtain ⟨hcount, rfl⟩ := encodeNode_eq_ok.mp hcode
      obtain ⟨hoff, rfl, -, hlaid⟩ := laid_of_layoutForest hpass
      have hroot : (⟨{ root.label with offset := 0 }, root.children⟩ : TrieNode) = root := by
        have hzero : root.label.offset = 0 := by simpa using hoff
        rw [← hzero]
      rw [hroot]
      have hzero : root.label.offset = 0 := by simpa using hoff
      refine ⟨rfl, hzero, ?_⟩
      rw [Tree.nodes, List.forall_mem_cons, List.flatMap_cons]
      refine ⟨NodeLaid.of_append [] rfl hzero.symm hcount ?_, ?_⟩
      · rwa [hzero, Nat.zero_add]
      · exact hlaid.nodeLaid _ [] (by rw [List.append_nil, forestBytes]) rfl

/-! ### Reading the bytes back -/

lemma encodes_edgeBytes {p : Char × TrieNode} (h : p.1 ≠ '\x00') :
    Encodes exportEdge (edgeOf p) (edgeBytes p) := by
  have hnul : (0 : UInt8) ∉ String.utf8EncodeChar p.1 := zero_mem_utf8EncodeChar.not.mpr h
  exact (Encodes.cstring hnul).bind (encodes_uleb128 p.2.label.offset).bind_pure

/-- A node's bytes are read back as the node. -/
lemma encodes_nodeBytes {node : TrieNode} (hcount : node.children.items.length ≤ 255)
    (hnul : ∀ p ∈ node.children.items, p.1 ≠ '\x00') :
    Encodes exportNode ⟨node.label.terminal, (sortedItems node.children.items).map edgeOf⟩
      (nodeBytes node) := by
  have hperm := sortedItems_perm node.children.items
  have hedges := Encodes.list exportEdge ((sortedItems node.children.items).map edgeOf)
    (fun e => e.1 ++ [0] ++ uleb128 e.2) (by
      simp only [List.forall_mem_map]
      exact fun p hp => encodes_edgeBytes (hnul p (hperm.mem_iff.mp hp)))
  rw [List.length_map, hperm.length_eq, List.flatMap_map] at hedges
  exact (encodes_uleb128 _).bind ((Encodes.bytes _).bind
    ((Encodes.nat (by omega)).bind hedges.bind_pure))

lemma NodeLaid.exportNodeAt {trie : Bytes} {node : TrieNode} (h : NodeLaid trie node)
    (hnul : ∀ p ∈ node.children.items, p.1 ≠ '\x00') :
    exportNodeAt trie node.label.offset =
      some ⟨node.label.terminal, (sortedItems node.children.items).map edgeOf⟩ := by
  obtain ⟨rest, hrest⟩ := h.code
  rw [MachO.exportNodeAt, ← hrest, encodes_nodeBytes h.count hnul rest]
  rfl

/-- Bytes with every node in its place hold the trie. -/
lemma holds_of_nodeLaid {trie : Bytes} {root : TrieNode} (hnul : '\x00' ∉ root.children.edges)
    (h : ∀ node ∈ root.nodes, NodeLaid trie node) : Holds trie root := by
  induction root using Tree.induction with
  | h root ih =>
    have hroot := h root List.mem_cons_self
    have hedge : ∀ p ∈ root.children.items, p.1 ≠ '\x00' ∧ '\x00' ∉ p.2.children.edges := by
      intro p hp
      constructor
      · exact fun hc => hnul ((Forest.mem_edges _).mpr ⟨p, hp, .inl hc.symm⟩)
      · exact fun hc => hnul ((Forest.mem_edges _).mpr ⟨p, hp, .inr hc⟩)
    refine .node (hroot.exportNodeAt fun p hp => (hedge p hp).1)
      ((sortedItems_perm _).map edgeOf) hroot.after fun p hp => ?_
    refine ih p hp (hedge p hp).2 fun node hnode => h node ?_
    rw [Tree.nodes, Forest.nodes_eq_flatMap]
    exact List.mem_cons_of_mem _ (List.mem_flatMap.mpr ⟨p, hp, hnode⟩)

/-! ### The names of the trie -/

/-- The terminal of a label, when there is one. -/
def terminal? (label : NodeLabel) : Option Bytes :=
  if label.terminal = [] then none else some label.terminal

/-- The terminal at a name. -/
def terminalAt (root : TrieNode) (name : String) : Option Bytes :=
  (root.get? name.toList).bind terminal?

lemma uleb128_ne_nil (n : ℕ) : uleb128 n ≠ [] := by
  rw [uleb128]
  split <;> simp

lemma terminal?_exportPayload (label : NodeLabel) (address : ℕ) :
    terminal? { label with terminal := exportPayload address } = some (exportPayload address) := by
  rw [terminal?, if_neg]
  simp [exportPayload, uleb128_ne_nil]

lemma exportInfo_exportPayload (address : ℕ) :
    exportInfo (exportPayload address) = some ⟨0, address⟩ := by
  have hflags := encodes_uleb128 0 (uleb128 address)
  have haddress := encodes_uleb128 address []
  rw [List.append_nil] at haddress
  rw [exportInfo, exportPayload, hflags]
  simp [haddress]

lemma terminalAt_insertExport (root : TrieNode) (item : String × ℕ) (name : String) :
    terminalAt (insertExport root item) name =
      if name = item.1 then some (exportPayload item.2) else terminalAt root name := by
  rw [terminalAt, insertExport, Tree.bind_get?_update (by rfl)]
  simp only [String.toList_inj, terminal?_exportPayload, terminalAt]

/-- The terminals after adding exports one after another. -/
lemma terminalAt_foldl {items : List (String × ℕ)} (hnodup : (items.map Prod.fst).Nodup)
    (root : TrieNode) (name : String) (terminal : Bytes) :
    terminalAt (items.foldl insertExport root) name = some terminal ↔
      (∃ address, (name, address) ∈ items ∧ exportPayload address = terminal) ∨
        name ∉ items.map Prod.fst ∧ terminalAt root name = some terminal := by
  induction items generalizing root with
  | nil => simp
  | cons item items ih =>
    obtain ⟨hnew, hnodup⟩ := List.nodup_cons.mp hnodup
    rw [List.foldl_cons, ih hnodup, terminalAt_insertExport]
    by_cases hname : name = item.1
    · subst hname
      have hold : ∀ address, (item.1, address) ∉ items := by
        intro address hmem
        have hkey : (item.1, address).1 ∈ items.map Prod.fst := List.mem_map_of_mem hmem
        exact hnew hkey
      simp [hold, hnew, Prod.ext_iff]
    · simp [hname, Prod.ext_iff]

/-- The terminals of the trie are the payloads of the exports. -/
lemma terminalAt_exportRoot (exports : Dict String ℕ) (name : String) (terminal : Bytes) :
    terminalAt (exportRoot exports) name = some terminal ↔
      ∃ address, exports.get? name = some address ∧ exportPayload address = terminal := by
  have hperm := sortedItems_perm exports.items
  have hnodup := (hperm.map Prod.fst).nodup_iff.mpr exports.nodup
  have hroot : terminalAt ⟨{}, .nil⟩ name = none := by
    cases hname : name.toList <;> simp [terminalAt, hname, terminal?, Tree.get?, Forest.get?]
  simp only [exportRoot, terminalAt_foldl hnodup, hroot, reduceCtorEq, and_false, or_false,
    hperm.mem_iff, Dict.mem_items_iff]

/-- Adding exports keeps edges distinct, and the characters of the names are the new ones. -/
lemma edges_foldl {items : List (String × ℕ)} (hnul : ∀ p ∈ items, NulFree p.1) {root : TrieNode}
    (h : root.children.Distinct ∧ '\x00' ∉ root.children.edges) :
    (items.foldl insertExport root).children.Distinct ∧
      '\x00' ∉ (items.foldl insertExport root).children.edges := by
  induction items generalizing root with
  | nil => exact h
  | cons item items ih =>
    obtain ⟨hitem, hitems⟩ := List.forall_mem_cons.mp hnul
    obtain ⟨hdistinct, hedges⟩ := h
    refine ih hitems ⟨Tree.distinct_update hdistinct _, fun hmem => ?_⟩
    rcases Tree.mem_edges_update hmem with hold | hnew
    · exact hedges hold
    · exact hitem hnew

lemma exportRoot_edges (exports : Dict String ℕ) (hnul : ∀ p ∈ exports.items, NulFree p.1) :
    (exportRoot exports).children.Distinct ∧ '\x00' ∉ (exportRoot exports).children.edges :=
  edges_foldl (fun p hp => hnul p ((sortedItems_perm _).mem_iff.mp hp))
    ⟨trivial, by simp [Forest.edges]⟩

/-- The trie after its layout: where the nodes are, and what the names lead to. -/
structure LaidTrie (exports : Dict String ℕ) (root : TrieNode) (trie : Bytes) : Prop where
  offset : root.label.offset = 0
  laid : ∀ node ∈ root.nodes, NodeLaid trie node
  distinct : root.children.Distinct
  nulFree : '\x00' ∉ root.children.edges
  names : ∀ name terminal, terminalAt root name = some terminal ↔
    ∃ address, exports.get? name = some address ∧ exportPayload address = terminal

lemma laidTrie_of_buildExportTrie {calls : ℕ} {exports : Dict String ℕ} {trie : Bytes}
    (hnul : ∀ p ∈ exports.items, NulFree p.1) (h : buildExportTrie calls exports = .ok trie) :
    ∃ root, exportTrie exports = .ok root ∧ trie = root.nodes.flatMap nodeBytes ∧
      LaidTrie exports root trie := by
  simp only [buildExportTrie, PyM.bind_eq_ok, PyM.pure_eq_ok] at h
  obtain ⟨-, -, root, hroot, codes, hcodes, rfl⟩ := h
  obtain ⟨-, rfl⟩ := (PyM.mapM_eq_ok_map fun _ _ => encodeNode_eq_ok).mp hcodes
  rw [← List.flatMap_def]
  refine ⟨root, hroot, rfl, ?_⟩
  obtain ⟨hmap, hoff, hlaid⟩ := layoutPasses_spec hroot
  obtain ⟨hdistinct, hedges⟩ := exportRoot_edges exports hnul
  have hchildren : root.children.map NodeLabel.terminal =
      (exportRoot exports).children.map NodeLabel.terminal := congrArg Tree.children hmap
  refine ⟨hoff, hlaid, ?_, ?_, fun name terminal => ?_⟩
  · rwa [← Forest.distinct_map NodeLabel.terminal, hchildren, Forest.distinct_map]
  · rwa [← Forest.edges_map NodeLabel.terminal, hchildren, Forest.edges_map]
  · rw [← terminalAt_exportRoot]
    have hat : ∀ t : TrieNode, terminalAt t name =
        ((t.map NodeLabel.terminal).get? name.toList).bind
          fun bs => if bs = [] then none else some bs := by
      intro t
      rw [Tree.get?_map, Option.bind_map]
      rfl
    rw [hat, hat, hmap]

namespace LaidTrie

variable {exports : Dict String ℕ} {root : TrieNode} {trie : Bytes} (h : LaidTrie exports root trie)
include h

lemma holds : Holds trie root := holds_of_nodeLaid h.nulFree h.laid

/-- The terminals that a path leads to are those at the names. -/
lemma get?_eq_some {cs : List Char} {terminal : Bytes} (hne : terminal ≠ []) :
    (root.get? cs).map NodeLabel.terminal = some terminal ↔
      ∃ address, exports.get? (String.ofList cs) = some address ∧
        exportPayload address = terminal := by
  rw [← h.names, terminalAt, String.toList_ofList]
  cases root.get? cs with
  | none => simp
  | some label =>
    simp only [Option.map_some, Option.some.injEq, Option.bind_some, terminal?]
    split <;> simp_all

/-- **Looking up.**  A name is found exactly when it is one of the exports, with its address. -/
theorem findExport (name : Bytes) :
    ∃ r, findExport trie name = some r ∧ ∀ info, r = some info ↔
      ∃ s, utf8 s = name ∧ exports.get? s = some info.address ∧ info.flags = 0 := by
  obtain ⟨r, hr, hiff⟩ := h.holds.walkTrie h.distinct (Nat.lt_succ_self name.length)
  rw [h.offset] at hr
  -- a terminal found is the payload of an export, which has one address
  have hsome : ∀ terminal, r = some terminal ↔
      ∃ s address, utf8 s = name ∧ exports.get? s = some address ∧
        exportPayload address = terminal := by
    intro terminal
    rw [hiff]
    constructor
    · rintro ⟨hne, cs, rfl, hget⟩
      obtain ⟨address, haddress, hpayload⟩ := (h.get?_eq_some hne).mp hget
      exact ⟨String.ofList cs, address, utf8_ofList cs, haddress, hpayload⟩
    · rintro ⟨s, address, rfl, haddress, rfl⟩
      have hne : exportPayload address ≠ [] := by simp [exportPayload, uleb128_ne_nil]
      refine ⟨hne, s.toList, pathBytes_toList s, (h.get?_eq_some hne).mpr ⟨address, ?_, rfl⟩⟩
      rwa [String.ofList_toList]
  rw [MachO.findExport, hr]
  cases r with
  | none =>
    refine ⟨none, rfl, fun info => ?_⟩
    simp only [reduceCtorEq, false_iff]
    rintro ⟨s, hs, haddress, -⟩
    exact absurd ((hsome _).mpr ⟨s, _, hs, haddress, rfl⟩) (by simp)
  | some terminal =>
    obtain ⟨s, address, rfl, haddress, rfl⟩ := (hsome terminal).mp rfl
    refine ⟨some ⟨0, address⟩, by simp [exportInfo_exportPayload], fun info => ?_⟩
    simp only [utf8_inj, exists_eq_left, haddress, Option.some.injEq]
    constructor
    · rintro rfl
      exact ⟨rfl, rfl⟩
    · rintro ⟨rfl, hflags⟩
      rw [← hflags]

/-- A node with a terminal stands for an export. -/
lemma exists_of_mem_entries {e : List Char × NodeLabel} (he : e ∈ root.entries)
    (hne : e.2.terminal ≠ []) :
    ∃ address, exports.get? (String.ofList e.1) = some address ∧
      exportPayload address = e.2.terminal := by
  have hget := (Tree.mem_entries h.distinct).mp (show (e.1, e.2) ∈ root.entries from he)
  exact (h.get?_eq_some hne).mp (by rw [hget, Option.map_some])

/-- The nodes with a terminal are the exports. -/
lemma mem_entries {x : Bytes × ExportInfo} :
    x ∈ root.entries.filterMap (exportOf []) ↔
      x ∈ exports.items.map fun p => (utf8 p.1, (⟨0, p.2⟩ : ExportInfo)) := by
  simp only [List.mem_filterMap, List.mem_map, exportOf_eq_some, List.nil_append]
  constructor
  · rintro ⟨e, he, hne, hname, hinfo⟩
    obtain ⟨address, haddress, hpayload⟩ := h.exists_of_mem_entries he hne
    rw [← hpayload, exportInfo_exportPayload, Option.some.injEq] at hinfo
    refine ⟨(String.ofList e.1, address), exports.mem_items_iff.mpr haddress, ?_⟩
    rw [utf8_ofList, ← hname, hinfo]
  · rintro ⟨⟨s, address⟩, hmem, rfl⟩
    have hne : exportPayload address ≠ [] := by simp [exportPayload, uleb128_ne_nil]
    have haddress := exports.mem_items_iff.mp hmem
    obtain ⟨label, hlabel, hterm⟩ := Option.map_eq_some_iff.mp ((h.get?_eq_some hne).mpr
      ⟨address, by rwa [String.ofList_toList], rfl⟩ : (root.get? s.toList).map _ = _)
    refine ⟨(s.toList, label), (Tree.mem_entries h.distinct).mpr hlabel, ?_, ?_, ?_⟩
    · rwa [hterm]
    · exact (pathBytes_toList s).symm
    · rw [hterm, exportInfo_exportPayload]

/-- **Enumerating.**  The trie lists every export once. -/
theorem exportsOf : ∃ out, exportsOf trie = some out ∧
    out.Perm (exports.items.map fun p => (utf8 p.1, ⟨0, p.2⟩)) := by
  have hlen : trie.length < trie.length + 1 + root.label.offset := by omega
  obtain ⟨out, hout, hperm⟩ := h.holds.exportsFrom (by
    intro e he hne
    obtain ⟨address, -, hpayload⟩ := h.exists_of_mem_entries he hne
    rw [← hpayload, exportInfo_exportPayload]
    rfl) hlen []
  rw [h.offset] at hout
  refine ⟨out, hout, hperm.trans ((List.perm_ext_iff_of_nodup ?_ ?_).mpr fun _ => h.mem_entries)⟩
  · have hpaths := List.pairwise_map.mp (Tree.nodup_entries h.distinct)
    refine List.Pairwise.filterMap _ ?_ hpaths
    rintro e e' hne x hx x' hx' rfl
    have hpath := (exportOf_eq_some.mp hx).2.1.symm.trans (exportOf_eq_some.mp hx').2.1
    exact hne (pathBytes_injective hpath)
  · have hnames := exports.nodup.map utf8_injective
    refine List.Nodup.of_map Prod.fst ?_
    simpa [Function.comp_def] using hnames

end LaidTrie

/-- **The export trie is exact.**  When `_build_export_trie` returns for names without NUL,
every byte string has an answer in the bytes: it is exported exactly when it is a name of the
map, with flags 0 and the address of that name.  Every node of the trie is read at its offset,
with the offsets of its children on its edges, and at the offset of a child stands the code of
that child.  Enumerating the terminals gives every name once. -/
theorem buildExportTrie_spec (calls : ℕ) (exports : Dict String ℕ)
    (hnul : ∀ p ∈ exports.items, NulFree p.1) (trie : Bytes)
    (h : buildExportTrie calls exports = .ok trie) :
    (∀ name : Bytes, ∃ r, findExport trie name = some r ∧ ∀ info, r = some info ↔
      ∃ s, utf8 s = name ∧ exports.get? s = some info.address ∧ info.flags = 0) ∧
    (∃ root, exportTrie exports = .ok root ∧ root.label.offset = 0 ∧ ∀ node ∈ root.nodes,
      exportNodeAt trie node.label.offset =
        some ⟨node.label.terminal, (sortedItems node.children.items).map edgeOf⟩ ∧
      ∀ p ∈ node.children.items, ∃ code, encodeNode p.2 = .ok code ∧
        code <+: trie.drop p.2.label.offset) ∧
    ∃ out, exportsOf trie = some out ∧
      out.Perm (exports.items.map fun p => (utf8 p.1, ⟨0, p.2⟩)) := by
  obtain ⟨root, hroot, -, hlaid⟩ := laidTrie_of_buildExportTrie hnul h
  refine ⟨hlaid.findExport, ⟨root, hroot, hlaid.offset, fun node hnode => ⟨?_, fun p hp => ?_⟩⟩,
    hlaid.exportsOf⟩
  · refine (hlaid.laid node hnode).exportNodeAt fun p hp hc => hlaid.nulFree ?_
    exact hc ▸ Tree.mem_edges_of_mem_nodes hnode hp
  · have hchild := hlaid.laid p.2 (Tree.mem_nodes_of_mem_items hnode hp)
    exact ⟨nodeBytes p.2, encodeNode_eq_ok.mpr ⟨hchild.count, rfl⟩, hchild.code⟩


/-- Two exports, the name of one a prefix of the other's. -/
def fgExports : Dict String ℕ := (Dict.empty.set "_fg" 0x10040).set "_f" 0x10020

theorem buildExportTrie_spec_prefix :
    ∃ out, exportsOf [0, 1, 95, 0, 5, 0, 1, 102, 0, 10, 4, 0, 160, 128, 4, 1, 103, 0, 19, 4, 0,
      192, 128, 4, 0] = some out ∧
        out.Perm [(utf8 "_fg", ⟨0, 0x10040⟩), (utf8 "_f", ⟨0, 0x10020⟩)] :=
  (buildExportTrie_spec 1000 fgExports (by decide) _ (by decide +kernel)).2.2

end Apk2Ios
