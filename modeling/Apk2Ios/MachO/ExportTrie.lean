import Mathlib.Data.List.Perm.Basic
import Apk2Ios.Lib.Lists
import Apk2Ios.Lib.Reader
import Apk2Ios.Lib.Trie
import Apk2Ios.Lib.Utf8

/-!
# Export tries

How dyld reads an export trie: a node is the size of its terminal, the terminal, the number
of its edges, and for each edge a NUL-terminated string and the offset of the child from the
start of the trie.  Bytes that hold a tree of characters are walked exactly as the tree is.
-/

namespace Apk2Ios.MachO

open Lib

/-! ### Reading -/

/-- A node as it is written. -/
structure ExportNode where
  terminal : Bytes
  edges : List (Bytes × ℕ)
deriving DecidableEq, Repr

/-- Read an edge: its characters and the offset of the child. -/
def exportEdge : Reader (Bytes × ℕ) := do
  let edge ← Reader.cstring
  let child ← Reader.uleb
  return (edge, child)

/-- Read a node. -/
def exportNode : Reader ExportNode := do
  let size ← Reader.uleb
  let terminal ← Reader.bytes size
  let count ← Reader.nat 1
  let edges ← Reader.list exportEdge count
  return ⟨terminal, edges⟩

/-- The node at an offset. -/
def exportNodeAt (trie : Bytes) (off : ℕ) : Option ExportNode :=
  (exportNode (trie.drop off)).map Prod.fst

/-- What a terminal says of its symbol. -/
structure ExportInfo where
  flags : ℕ
  address : ℕ
deriving DecidableEq, Repr

/-- Read the flags and the address of a terminal, which hold nothing else. -/
def exportInfo (terminal : Bytes) : Option ExportInfo := do
  let (flags, rest) ← Reader.uleb terminal
  let (address, rest) ← Reader.uleb rest
  if rest = [] then return ⟨flags, address⟩ else none

/-- Follow a name from the node at `off`: the terminal when the name is used up at a node
with one, else the first edge that the name starts with.  The outer `none` is a trie that can
not be read, the inner one a name that is not exported. -/
def walkTrie (trie : Bytes) : ℕ → ℕ → Bytes → Option (Option Bytes)
  | 0, _, _ => none
  | fuel + 1, off, name => do
    let node ← exportNodeAt trie off
    if name = [] ∧ node.terminal ≠ [] then
      return some node.terminal
    match node.edges.find? fun e => e.1.isPrefixOf name with
    | none => return none
    | some (edge, child) =>
      if child = 0 then return none else walkTrie trie fuel child (name.drop edge.length)

/-- Look a name up in the trie. -/
def findExport (trie name : Bytes) : Option (Option ExportInfo) := do
  match ← walkTrie trie (name.length + 1) 0 name with
  | none => return none
  | some terminal => return some (← exportInfo terminal)

/-- The exports at the node at `off`, reached under `name`, and at all nodes below it. -/
def exportsFrom (trie : Bytes) : ℕ → ℕ → Bytes → Option (List (Bytes × ExportInfo))
  | 0, _, _ => none
  | fuel + 1, off, name => do
    let node ← exportNodeAt trie off
    let own ← if node.terminal = [] then some []
      else (exportInfo node.terminal).map fun info => [(name, info)]
    let below ← node.edges.mapM fun e => exportsFrom trie fuel e.2 (name ++ e.1)
    return own ++ below.flatten

/-- All exports of the trie. -/
def exportsOf (trie : Bytes) : Option (List (Bytes × ExportInfo)) :=
  exportsFrom trie (trie.length + 1) 0 []

/-! ### Bytes that hold a tree -/

/-- What is written for a node: its terminal, and the place where it is written. -/
structure NodeLabel where
  terminal : Bytes := []
  offset : ℕ := 0
deriving DecidableEq, Repr

/-- A tree of characters. -/
abbrev ExportTree := Tree Char NodeLabel

/-- The bytes of a path. -/
def pathBytes (cs : List Char) : Bytes := cs.flatMap String.utf8EncodeChar

/-- How an edge and the offset of its child are read. -/
def edgeOf (p : Char × ExportTree) : Bytes × ℕ := (String.utf8EncodeChar p.1, p.2.label.offset)

/-- The bytes hold the tree: every node is read at its offset, its children in some order and
after it. -/
inductive Holds (trie : Bytes) : ExportTree → Prop where
  | node {t : ExportTree} {edges : List (Bytes × ℕ)}
      (read : exportNodeAt trie t.label.offset = some ⟨t.label.terminal, edges⟩)
      (perm : edges.Perm (t.children.items.map edgeOf))
      (after : ∀ p ∈ t.children.items, t.label.offset < p.2.label.offset)
      (below : ∀ p ∈ t.children.items, Holds trie p.2) : Holds trie t

@[simp] lemma pathBytes_nil : pathBytes [] = [] := rfl

@[simp] lemma pathBytes_cons (c : Char) (cs : List Char) :
    pathBytes (c :: cs) = String.utf8EncodeChar c ++ pathBytes cs := rfl

lemma utf8_ofList (cs : List Char) : utf8 (String.ofList cs) = pathBytes cs := by
  rw [utf8_eq_flatMap, String.toList_ofList, pathBytes]

lemma pathBytes_toList (s : String) : pathBytes s.toList = utf8 s := (utf8_eq_flatMap s).symm

lemma pathBytes_injective : Function.Injective pathBytes := by
  intro cs ds h
  rw [← utf8_ofList, ← utf8_ofList, utf8_inj] at h
  exact String.ofList_injective h

lemma utf8EncodeChar_ne_nil (c : Char) : String.utf8EncodeChar c ≠ [] := by
  simp only [String.utf8EncodeChar]
  split_ifs <;> simp

lemma pathBytes_eq_nil {cs : List Char} : pathBytes cs = [] ↔ cs = [] := by
  cases cs <;> simp

lemma offset_lt_length {trie : Bytes} {off : ℕ} {n : ExportNode}
    (h : exportNodeAt trie off = some n) : off < trie.length := by
  by_contra hlen
  have hdrop : trie.drop off = [] := List.drop_eq_nil_of_le (by omega)
  rw [exportNodeAt, hdrop] at h
  cases h

/-- The first edge that a name starts with is the edge of the name's first character. -/
lemma find?_edge {t : ExportTree} {edges : List (Bytes × ℕ)} (hd : t.children.Distinct)
    (hperm : edges.Perm (t.children.items.map edgeOf)) (name : Bytes) :
    ((edges.find? fun e => e.1.isPrefixOf name) = none ∧
      ∀ c cs, pathBytes (c :: cs) = name → t.children.items.find? (fun p => p.1 = c) = none) ∨
    ∃ p ∈ t.children.items, ∃ rest, name = String.utf8EncodeChar p.1 ++ rest ∧
      (edges.find? fun e => e.1.isPrefixOf name) = some (edgeOf p) ∧
      t.children.items.find? (fun q => q.1 = p.1) = some p := by
  obtain ⟨hkeys, -⟩ := (Forest.distinct_iff _).mp hd
  cases hfind : edges.find? fun e => e.1.isPrefixOf name with
  | none =>
    refine .inl ⟨rfl, ?_⟩
    rintro c cs rfl
    rw [List.find?_eq_none]
    rintro p hp hc
    obtain rfl : p.1 = c := by simpa using hc
    have hedge := List.find?_eq_none.mp hfind (edgeOf p)
      (hperm.mem_iff.mpr (List.mem_map_of_mem hp))
    simp [edgeOf] at hedge
  | some e =>
    obtain ⟨p, hp, rfl⟩ := List.mem_map.mp (hperm.mem_iff.mp (List.mem_of_find?_eq_some hfind))
    have hstart := List.find?_some hfind
    obtain ⟨rest, hrest⟩ := List.isPrefixOf_iff_prefix.mp hstart
    exact .inr ⟨p, hp, rest, hrest.symm, rfl, (find?_key_eq_some hkeys).mpr ⟨hp, rfl⟩⟩

/-- **Walking.**  A name leads to a terminal exactly when its characters lead to a node with
one in the tree. -/
theorem Holds.walkTrie {trie : Bytes} {t : ExportTree} (h : Holds trie t)
    (hd : t.children.Distinct) {fuel : ℕ} {name : Bytes} (hfuel : name.length < fuel) :
    ∃ r, walkTrie trie fuel t.label.offset name = some r ∧
      ∀ terminal, r = some terminal ↔ terminal ≠ [] ∧
        ∃ cs, pathBytes cs = name ∧ (t.get? cs).map NodeLabel.terminal = some terminal := by
  induction h generalizing fuel name with
  | @node t edges read perm after below ih =>
    obtain ⟨fuel, rfl⟩ : ∃ n, fuel = n + 1 := ⟨fuel - 1, by omega⟩
    rw [MachO.walkTrie, read]
    simp only [Option.pure_def, Option.bind_eq_bind, Option.bind_some]
    -- the walk ends here, or takes the edge whose first bytes are those of the name
    by_cases hend : name = [] ∧ t.label.terminal ≠ []
    · obtain ⟨rfl, hterm⟩ := hend
      rw [if_pos ⟨rfl, hterm⟩]
      refine ⟨_, rfl, fun terminal => ?_⟩
      simp only [Option.some.injEq, pathBytes_eq_nil, exists_eq_left, Tree.get?_nil,
        Option.map_some]
      constructor
      · rintro rfl
        exact ⟨hterm, rfl⟩
      · exact fun h => h.2
    · rw [if_neg hend]
      rcases find?_edge hd perm name with ⟨hnone, hmiss⟩ | ⟨p, hp, rest, rfl, hsome, hfind⟩
      -- no edge fits: no other node has a name that starts like this one
      · rw [hnone]
        refine ⟨none, rfl, fun terminal => ?_⟩
        simp only [reduceCtorEq, false_iff, not_and, not_exists]
        rintro hterm cs rfl hget
        cases cs with
        | nil =>
          rw [Tree.get?_nil, Option.map_some, Option.some.injEq] at hget
          exact hend ⟨rfl, hget ▸ hterm⟩
        | cons c cs =>
          rw [Tree.get?_cons, hmiss c cs rfl] at hget
          cases hget
      · have hoff : p.2.label.offset ≠ 0 := by
          have := after p hp
          omega
        -- an edge takes at least one byte of the name, so the fuel suffices below it
        have hlen : 0 < (String.utf8EncodeChar p.1).length :=
          List.length_pos_iff.mpr (utf8EncodeChar_ne_nil p.1)
        rw [List.length_append] at hfuel
        have hlen' : rest.length < fuel := by omega
        obtain ⟨r, hr, hiff⟩ := ih p hp (((Forest.distinct_iff _).mp hd).2 p hp) hlen'
        rw [hsome]
        simp only [edgeOf, if_neg hoff, List.drop_left]
        refine ⟨r, hr, fun terminal => ?_⟩
        rw [hiff]
        refine and_congr_right fun hterm => ?_
        constructor
        · rintro ⟨cs, rfl, hget⟩
          refine ⟨p.1 :: cs, rfl, ?_⟩
          rwa [Tree.get?_cons, hfind]
        · rintro ⟨cs, hcs, hget⟩
          cases cs with
          | nil => exact absurd (List.append_eq_nil_iff.mp hcs.symm).1 (utf8EncodeChar_ne_nil p.1)
          | cons c cs =>
            obtain rfl := utf8EncodeChar_append_inj hcs
            refine ⟨cs, List.append_cancel_left hcs, ?_⟩
            rwa [Tree.get?_cons, hfind] at hget

/-- The export a node of the tree stands for, when it has a terminal. -/
def exportOf (name : Bytes) (e : List Char × NodeLabel) : Option (Bytes × ExportInfo) :=
  if e.2.terminal = [] then none
  else (exportInfo e.2.terminal).map fun info => (name ++ pathBytes e.1, info)

lemma exportOf_eq_some {name : Bytes} {e : List Char × NodeLabel} {x : Bytes × ExportInfo} :
    exportOf name e = some x ↔ e.2.terminal ≠ [] ∧
      x.1 = name ++ pathBytes e.1 ∧ exportInfo e.2.terminal = some x.2 := by
  rw [exportOf]
  split
  · simp [*]
  · simp only [Option.map_eq_some_iff, ne_eq, *, not_false_eq_true, true_and]
    constructor
    · rintro ⟨info, hinfo, rfl⟩
      exact ⟨rfl, hinfo⟩
    · rintro ⟨hname, hinfo⟩
      exact ⟨x.2, hinfo, by rw [← hname]⟩

lemma exportOf_cons (name : Bytes) (c : Char) (e : List Char × NodeLabel) :
    exportOf name (c :: e.1, e.2) = exportOf (name ++ String.utf8EncodeChar c) e := by
  simp [exportOf]

/-- **Enumeration.**  The exports found from the root are those of the nodes of the tree. -/
theorem Holds.exportsFrom {trie : Bytes} {t : ExportTree} (h : Holds trie t)
    (hinfo : ∀ e ∈ t.entries, e.2.terminal ≠ [] → (exportInfo e.2.terminal).isSome) {fuel : ℕ}
    (hfuel : trie.length < fuel + t.label.offset) (name : Bytes) :
    ∃ out, exportsFrom trie fuel t.label.offset name = some out ∧
      out.Perm (t.entries.filterMap (exportOf name)) := by
  induction h generalizing fuel name with
  | @node t edges read perm after below ih =>
    have hoff := offset_lt_length read
    obtain ⟨fuel, rfl⟩ : ∃ n, fuel = n + 1 := ⟨fuel - 1, by omega⟩
    rw [Tree.entries, Forest.entries_eq_flatMap] at hinfo ⊢
    rw [List.forall_mem_cons] at hinfo
    obtain ⟨hown, hrest⟩ := hinfo
    -- the exports below an edge, which the induction hypothesis describes
    let found (e : Bytes × ℕ) := (MachO.exportsFrom trie fuel e.2 (name ++ e.1)).getD []
    have hchild : ∀ p ∈ t.children.items, MachO.exportsFrom trie fuel (edgeOf p).2
        (name ++ (edgeOf p).1) = some (found (edgeOf p)) ∧ (found (edgeOf p)).Perm
        (p.2.entries.filterMap (exportOf (name ++ String.utf8EncodeChar p.1))) := by
      intro p hp
      have hlt := after p hp
      have hfuel' : trie.length < fuel + p.2.label.offset := by omega
      obtain ⟨out, hout, hperm⟩ := ih p hp
        (fun e he => hrest (p.1 :: e.1, e.2)
          (List.mem_flatMap.mpr ⟨p, hp, List.mem_map_of_mem he⟩))
        hfuel' (name ++ String.utf8EncodeChar p.1)
      have hfound : found (edgeOf p) = out := by
        simp only [found, edgeOf, hout, Option.getD_some]
      rw [hfound]
      exact ⟨hout, hperm⟩
    have hmapM : edges.mapM (fun e => MachO.exportsFrom trie fuel e.2 (name ++ e.1)) =
        some (edges.map found) := by
      refine mapM_eq_some_map fun e he => ?_
      obtain ⟨p, hp, rfl⟩ := List.mem_map.mp (perm.mem_iff.mp he)
      exact (hchild p hp).1
    have hflat : (edges.map found).flatten.Perm ((t.children.items.flatMap fun p =>
        p.2.entries.map fun q => (p.1 :: q.1, q.2)).filterMap (exportOf name)) := by
      rw [← List.flatMap_def, List.filterMap_flatMap]
      refine (perm.flatMap_right found).trans ?_
      rw [List.flatMap_map]
      refine List.Perm.flatMap_left _ fun p hp => ?_
      rw [List.filterMap_map]
      simpa only [Function.comp_def, exportOf_cons] using (hchild p hp).2
    rw [MachO.exportsFrom, read]
    simp only [Option.pure_def, Option.bind_eq_bind, Option.bind_some, hmapM]
    by_cases hterm : t.label.terminal = []
    · rw [if_pos hterm]
      refine ⟨_, rfl, ?_⟩
      rw [List.filterMap_cons_none (by simp [exportOf, hterm])]
      exact hflat
    · obtain ⟨info, hsome⟩ := Option.isSome_iff_exists.mp (hown hterm)
      rw [if_neg hterm, hsome]
      refine ⟨_, rfl, ?_⟩
      rw [List.filterMap_cons_some (b := (name, info)) (by simp [exportOf, hterm, hsome])]
      exact hflat.cons _

end Apk2Ios.MachO
