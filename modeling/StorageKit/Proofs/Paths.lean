/-
Nodes at paths.

A key leads along its path, one label for each character, to a node of a trie or to none:

* `Node.nodeAt`, `Trie.nodeAt` — the node at a path, below a root or none;
* `Node.nodeAt_append` — a path is walked piece by piece;
* `Node.path_prefix_path` — prefixes of keys are prefixes of paths.
-/
import StorageKit.Proofs.Contents

namespace StorageKit

namespace Node

/-- The node at a path below a root; no root has no nodes. -/
def nodeAt (root : Option Node) (path : List String) : Option Node :=
  root.bind fun n => n.find? path

/-- The child under a label. -/
def child? (label : String) (root : Option Node) : Option Node :=
  root.bind fun n => Keyed.get? label n.children

@[simp] theorem nodeAt_none (path : List String) : nodeAt none path = none := rfl

@[simp] theorem nodeAt_nil (root : Option Node) : nodeAt root [] = root := by
  cases root with
  | none => rfl
  | some n => rw [nodeAt, Option.bind_some, find?]

theorem nodeAt_cons (root : Option Node) (label : String) (rest : List String) :
    nodeAt root (label :: rest) = nodeAt (child? label root) rest := by
  cases root with
  | none => rfl
  | some n =>
    rw [nodeAt, Option.bind_some, find?, child?, Option.bind_some, nodeAt]
    cases Keyed.get? label n.children <;> rfl

theorem nodeAt_append (root : Option Node) (path rest : List String) :
    nodeAt root (path ++ rest) = nodeAt (nodeAt root path) rest := by
  induction path generalizing root with
  | nil => rw [List.nil_append, nodeAt_nil]
  | cons label path ih => rw [List.cons_append, nodeAt_cons, nodeAt_cons, ih]

/-- Without a node there is nothing further down. -/
theorem nodeAt_isSome_of_prefix {root : Option Node} {path other : List String}
    (h : other <+: path) (hpath : (nodeAt root path).isSome = true) :
    (nodeAt root other).isSome = true := by
  obtain ⟨rest, rfl⟩ := h
  rw [nodeAt_append] at hpath
  cases hother : nodeAt root other with
  | none => rw [hother, nodeAt_none] at hpath; exact hpath
  | some n => rfl

/-- The children a write starts from. -/
theorem get?_children (label : String) (root : Option Node) :
    Keyed.get? label ((root.map children).getD []) = child? label root := by
  cases root <;> rfl

/-- One key is a prefix of another exactly if its path is. -/
theorem path_prefix_path {a b : String} : path a <+: path b ↔ a.toList <+: b.toList := by
  constructor
  · intro h
    obtain ⟨l, hl, heq⟩ := List.prefix_map_iff.mp h
    have ha : a = String.ofList l := by
      apply path_injective
      rw [path, path, String.toList_ofList]
      exact heq
    rw [ha, String.toList_ofList]
    exact hl
  · exact fun h => h.map String.singleton

end Node

namespace Trie

/-- The node at a path of labels. -/
def nodeAt (t : Trie) (path : List String) : Option Node := Node.nodeAt t.root path

theorem find?_eq_nodeAt (t : Trie) (key : String) : t.find? key = t.nodeAt (Node.path key) := rfl

theorem nodeAt_isSome_of_bound {t : Trie} {key : String} (h : t.isBound key = true) :
    (t.nodeAt (Node.path key)).isSome = true := by
  rw [← find?_eq_nodeAt]
  rw [isBound] at h
  cases hn : t.find? key with
  | none =>
    rw [hn] at h
    cases h
  | some n => rfl

end Trie
end StorageKit
