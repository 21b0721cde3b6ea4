/-
Nodes of tries.

A node may hold a value, and has children under labels.  Nodes are never changed: a write makes
new nodes on its path and leaves all others as they are.  Every node carries the stamp it was
made with, and two nodes are the same node exactly when their stamps agree.

* `Node` — stamp, stored value, children in order of arrival;
* `Node.find?` — the node at a path;
* `Node.put`, `Node.remove` — the two writes, which count the stamps they use;
* `Node.outline` — all nodes with their depth and label, parents before children.

Design notes: a path is a list of labels.  Keys are walked one character at a time
(`Node.path`), so labels are single characters unless a trie was built by hand.
-/
import StorageKit.Trie.ValueType

namespace StorageKit

/-- A value with the token it was written through. -/
structure Stored where
  type : ValueType
  value : Value
  deriving Repr

/-- A node of a trie. -/
inductive Node where
  | mk (stamp : Nat) (stored : Option Stored) (children : List (String × Node))

namespace Node

/-- What makes a node this node and no other. -/
def stamp : Node → Nat
  | .mk s _ _ => s

/-- The value it holds, if it holds one. -/
def stored : Node → Option Stored
  | .mk _ s _ => s

/-- Its children, in order of arrival. -/
def children : Node → Keyed String Node
  | .mk _ _ c => c

/-- It holds a value. -/
def isValueNode (n : Node) : Bool := n.stored.isSome

/-- The same node. -/
def isSame (a b : Node) : Bool := a.stamp = b.stamp

/-- A copy with other children, and the same value if there is one. -/
def withChildren (stamp : Nat) (children : Keyed String Node) (n : Node) : Node :=
  .mk stamp n.stored children

/-- The value it holds, if it was written through this token and still fits it. -/
def read (objects : Objects) (type : ValueType) (n : Node) : Option Value :=
  match n.stored with
  | some s => if type.isSame s.type && type.accepts objects s.value then some s.value else none
  | none => none

/-- The labels of a key, one for each character. -/
def path (key : String) : List String := key.toList.map String.singleton

/-- The node at a path. -/
def find? : Node → List String → Option Node
  | n, [] => some n
  | n, label :: rest =>
    match Keyed.get? label n.children with
    | some child => child.find? rest
    | none => none

/-- A new version of a node, or of no node, in which the value is stored at the path.  The second
component is the next stamp. -/
def put (stored : Stored) : List String → Option Node → Nat → Node × Nat
  | [], n, next => (.mk next (some stored) ((n.map children).getD []), next + 1)
  | label :: rest, n, next =>
    let children := (n.map children).getD []
    let (child, next) := put stored rest (Keyed.get? label children) next
    (.mk next (n.bind Node.stored) (Keyed.set label child children), next + 1)

/-- A new version of a node in which nothing is stored at the path, or no node if nothing is left
of it.  The path has to lead to a node that holds a value. -/
def remove : List String → Node → Nat → Option Node × Nat
  | [], n, next =>
    if n.children.isEmpty then (none, next) else (some (.mk next none n.children), next + 1)
  | label :: rest, n, next =>
    match Keyed.get? label n.children with
    | none => (some n, next)
    | some child =>
      let (replacement, next) := remove rest child next
      let children := match replacement with
        | some r => Keyed.set label r n.children
        | none => Keyed.erase label n.children
      if children.isEmpty && !n.isValueNode then (none, next)
      else (some (.mk next n.stored children), next + 1)

/-- A line of an outline: depth, label, and the value if there is one. -/
structure Line where
  depth : Nat
  label : String
  stored : Option Stored

mutual

/-- A node and everything below it, parents before children. -/
def outline (depth : Nat) (label : String) : Node → List Line
  | .mk _ stored children => ⟨depth, label, stored⟩ :: outlineChildren (depth + 1) children
termination_by structural n => n

/-- The same for children, in order. -/
def outlineChildren (depth : Nat) : List (String × Node) → List Line
  | [] => []
  | (label, n) :: rest => outline depth label n ++ outlineChildren depth rest
termination_by structural children => children

end

/-- A node without a stamp: its value, and what is below it. -/
inductive Sketch where
  | mk (stored : Option Stored) (children : List (String × Sketch))

instance : Inhabited Sketch := ⟨.mk none []⟩

mutual

/-- Makes a node from a sketch.  Of two children with one label the later counts, at the place of
the earlier. -/
def ofSketch : Sketch → Nat → Node × Nat
  | .mk stored children, next =>
    let (children, next) := ofSketches children [] next
    (.mk next stored children, next + 1)
termination_by structural s => s

/-- Makes children from sketches, added to those that are there. -/
def ofSketches : List (String × Sketch) → Keyed String Node → Nat → Keyed String Node × Nat
  | [], made, next => (made, next)
  | (label, s) :: rest, made, next =>
    let (n, next) := ofSketch s next
    ofSketches rest (Keyed.set label n made) next
termination_by structural children => children

end

end Node
end StorageKit
