/-
Persistent tries.

A trie maps keys to values of several types.  `put` and `remove` give a new trie and leave the old
one as it was; both share every node off the written path.

* `Trie` — a root or none, and the stamp of the trie itself;
* `Trie.get` — the value under a key, read through a token;
* `Trie.put` — fails when the token does not accept the value;
* `Trie.remove` — the very same trie when no value is stored under the key;
* `Trie.dump` — the outline of all nodes.

Design notes: stamps come from a counter that is threaded through all writes, so a stamp that was
handed out is never used again.
-/
import StorageKit.Trie.Node
import StorageKit.Fault.Basic

namespace StorageKit

/-- A version of a map from keys to values. -/
structure Trie where
  stamp : Nat
  root : Option Node

namespace Trie

/-- The trie with a stamp and a root. -/
def ofRoot (root : Option Node) (next : Nat) : Trie × Nat := (⟨next, root⟩, next + 1)

/-- A trie without keys. -/
def empty (next : Nat) : Trie × Nat := ofRoot none next

def isEmpty (t : Trie) : Bool := t.root.isNone

/-- The very same trie. -/
def isSame (a b : Trie) : Bool := a.stamp = b.stamp

/-- The node at a key. -/
def find? (t : Trie) (key : String) : Option Node := t.root.bind fun n => n.find? (Node.path key)

/-- The value under a key, if it was written through this token and still fits it. -/
def get (objects : Objects) (t : Trie) (key : String) (type : ValueType) : Option Value :=
  (t.find? key).bind fun n => n.read objects type

/-- A value is stored under the key. -/
def isBound (t : Trie) (key : String) : Bool := (t.find? key).any Node.isValueNode

/-- A trie in which the value is stored under the key, and the next stamp. -/
def put (objects : Objects) (t : Trie) (key : String) (value : Value) (type : ValueType)
    (next : Nat) : Except TrieFault (Trie × Nat) :=
  if type.accepts objects value then
    let (root, next) := Node.put ⟨type, value⟩ (Node.path key) t.root next
    .ok (ofRoot (some root) next)
  else .error (.invalidValue key type.name (type.complaints objects value))

/-- A trie in which no value is stored under the key, and the next stamp. -/
def remove (t : Trie) (key : String) (next : Nat) : Trie × Nat :=
  match t.root with
  | some root =>
    if t.isBound key then
      let (root, next) := Node.remove (Node.path key) root next
      ofRoot root next
    else (t, next)
  | none => (t, next)

/-- All nodes with their depth and label, parents before children. -/
def dump (t : Trie) : List Node.Line :=
  match t.root with
  | some root => root.outline 0 ""
  | none => []

end Trie
end StorageKit
