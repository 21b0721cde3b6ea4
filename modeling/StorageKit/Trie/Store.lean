/-
Stores of tries.

A store has one current trie and keeps the tries before it, up to a limit, so that writes can be
undone.  Readers get the trie their value came from, so later writes never change what they hold.

* `Store.new` — fails unless the limit is an integer that is not negative; nothing and `null` are
  the limit zero;
* `Store.put`, `Store.remove`, `Store.undo` — a removal that changes nothing is no write;
* `Store.get` — a value with the trie it was read from;
* `Store.versions` — the tries before the current one, the oldest first.
-/
import StorageKit.Trie.Basic

namespace StorageKit

/-- A value, and the trie it was read from. -/
structure Guard where
  value : Value
  snapshot : Trie

/-- The current trie, the tries before it with the oldest first, and the next stamp. -/
structure Store where
  maxVersions : Nat
  current : Trie
  versions : List Trie
  next : Nat

namespace Store

/-- The limit that a value stands for, if it is one. -/
def limit? : Value → Option Nat
  | .undefined | .null => some 0
  | .number x => x.toNat?
  | _ => none

/-- A store that starts with a trie. -/
def new (maxVersions : Value) (initial : Trie) (next : Nat) : Except TrieFault Store :=
  match limit? maxVersions with
  | some n => .ok { maxVersions := n, current := initial, versions := [], next }
  | none => .error (.invalidStoreConfig maxVersions)

/-- Makes a trie the current one. -/
def commit (t : Trie) (next : Nat) (s : Store) : Store :=
  let kept := s.versions ++ [s.current]
  { s with
    current := t
    versions :=
      if s.maxVersions = 0 then s.versions
      else if s.maxVersions < kept.length then kept.tail
      else kept
    next }

/-- The value under a key with the trie it came from; a stored nothing is no value. -/
def get (objects : Objects) (key : String) (type : ValueType) (s : Store) : Option Guard :=
  match s.current.get objects key type with
  | some value => if value.isUndefined then none else some ⟨value, s.current⟩
  | none => none

/-- Stores a value under a key. -/
def put (objects : Objects) (key : String) (value : Value) (type : ValueType) (s : Store) :
    Except TrieFault Store :=
  match s.current.put objects key value type s.next with
  | .ok (t, next) => .ok (s.commit t next)
  | .error fault => .error fault

/-- Removes what is stored under a key. -/
def remove (key : String) (s : Store) : Store :=
  let (t, next) := s.current.remove key s.next
  if t.isSame s.current then s else s.commit t next

/-- Makes the last trie before the current one current again, if there is one. -/
def undo (s : Store) : Bool × Store :=
  match s.versions.getLast? with
  | some t => (true, { s with current := t, versions := s.versions.dropLast })
  | none => (false, s)

end Store
end StorageKit
