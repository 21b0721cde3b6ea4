/-
Balanced search trees.

A tree holds entries, each with a key, in order: what is in the left part of a node comes before
it, what is in the right part after it.  Nodes are red or black; no red node has a red child, and
every way down from the root meets as many black nodes.  A key is looked for by comparing it with
the keys on the way down, and nowhere else.

* `Balanced.entries` — the entries in order;
* `Balanced.insert` — adds an entry as a new leaf: on the way down it turns right at an entry that
  it compares as greater than, otherwise left;
* `Balanced.delete` — takes out the entry at the end of the way that a key takes.

Design notes: with keys that are in a linear order only the entries matter, and they stay sorted.
The shape of the tree matters as soon as some keys do not compare consistently, since it decides
which of them meet.  So the shape is part of what is defined here: an inserted leaf is red, a red
pair is removed from below; an entry between two parts is replaced by the one before it; a part
that lost a black node is refilled from its sibling.
-/
namespace StorageKit

/-- The color of a node. -/
inductive Hue where
  | red
  | black
  deriving DecidableEq, Repr

/-- A tree of entries `E`. -/
inductive Balanced (E : Type) where
  | leaf
  | node (hue : Hue) (left : Balanced E) (entry : E) (right : Balanced E)
  deriving Repr

namespace Balanced

variable {E : Type}

/-- The entries in order. -/
def entries : Balanced E → List E
  | leaf => []
  | node _ l e r => entries l ++ e :: entries r

/-- The root is red. -/
def isRed : Balanced E → Bool
  | node .red .. => true
  | _ => false

/-- The same tree with a black root. -/
def blacken : Balanced E → Balanced E
  | leaf => leaf
  | node _ l e r => node .black l e r

/-- A node whose left part may have a red root with a red child. -/
def mendLeft (hue : Hue) (l : Balanced E) (e : E) (r : Balanced E) : Balanced E :=
  match hue, l with
  | .black, node .red (node .red a x b) y c =>
    if r.isRed then node .red (node .black (node .red a x b) y c) e r.blacken
    else node .black (node .red a x b) y (node .red c e r)
  | .black, node .red a x (node .red b y c) =>
    if r.isRed then node .red (node .black a x (node .red b y c)) e r.blacken
    else node .black (node .red a x b) y (node .red c e r)
  | hue, l => node hue l e r

/-- A node whose right part may have a red root with a red child. -/
def mendRight (hue : Hue) (l : Balanced E) (e : E) (r : Balanced E) : Balanced E :=
  match hue, r with
  | .black, node .red a x (node .red b y c) =>
    if l.isRed then node .red l.blacken e (node .black a x (node .red b y c))
    else node .black (node .red l e a) x (node .red b y c)
  | .black, node .red (node .red a x b) y c =>
    if l.isRed then node .red l.blacken e (node .black (node .red a x b) y c)
    else node .black (node .red l e a) x (node .red b y c)
  | hue, r => node hue l e r

/-- Adds an entry; the root may become red with a red child. -/
def grow (compare : E → E → Ordering) (new : E) : Balanced E → Balanced E
  | leaf => node .red leaf new leaf
  | node hue l e r =>
    match compare new e with
    | .gt => mendRight hue l e (grow compare new r)
    | _ => mendLeft hue (grow compare new l) e r

/-- Adds an entry. -/
def insert (compare : E → E → Ordering) (new : E) (t : Balanced E) : Balanced E :=
  (grow compare new t).blacken

/-- A tree after an entry was taken out, and whether it has a black node less on every way down. -/
structure Shrunk (E : Type) where
  tree : Balanced E
  isShort : Bool

/-- A node whose left part is short, with its right part taken apart. -/
def refillLeft (hue : Hue) (l : Balanced E) (e : E) : Balanced E → Shrunk E
  | leaf => ⟨node hue l e leaf, false⟩
  | node .black sl s (node .red a x b) =>
    ⟨node hue (node .black l e sl) s (node .black a x b), false⟩
  | node .black (node .red a x b) s sr =>
    ⟨node hue (node .black l e a) x (node .black b s sr), false⟩
  | node .black sl s sr => ⟨node .black l e (node .red sl s sr), hue = .black⟩
  | node .red sl s sr =>
    let lower := refillLeft .red l e sl
    ⟨node hue lower.tree s sr, lower.isShort⟩

/-- A node whose right part is short, with its left part taken apart. -/
def refillRight (hue : Hue) (e : E) (r : Balanced E) : Balanced E → Shrunk E
  | leaf => ⟨node hue leaf e r, false⟩
  | node .black (node .red a x b) s sr =>
    ⟨node hue (node .black a x b) s (node .black sr e r), false⟩
  | node .black sl s (node .red a x b) =>
    ⟨node hue (node .black sl s a) x (node .black b e r), false⟩
  | node .black sl s sr => ⟨node .black (node .red sl s sr) e r, hue = .black⟩
  | node .red sl s sr =>
    let lower := refillRight .red e r sr
    ⟨node hue sl s lower.tree, lower.isShort⟩

/-- A node around a left part that may be short. -/
def afterLeft (hue : Hue) (l : Shrunk E) (e : E) (r : Balanced E) : Shrunk E :=
  if l.isShort then refillLeft hue l.tree e r else ⟨node hue l.tree e r, false⟩

/-- A node around a right part that may be short. -/
def afterRight (hue : Hue) (l : Balanced E) (e : E) (r : Shrunk E) : Shrunk E :=
  if r.isShort then refillRight hue e r.tree l else ⟨node hue l e r.tree, false⟩

/-- A node without its entry, where one of its parts is empty. -/
def close (hue : Hue) (part : Balanced E) : Shrunk E :=
  match part with
  | leaf => ⟨leaf, hue = .black⟩
  | part => ⟨part.blacken, false⟩

/-- The last entry of a node, and the tree without it. -/
def takeLast (hue : Hue) (l : Balanced E) (e : E) : Balanced E → E × Shrunk E
  | leaf => (e, close hue l)
  | node below rl x rr =>
    let (last, rest) := takeLast below rl x rr
    (last, afterRight hue l e rest)

/-- A node without its entry. -/
def removeRoot (hue : Hue) (l r : Balanced E) : Shrunk E :=
  match l, r with
  | node below ll x lr, node .. =>
    let (last, rest) := takeLast below ll x lr
    afterLeft hue rest last r
  | leaf, r => close hue r
  | l, leaf => close hue l

/-- Takes out the first entry on the way down that compares as equal. -/
def shrink (compare : E → E → Ordering) (old : E) : Balanced E → Shrunk E
  | leaf => ⟨leaf, false⟩
  | node hue l e r =>
    match compare old e with
    | .eq => removeRoot hue l r
    | .lt => afterLeft hue (shrink compare old l) e r
    | .gt => afterRight hue l e (shrink compare old r)

/-- The tree without the entry that is found for `old`; unchanged if none is found. -/
def delete (compare : E → E → Ordering) (old : E) (t : Balanced E) : Balanced E :=
  (shrink compare old t).tree

end Balanced
end StorageKit
