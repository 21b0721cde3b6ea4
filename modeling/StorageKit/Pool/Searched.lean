/-
The pool in order of rank, kept in a search tree.

The frame with the lowest rank is the first victim; between equal ranks, the one that was added
first.  Every frame that is added gets a ticket with its rank and a running number.  A table says
which ticket a frame has, and the tree holds the frames in the order of their tickets.

* `Ticket.order` — by rank, then by number;
* `SearchedPool.add`, `SearchedPool.delete`, `SearchedPool.frames`.

Design notes: ranks that do not compare, such as `nan`, are treated as equal here, but then the
order is not transitive and the search for a ticket may end in the wrong place.  The frame is then
gone from the table and still in the tree: it is not counted any more, and it may be found as a
victim.  With ranks in a linear order the pool is the list of `RankedPool`.
-/
import StorageKit.Pool.Balanced
import StorageKit.Pool.Basic

namespace StorageKit

/-- A rank, and the number of the frame among all that were added. -/
structure Ticket (R : Type) where
  rank : R
  number : Nat
  deriving DecidableEq, Repr

/-- The order of tickets: by rank where the ranks differ, otherwise by number. -/
def Ticket.order {R : Type} [LT R] [DecidableLT R] (a b : Ticket R) : Ordering :=
  if a.rank < b.rank then .lt
  else if b.rank < a.rank then .gt
  else compare a.number b.number

/-- Frames in the order of their tickets, the ticket of each frame, and the next number. -/
structure SearchedPool (F R : Type) where
  tree : Balanced (Ticket R × F)
  tickets : List (F × Ticket R)
  next : Nat

namespace SearchedPool

variable {F R : Type} [BEq F] [LT R] [DecidableLT R]

def empty : SearchedPool F R := ⟨.leaf, [], 0⟩

/-- The order of the entries of the tree. -/
def order (a b : Ticket R × F) : Ordering := Ticket.order a.1 b.1

/-- The ticket of a frame. -/
def ticket? (f : F) (p : SearchedPool F R) : Option (Ticket R) :=
  (p.tickets.find? fun e => e.1 == f).map Prod.snd

def has (f : F) (p : SearchedPool F R) : Bool := p.tickets.any fun e => e.1 == f

def size (p : SearchedPool F R) : Nat := p.tickets.length

def delete (f : F) (p : SearchedPool F R) : SearchedPool F R :=
  match p.ticket? f with
  | none => p
  | some ticket =>
    { p with
      tree := p.tree.delete order (ticket, f)
      tickets := p.tickets.filter fun e => e.1 != f }

/-- Puts a frame at the place of its rank; a frame that is present is moved there. -/
def add (f : F) (r : R) (p : SearchedPool F R) : SearchedPool F R :=
  let q := p.delete f
  let ticket : Ticket R := ⟨r, q.next⟩
  { tree := q.tree.insert order (ticket, f)
    tickets := q.tickets ++ [(f, ticket)]
    next := q.next + 1 }

/-- The frames in eviction order. -/
def frames (p : SearchedPool F R) : List F := p.tree.entries.map Prod.snd

instance : VictimPool (SearchedPool F R) F R where
  empty := empty
  add := add
  delete := delete
  has := has
  size := size
  frames := frames

end SearchedPool
end StorageKit
