/-
The pool in order of rank.

The frame with the lowest rank is the first victim; between equal ranks, the one that was added
first.  The pool is the list of its frames with their ranks, the lowest rank first; a frame is
added in front of the first frame with a higher rank, which keeps the order among equals.
-/
import StorageKit.Pool.Basic

namespace StorageKit

/-- Frames with their ranks, the lowest rank first. -/
structure RankedPool (F R : Type) where
  entries : List (F × R)
  deriving Repr, DecidableEq

namespace RankedPool

variable {F R : Type} [BEq F] [LT R] [DecidableLT R]

def empty : RankedPool F R := ⟨[]⟩

/-- Puts an entry in front of the first entry with a higher rank. -/
def insert (f : F) (r : R) : List (F × R) → List (F × R)
  | [] => [(f, r)]
  | e :: rest => if r < e.2 then (f, r) :: e :: rest else e :: insert f r rest

/-- Puts a frame at the place of its rank; a frame that is present is moved there. -/
def add (f : F) (r : R) (p : RankedPool F R) : RankedPool F R :=
  ⟨insert f r (p.entries.filter fun e => e.1 != f)⟩

def delete (f : F) (p : RankedPool F R) : RankedPool F R :=
  ⟨p.entries.filter fun e => e.1 != f⟩

def has (f : F) (p : RankedPool F R) : Bool := p.entries.any fun e => e.1 == f

def size (p : RankedPool F R) : Nat := p.entries.length

/-- The frames in eviction order. -/
def frames (p : RankedPool F R) : List F := p.entries.map Prod.fst

instance : VictimPool (RankedPool F R) F R where
  empty := empty
  add := add
  delete := delete
  has := has
  size := size
  frames := frames

end RankedPool
end StorageKit
