/-
The pool in order of arrival.

The frame that entered first is the first victim; adding a frame again moves it to the end.  The
rank is kept but has no influence.  The pool is the list of its frames with their ranks, the
earliest arrival first.
-/
import StorageKit.Pool.Basic

namespace StorageKit

/-- Frames with their ranks, the earliest arrival first. -/
structure ArrivalPool (F R : Type) where
  entries : List (F × R)
  deriving Repr, DecidableEq

namespace ArrivalPool

variable {F R : Type} [BEq F]

def empty : ArrivalPool F R := ⟨[]⟩

/-- Puts a frame at the end. -/
def add (f : F) (r : R) (p : ArrivalPool F R) : ArrivalPool F R :=
  ⟨p.entries.filter (fun e => e.1 != f) ++ [(f, r)]⟩

def delete (f : F) (p : ArrivalPool F R) : ArrivalPool F R :=
  ⟨p.entries.filter fun e => e.1 != f⟩

def has (f : F) (p : ArrivalPool F R) : Bool := p.entries.any fun e => e.1 == f

def size (p : ArrivalPool F R) : Nat := p.entries.length

/-- The frames in eviction order. -/
def frames (p : ArrivalPool F R) : List F := p.entries.map Prod.fst

instance : VictimPool (ArrivalPool F R) F R where
  empty := empty
  add := add
  delete := delete
  has := has
  size := size
  frames := frames

end ArrivalPool
end StorageKit
