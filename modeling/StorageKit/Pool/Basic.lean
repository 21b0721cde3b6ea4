/-
Pools of candidates for eviction.

A pool holds frames, each with a rank, in an order in which they are offered as victims.

* `Search.first` — looking for a victim: who was asked, in order, and who was found;
* `VictimPool` — the operations that every pool has;
* `VictimPool.Call`, `VictimPool.answer` — one call on a pool and what it answers.
-/
namespace StorageKit

/-- The outcome of looking for a victim. -/
structure Search (F : Type) where
  asked : List F
  found : Option F
  deriving Repr, DecidableEq

/-- Asks the frames one after another until one may be evicted. -/
def Search.first {F : Type} (isEvictable : F → Bool) : List F → Search F
  | [] => ⟨[], none⟩
  | f :: rest =>
    if isEvictable f then ⟨[f], some f⟩
    else
      let later := first isEvictable rest
      ⟨f :: later.asked, later.found⟩

/-- The operations of a pool `P` of frames `F` with ranks `R`. -/
class VictimPool (P : Type) (F R : outParam Type) where
  empty : P
  add : F → R → P → P
  delete : F → P → P
  has : F → P → Bool
  size : P → Nat
  frames : P → List F

namespace VictimPool

variable {P F R : Type} [VictimPool P F R]

/-- The first frame in eviction order that may be evicted, and the frames asked for it. -/
def victim (isEvictable : F → Bool) (p : P) : Search F := Search.first isEvictable (frames p)

/-- A call on a pool. -/
inductive Call (F R : Type) where
  | add (frame : F) (rank : R)
  | delete (frame : F)
  | has (frame : F)
  | victim (isEvictable : F → Bool)
  | size
  | frames

/-- What a call answers. -/
inductive Answer (F : Type) where
  | done
  | flag (b : Bool)
  | search (s : Search F)
  | count (n : Nat)
  | order (frames : List F)
  deriving Repr, DecidableEq

/-- One call: its answer, and the pool after it.  Deleting answers whether the frame was there. -/
def answer : Call F R → P → Answer F × P
  | .add f r, p => (.done, add f r p)
  | .delete f, p => (.flag (has f p), delete f p)
  | .has f, p => (.flag (has f p), p)
  | .victim isEvictable, p => (.search (victim isEvictable p), p)
  | .size, p => (.count (size p), p)
  | .frames, p => (.order (frames p), p)

/-- The answers to calls one after another, and the pool after them. -/
def answers : List (Call F R) → P → List (Answer F) × P
  | [], p => ([], p)
  | c :: rest, p =>
    let (a, p) := answer c p
    let (as, p) := answers rest p
    (a :: as, p)

end VictimPool
end StorageKit
