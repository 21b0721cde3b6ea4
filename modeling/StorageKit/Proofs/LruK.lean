/-
The textbook LRU-K policy.

The policy keeps, for every tracked frame, the complete list of its access times since it was last
forgotten, and whether the frame may be evicted.  There are no pools, nothing is dropped from a
list, and no count is kept beside the records.

* `LruK` — the state of the policy;
* `LruK.victim?` — among the frames that may be evicted, the one with the earliest first access of
  those with fewer than `k` accesses, and if there are none, the one whose `k`-th most recent
  access is oldest;
* `LruK.step`, `LruK.runAll` — operations, one or one after another.
-/
import StorageKit.Replacer.Operation
import Mathlib.Data.List.MinMax
import Mathlib.Logic.Function.Basic

namespace StorageKit

/-- A tracked frame: the times of all its accesses, the earliest first, and whether it may be
evicted. -/
structure Track where
  times : List Nat
  evictable : Bool
  deriving DecidableEq, Repr

/-- The state of the policy. -/
structure LruK where
  numFrames : Nat
  k : Nat
  clock : Nat
  track : Nat → Option Track

namespace LruK

open Replacer (Operation Answer)

def new (numFrames k : Nat) : LruK := ⟨numFrames, k, 0, fun _ => none⟩

/-- All times of a frame, none if it is not tracked. -/
def times (m : LruK) (n : Nat) : List Nat := ((m.track n).map Track.times).getD []

/-- The tracked frames that may be evicted. -/
def evictables (m : LruK) : List Nat :=
  (List.range (m.numFrames + 1)).filter fun n => (m.track n).any (·.evictable)

def size (m : LruK) : Nat := m.evictables.length

/-- The time of the first access to a frame. -/
def firstAccess (m : LruK) (n : Nat) : Nat := (m.times n).headD 0

/-- The time of the `k`-th most recent access to a frame. -/
def kthAccess (m : LruK) (n : Nat) : Nat := (m.times n).reverse.getD (m.k - 1) 0

/-- The frame to be evicted next. -/
def victim? (m : LruK) : Option Nat :=
  match (m.evictables.filter fun n => (m.times n).length < m.k).argmin m.firstAccess with
  | some n => some n
  | none => m.evictables.argmin m.kthAccess

/-- Replaces what is known about a frame. -/
def set (n : Nat) (x : Option Track) (m : LruK) : LruK :=
  { m with track := Function.update m.track n x }

/-- Forgets the next victim, if there is one. -/
def evict (m : LruK) : LruK :=
  match m.victim? with
  | some n => m.set n none
  | none => m

/-- Evicts a frame if as many frames may be evicted as are kept. -/
def makeRoom (m : LruK) : LruK := if m.size = m.numFrames then m.evict else m

/-- An access at the next tick of the clock.  A frame that was not tracked joins the frames that
may be evicted. -/
def access (n : Nat) (m : LruK) : LruK :=
  let now := m.clock + 1
  match m.track n with
  | some t => { m.set n (some { t with times := t.times ++ [now] }) with clock := now }
  | none => { m.makeRoom.set n (some ⟨[now], true⟩) with clock := now }

def setEvictable (n : Nat) (evictable : Bool) (m : LruK) : LruK :=
  match m.track n with
  | none => m
  | some t =>
    if t.evictable = evictable then m
    else if evictable then m.makeRoom.set n (some { t with evictable := true })
    else m.set n (some { t with evictable := false })

/-- An operation on the frame a number stands for, if that is one of `0` to `numFrames`. -/
def onFrame (x : Number) (m : LruK) (next : Nat → Except ReplacerFault Answer × LruK) :
    Except ReplacerFault Answer × LruK :=
  match x.toNat? with
  | some n =>
    if n ≤ m.numFrames then next n
    else (.error (.frameOutOfRange x (.ofNat m.numFrames)), m)
  | none => (.error (.frameOutOfRange x (.ofNat m.numFrames)), m)

/-- One operation: its outcome, and the state after it. -/
def step : Operation → LruK → Except ReplacerFault Answer × LruK
  | .access x _, m => m.onFrame x fun n => (.ok .done, m.access n)
  | .evict, m => (.ok (.victim m.victim?), m.evict)
  | .setEvictable x evictable, m => m.onFrame x fun n => (.ok .done, m.setEvictable n evictable)
  | .remove x, m =>
    m.onFrame x fun n =>
      match m.track n with
      | none => (.ok .done, m)
      | some t =>
        if t.evictable then (.ok .done, m.set n none) else (.error (.frameNotEvictable x), m)
  | .size, m => (.ok (.size m.size), m)

/-- Operations one after another, with the outcome of each. -/
def runAll : List Operation → LruK → List (Except ReplacerFault Answer) × LruK
  | [], m => ([], m)
  | op :: rest, m =>
    let (outcome, m) := step op m
    let (outcomes, m) := runAll rest m
    (outcome :: outcomes, m)

end LruK
end StorageKit
