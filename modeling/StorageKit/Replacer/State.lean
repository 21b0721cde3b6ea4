/-
The state of a replacer, and its steps.

A replacer decides which frame of a buffer to reclaim.  It tracks every frame that was accessed
and not forgotten since.  Frames with fewer than `k` accesses are in the recent pool, in order of
arrival; frames with `k` or more are in the aged pool, ordered by the time of their `k`-th most
recent access.  Victims come from the recent pool first.

* `Replacer.Settings` — how many evictable frames are kept, and `k`; both positive;
* `FrameRecord` — the last `k` access times of a frame, the count of all of them, and whether the
  frame may be evicted;
* `Replacer` — the state;
* `Replacer.frame?` — the frames that are in range;
* `Replacer.touch`, `Replacer.enroll`, `Replacer.age`, `Replacer.forget`, `Replacer.pin`,
  `Replacer.unpin` — the steps that operations are made of;
* `Replacer.nextVictim` — the frame that would be evicted now.

Design notes: `evictableCount` is kept beside the records, so that asking for the size costs
nothing.  A record remembers the sign with which its frame was last put into the aged pool, since
that spelling is the one that is reported when the frame is evicted from there.
-/
import StorageKit.Latch.Basic
import StorageKit.Pool.Arrival
import StorageKit.Pool.Ranked
import StorageKit.Replacer.Entry

namespace StorageKit

/-- How many evictable frames a replacer keeps, and how many accesses of a frame it remembers.
Frames from `0` up to and including `numFrames` are in range. -/
structure Replacer.Settings where
  numFrames : Nat
  k : Nat
  numFrames_pos : 0 < numFrames
  k_pos : 0 < k

/-- The settings that two numbers stand for, if both are positive integers. -/
def Replacer.Settings.ofNumbers (numFrames k : Number) : Except ReplacerFault Replacer.Settings :=
  match numFrames.toNat?, k.toNat? with
  | some n, some m =>
    if h : 0 < n ∧ 0 < m then .ok ⟨n, m, h.1, h.2⟩ else .error (.invalidConfig numFrames k)
  | _, _ => .error (.invalidConfig numFrames k)

/-- What is known about a tracked frame: its last access times, the oldest first, the count of
all its accesses, whether it may be evicted, and the sign it was last aged with. -/
structure FrameRecord where
  history : List Nat
  accessCount : Nat
  evictable : Bool
  signed : Bool
  deriving DecidableEq, Repr

/-- A frame that was not accessed yet. -/
def FrameRecord.fresh : FrameRecord := ⟨[], 0, false, false⟩

/-- One more access; of the history only the last `k` times are kept. -/
def FrameRecord.touch (k timestamp : Nat) (r : FrameRecord) : FrameRecord :=
  let history := r.history ++ [timestamp]
  { r with
    history := if k < history.length then history.tail else history
    accessCount := r.accessCount + 1 }

/-- The state of a replacer. -/
structure Replacer where
  settings : Replacer.Settings
  latch : Latch
  clock : Nat
  records : Keyed Nat FrameRecord
  recent : ArrivalPool Nat Nat
  aged : RankedPool Nat Nat
  evictableCount : Nat

namespace Replacer

/-- A replacer that tracks no frame. -/
def new (settings : Settings) : Replacer :=
  { settings
    latch := .free
    clock := 0
    records := []
    recent := .empty
    aged := .empty
    evictableCount := 0 }

/-- The frame a number stands for, if it is an integer from `0` to `numFrames`. -/
def frame? (r : Replacer) (x : Number) : Option FrameRef :=
  match x.toNat? with
  | some n =>
    if n ≤ r.settings.numFrames then some (if x = .minusZero then .minusZero else .frame n)
    else none
  | none => none

/-- The record of a tracked frame. -/
def record? (r : Replacer) (n : Nat) : Option FrameRecord := Keyed.get? n r.records

/-- The record of a frame, that of a frame without accesses if it is not tracked. -/
def recordOf (r : Replacer) (n : Nat) : FrameRecord := (r.record? n).getD .fresh

/-- A tracked frame that may be evicted. -/
def isEvictable (r : Replacer) (n : Nat) : Bool := (r.record? n).any (·.evictable)

/-- The clock ticks, and the access goes into the frame's record. -/
def touch (n : Nat) (r : Replacer) : Replacer :=
  let clock := r.clock + 1
  { r with
    clock
    records := Keyed.set n ((r.recordOf n).touch r.settings.k clock) r.records }

/-- A frame that was accessed for the first time becomes evictable and enters the recent pool. -/
def enroll (n timestamp : Nat) (r : Replacer) : Replacer :=
  { r with
    records := Keyed.adjust n (fun f => { f with evictable := true }) r.records
    evictableCount := r.evictableCount + 1
    recent := r.recent.add n timestamp }

/-- A frame with `k` accesses or more goes to its rank in the aged pool. -/
def age (frame : FrameRef) (rank : Nat) (r : Replacer) : Replacer :=
  let n := frame.index
  { r with
    records := Keyed.adjust n (fun f => { f with signed := frame = .minusZero }) r.records
    recent := r.recent.delete n
    aged := r.aged.add n rank }

/-- An evictable frame leaves its pool and is no longer tracked. -/
def forget (n : Nat) (r : Replacer) : Replacer :=
  { r with
    recent := r.recent.delete n
    aged := if r.recent.has n then r.aged else r.aged.delete n
    records := Keyed.erase n r.records
    evictableCount := r.evictableCount - 1 }

/-- A tracked frame may no longer be evicted. -/
def pin (n : Nat) (r : Replacer) : Replacer :=
  { r with
    records := Keyed.adjust n (fun f => { f with evictable := false }) r.records
    evictableCount := r.evictableCount - 1 }

/-- A tracked frame may be evicted again. -/
def unpin (n : Nat) (r : Replacer) : Replacer :=
  { r with
    records := Keyed.adjust n (fun f => { f with evictable := true }) r.records
    evictableCount := r.evictableCount + 1 }

/-- The evictable frames are as many as are kept. -/
def isFull (r : Replacer) : Bool := r.settings.numFrames ≤ r.evictableCount

/-- A victim from the aged pool, as it was written when it was put there. -/
def agedSpelling (r : Replacer) (n : Nat) : FrameRef :=
  if n = 0 ∧ (r.recordOf n).signed then .minusZero else .frame n

/-- The frame that would be evicted now: the first evictable one of the recent pool, otherwise of
the aged pool. -/
def nextVictim (r : Replacer) : Option FrameRef :=
  if r.evictableCount = 0 then none
  else
    match (VictimPool.victim r.isEvictable r.recent).found with
    | some n => some (.frame n)
    | none => (VictimPool.victim r.isEvictable r.aged).found.map r.agedSpelling

end Replacer
end StorageKit
