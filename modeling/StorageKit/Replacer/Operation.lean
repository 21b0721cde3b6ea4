/-
The operations of a replacer.

Every operation is one critical section.  While it runs it reports what happens; a report may end
the operation early, which then has done exactly the steps before it.

* `Replacer.Operation`, `Replacer.Answer` — what can be asked and what is answered;
* `Replacer.Emit` — how a report is handled, which may change the memory of a logger;
* `Replacer.perform` — an operation.

The order of checks, steps and reports in each operation is part of its meaning.  The range is
checked before the clock ticks; an access is reported when it is in the record and before the
frame is enrolled; an eviction is reported when the victim is forgotten; and a frame that joins
the evictable ones when they are as many as are kept evicts one of them first.
-/
import StorageKit.Replacer.State

namespace StorageKit
namespace Replacer

/-- What can be asked of a replacer. -/
inductive Operation where
  | access (frame : Number) (kind : AccessKind)
  | evict
  | setEvictable (frame : Number) (evictable : Bool)
  | remove (frame : Number)
  | size
  deriving DecidableEq, Repr

/-- What a replacer answers. -/
inductive Answer where
  | done
  | victim (frame : Option Nat)
  | size (n : Nat)
  deriving DecidableEq, Repr

/-- A replacer together with the memory of a logger. -/
structure Observed (σ : Type) where
  replacer : Replacer
  memory : σ

instance {σ : Type} : Latched (Observed σ) :=
  ⟨fun s => s.replacer.latch, fun l s => { s with replacer := { s.replacer with latch := l } }⟩

/-- How a report is handled. -/
abbrev Emit (σ : Type) := Entry → Critical (Observed σ) Unit

variable {σ : Type}

/-- The replacer as it is now. -/
def current : Critical (Observed σ) Replacer := do return (← get).replacer

/-- Takes a step. -/
def update (f : Replacer → Replacer) : Critical (Observed σ) Unit :=
  modify fun s => { s with replacer := f s.replacer }

/-- The frame a number stands for, or the failure that it is out of range. -/
def inRange (frame : Number) : Critical (Observed σ) FrameRef := do
  let r ← current
  match r.frame? frame with
  | some f => return f
  | none => throw (.fault (.frameOutOfRange frame (.ofNat r.settings.numFrames)))

/-- Evicts a frame, if one may be evicted. -/
def evictOne (emit : Emit σ) : Critical (Observed σ) (Option FrameRef) := do
  match (← current).nextVictim with
  | none => return none
  | some victim =>
    update (forget victim.index)
    emit (.evicted victim)
    return some victim

/-- Evicts a frame for another one that joins the evictable frames, if they are as many as are
kept. -/
def makeRoom (emit : Emit σ) (frame : FrameRef) : Critical (Observed σ) Unit := do
  if (← current).isFull then
    let victim ← evictOne emit
    emit (.madeRoom frame victim)

/-- Records one access to a frame. -/
def access (emit : Emit σ) (frame : Number) (kind : AccessKind) :
    Critical (Observed σ) Unit := do
  let f ← inRange frame
  update (touch f.index)
  let r ← current
  let timestamp := r.clock
  let record := r.recordOf f.index
  emit (.accessed f kind timestamp)
  if record.accessCount = 1 then
    makeRoom emit f
    update (enroll f.index timestamp)
  if r.settings.k ≤ record.accessCount then
    update (age f (record.history.head?.getD timestamp))

/-- Lets a tracked frame be evicted, or no longer; for other frames it does nothing. -/
def setEvictable (emit : Emit σ) (frame : Number) (evictable : Bool) :
    Critical (Observed σ) Unit := do
  let f ← inRange frame
  match (← current).record? f.index with
  | none => return ()
  | some record =>
    if record.evictable = evictable then return ()
    else if evictable then
      makeRoom emit f
      update (unpin f.index)
    else
      update (pin f.index)

/-- Forgets a tracked frame that may be evicted; for frames that are not tracked it does
nothing. -/
def remove (emit : Emit σ) (frame : Number) : Critical (Observed σ) Unit := do
  let f ← inRange frame
  match (← current).record? f.index with
  | none => return ()
  | some record =>
    if record.evictable then
      update (forget f.index)
      emit (.removed f)
    else throw (.fault (.frameNotEvictable frame))

/-- What an operation does inside its critical section. -/
def body (emit : Emit σ) : Operation → Critical (Observed σ) Answer
  | .access frame kind => do
    access emit frame kind
    return .done
  | .evict => do
    let victim ← evictOne emit
    return .victim (victim.map FrameRef.index)
  | .setEvictable frame evictable => do
    setEvictable emit frame evictable
    return .done
  | .remove frame => do
    remove emit frame
    return .done
  | .size => do return .size (← current).evictableCount

/-- An operation. -/
def perform (emit : Emit σ) (op : Operation) : Critical (Observed σ) Answer :=
  Latch.run (body emit op)

end Replacer
end StorageKit
