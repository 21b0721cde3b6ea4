/-
Loggers that write entries.

A logger writes entries of a level with a message and fields, and makes child loggers that add
fields of their own to everything they write.

* `EntryLogger` — the two operations;
* `LogCall`, `LogAnswer` — one call on one of several loggers, and what it answers, which may be
  that it failed;
* `EntryLogger.answer`, `EntryLogger.answers` — calls one after another; a new child is numbered
  after all loggers that are there.
-/
import StorageKit.Log.Fault
import StorageKit.Log.Level
import StorageKit.Time.Clock
import StorageKit.Value.Basic

namespace StorageKit

/-- Loggers `L` that write entries `Out`.  Both operations are shown a clock. -/
class EntryLogger (L : Type) (Out : outParam Type) where
  child : Clock → Value → L → Except LogFault L
  write : Clock → Level → String → Value → L → Except LogFault (Option Out)

/-- A call on one of several loggers. -/
inductive LogCall where
  | write (logger : Nat) (level : Level) (message : String) (fields : Value)
  | child (logger : Nat) (context : Value)

/-- What a call answers: what was written, the number of the new logger, or why it failed. -/
inductive LogAnswer (Out : Type) where
  | wrote (out : Option Out)
  | made (logger : Nat)
  | failed (fault : LogFault)

namespace EntryLogger

variable {L Out : Type} [EntryLogger L Out]

/-- One call: its answer, and the loggers after it.  A logger that is not there does nothing. -/
def answer (now : Clock) (loggers : List L) : LogCall → LogAnswer Out × List L
  | .write i level message fields =>
    match loggers[i]? with
    | none => (.wrote none, loggers)
    | some l =>
      match write now level message fields l with
      | .ok out => (.wrote out, loggers)
      | .error fault => (.failed fault, loggers)
  | .child i context =>
    match loggers[i]? with
    | none => (.made loggers.length, loggers)
    | some l =>
      match child now context l with
      | .ok made => (.made loggers.length, loggers ++ [made])
      | .error fault => (.failed fault, loggers)

/-- Calls one after another, with their answers. -/
def answers (now : Clock) : List LogCall → List L → List (LogAnswer Out)
  | [], _ => []
  | call :: rest, loggers =>
    let (a, loggers) := answer now loggers call
    a :: answers now rest loggers

end EntryLogger
end StorageKit
