/-
Programs that take a latch.

A program is a list of commands: reading the latch, failing, finishing with a value, running a
list of commands in a critical section, and running one with its failure caught.  Sections and
catching blocks nest to any depth.

* `Latch.Command` — the commands;
* `Latch.Event` — what a program leaves behind as it runs;
* `Latch.execute` — the value of a list of commands: that of the last section or catching block,
  or the one it finished with;
* `Latch.trace` — all events of a program that starts with a free latch, with its end.
-/
import StorageKit.Latch.Basic

namespace StorageKit
namespace Latch

/-- A command of a program. -/
inductive Command where
  | read
  | fail (message : String)
  | finish (value : Value)
  | enter (body : List Command)
  | attempt (body : List Command)

instance : Inhabited Command := ⟨.read⟩

/-- What a program leaves behind. -/
inductive Event where
  | held (held : Bool)
  | ran (value : Value)
  | caught (problem : Problem)
  | ended (value : Value)
  | uncaught (problem : Problem)

/-- The latch, and the events so far. -/
structure World where
  latch : Latch
  events : List Event

instance : Latched World := ⟨World.latch, fun l w => { w with latch := l }⟩

/-- Adds an event. -/
def record (e : Event) : Critical World Unit :=
  modify fun w => { w with events := w.events ++ [e] }

/-- How a list of commands goes on after one of them. -/
inductive Flow where
  | next (last : Value)
  | stop (value : Value)

mutual

/-- One command, given the value so far. -/
def step : Command → Value → Critical World Flow
  | .read, last => do
    record (.held (← get).latch.held)
    return .next last
  | .fail message, _ => throw (.error message)
  | .finish value, _ => return .stop value
  | .enter body, _ => do
    let value ← run (execute body .undefined)
    record (.ran value)
    return .next value
  | .attempt body, last =>
    tryCatch
      (do return .next (← execute body .undefined))
      (fun problem => do
        record (.caught problem)
        return .next last)
termination_by structural c => c

/-- A list of commands, given the value so far. -/
def execute : List Command → Value → Critical World Value
  | [], last => return last
  | c :: rest, last => do
    match ← step c last with
    | .next value => execute rest value
    | .stop value => return value
termination_by structural cs => cs

end

/-- The events of a program that starts with a free latch: its own, its end, and the latch after
it. -/
def trace (program : List Command) : List Event :=
  let (outcome, w) := (execute program .undefined).start ⟨.free, []⟩
  let ending := match outcome with
    | .ok value => Event.ended value
    | .error problem => Event.uncaught problem
  w.events ++ [ending, .held w.latch.held]

end Latch
end StorageKit
