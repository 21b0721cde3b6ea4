/-
Loggers that talk back.

A logger that receives a report may remember it, look at the replacer, call operations of the very
replacer that is running, and fail.

* `Logger` — for each report and each memory, a `Reaction`;
* `Logger.silent` — a logger that remembers nothing and does nothing;
* `Logger.emit` — a report handled by a logger;
* `Replacer.run`, `Replacer.runAll` — operations with a logger, one or one after another.

Design notes: a reaction is a tree of actions, where each call goes on with the outcome of the
call.  A call from inside a report finds the latch held and is refused, so it makes no report of
its own; `Replacer.quietly` says what it would do otherwise.
-/
import StorageKit.Replacer.Operation

namespace StorageKit

/-- What a logger does with a report. -/
inductive Reaction (σ : Type) where
  | done (memory : σ)
  | fail (problem : Problem) (memory : σ)
  | look (next : Replacer → Reaction σ)
  | call (op : Replacer.Operation) (next : Except Problem Replacer.Answer → Reaction σ)

/-- A logger with a memory. -/
abbrev Logger (σ : Type) := Entry → σ → Reaction σ

/-- A logger that does nothing. -/
def Logger.silent {σ : Type} : Logger σ := fun _ memory => .done memory

namespace Replacer

variable {σ : Type}

/-- An operation whose reports nobody receives. -/
def quietly (op : Operation) (r : Replacer) : Except Problem Answer × Replacer :=
  let result := (perform (fun _ => pure ()) op).start ⟨r, ()⟩
  (result.1, result.2.replacer)

end Replacer

namespace Reaction

variable {σ : Type}

/-- Carries out a reaction on a replacer. -/
def run : Reaction σ → Replacer → Except Problem Unit × Replacer.Observed σ
  | .done memory, r => (.ok (), ⟨r, memory⟩)
  | .fail problem memory, r => (.error problem, ⟨r, memory⟩)
  | .look next, r => run (next r) r
  | .call op next, r =>
    let result := Replacer.quietly op r
    run (next result.1) result.2

end Reaction

/-- A report handled by a logger. -/
def Logger.emit {σ : Type} (logger : Logger σ) : Replacer.Emit σ := fun entry =>
  Critical.ofFun fun s => (logger entry s.memory).run s.replacer

namespace Replacer

variable {σ : Type}

/-- One operation with a logger. -/
def run (logger : Logger σ) (op : Operation) (s : Observed σ) :
    Except Problem Answer × Observed σ :=
  (perform logger.emit op).start s

/-- Operations one after another, with the outcome of each. -/
def runAll (logger : Logger σ) : List Operation → Observed σ →
    List (Except Problem Answer) × Observed σ
  | [], s => ([], s)
  | op :: rest, s =>
    let (outcome, s) := run logger op s
    let (outcomes, s) := runAll logger rest s
    (outcome :: outcomes, s)

end Replacer
end StorageKit
