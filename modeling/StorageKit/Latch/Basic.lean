/-
A latch around a state.

Operations run to their end, so a latch that is held for the time of an operation makes each one
a critical section.  An operation that is started while the latch is held can only come from
inside the section, and is refused before it does anything.

* `Problem` — why a section ended early;
* `Critical S α` — a computation on a state that may end early and keeps what it did before;
* `Latch.run` — a critical section: refused while the latch is held, otherwise run once with the
  latch held, which is free again afterwards however the section ends.

Small laws: `start_bind` and its like for `Critical`, `run_of_held`, `run_of_free`.
-/
import StorageKit.Fault.Basic

namespace StorageKit

/-- Why a section ended early: a failure of a replacer, or an error with only a text that came
from outside. -/
inductive Problem where
  | fault (fault : ReplacerFault)
  | error (message : String)
  deriving DecidableEq, Repr

/-- A computation on a state that may end early and keeps what it did before. -/
abbrev Critical (S α : Type) := ExceptT Problem (StateM S) α

/-- Runs a computation from a state. -/
def Critical.start {S α : Type} (c : Critical S α) (s : S) : Except Problem α × S :=
  StateT.run (ExceptT.run c) s

/-- The computation that does what a function on states says. -/
def Critical.ofFun {S α : Type} (f : S → Except Problem α × S) : Critical S α :=
  ExceptT.mk fun s => f s

namespace Critical

variable {S α β : Type}

@[simp] theorem start_pure (a : α) (s : S) : (pure a : Critical S α).start s = (.ok a, s) := rfl

@[simp] theorem start_throw (p : Problem) (s : S) :
    (throw p : Critical S α).start s = (.error p, s) := rfl

@[simp] theorem start_modify (f : S → S) (s : S) :
    (modify f : Critical S Unit).start s = (.ok (), f s) := rfl

@[simp] theorem start_ofFun (f : S → Except Problem α × S) (s : S) : (ofFun f).start s = f s := rfl

/-- What comes next runs from where the first part stopped, and only if that did not end early. -/
theorem start_bind (c : Critical S α) (f : α → Critical S β) (s : S) :
    (c >>= f).start s =
      match c.start s with
      | (.ok a, t) => (f a).start t
      | (.error p, t) => (.error p, t) := by
  unfold start StateT.run ExceptT.run
  simp only [bind, ExceptT.bind, ExceptT.mk, StateT.bind, ExceptT.bindCont]
  rcases c s with ⟨outcome, t⟩
  cases outcome <;> rfl

/-- A handler runs from where the first part stopped, and only if that ended early. -/
theorem start_tryCatch (c : Critical S α) (handler : Problem → Critical S α) (s : S) :
    (tryCatch c handler).start s =
      match c.start s with
      | (.ok a, t) => (.ok a, t)
      | (.error p, t) => (handler p).start t := by
  show StateT.run (ExceptT.tryCatch c handler).run s = _
  unfold start StateT.run ExceptT.run
  simp only [ExceptT.tryCatch, ExceptT.mk, bind, StateT.bind]
  rcases c s with ⟨outcome, t⟩
  cases outcome <;> rfl

end Critical

/-- Whether a section is running. -/
structure Latch where
  held : Bool
  deriving DecidableEq, Repr

/-- A latch that nobody holds. -/
def Latch.free : Latch := ⟨false⟩

/-- States with a latch in them. -/
class Latched (S : Type) where
  latch : S → Latch
  withLatch : Latch → S → S

namespace Latch

variable {S α : Type} [Latched S]

/-- A critical section. -/
def run (body : Critical S α) : Critical S α :=
  Critical.ofFun fun s =>
    if (Latched.latch s).held then (.error (.fault .reentered), s)
    else
      let result := body.start (Latched.withLatch ⟨true⟩ s)
      (result.1, Latched.withLatch ⟨false⟩ result.2)

theorem run_of_held (body : Critical S α) {s : S} (h : (Latched.latch s).held = true) :
    (run body).start s = (.error (.fault .reentered), s) := by
  show (if (Latched.latch s).held then _ else _) = _
  rw [if_pos h]

theorem run_of_free (body : Critical S α) {s : S} (h : (Latched.latch s).held = false) :
    (run body).start s =
      ((body.start (Latched.withLatch ⟨true⟩ s)).1,
        Latched.withLatch ⟨false⟩ (body.start (Latched.withLatch ⟨true⟩ s)).2) := by
  show (if (Latched.latch s).held then _ else _) = _
  rw [if_neg (by simp [h])]

end Latch
end StorageKit
