/-
Where configuration values come from.

* `Source` — a name, and what loading gives: values, or whatever the source failed with;
* `Source.environment` — variables, all of them or those whose name starts with a given text,
  which is taken off;
* `Source.overrides` — values given by the program.

A value that is `undefined` means that the source does not give one.
-/
import StorageKit.Value.Basic

namespace StorageKit

/-- A source of configuration values. -/
structure Source where
  name : String
  load : Except Value (Fields Value)

namespace Source

/-- The rest of a list after a given start. -/
def dropStart : List Char → List Char → Option (List Char)
  | [], cs => some cs
  | _ :: _, [] => none
  | s :: start, c :: cs => if s = c then dropStart start cs else none

/-- The rest of a text after a given start. -/
def after? (start s : String) : Option String :=
  (dropStart start.toList s.toList).map String.ofList

/-- The variables whose names start with a text, without it.  One whose name is then that of the
place of what every record answers to is no field. -/
def select (start : String) (given : Fields Value) : Fields Value :=
  Fields.ofList ((given.filterMap fun field =>
    (after? start field.1).map fun rest => (rest, field.2)).filter fun field =>
      field.1 ≠ Members.parent)

/-- Variables of the environment; without a start, or with an empty one, all of them. -/
def environment (start : Option String) (given : Fields Value) : Source :=
  { name := "env"
    load := .ok (match start with
      | none => given
      | some start => if start = "" then given else select start given) }

/-- Values given by the program. -/
def overrides (values : Fields Value) : Source :=
  { name := "object:overrides", load := .ok values }

end Source
end StorageKit
