/-
Lines of fields.

A line is an object of JSON in one line of text, kept as the fields it is made of.  Names and values
are kept as the characters that stand in the text, since not every name is quoted when it is
written, and a reader then sees something else than the writer meant.

* `Printed` — a field as it stands in a line;
* `Line.render` — the characters of a line;
* `Line.read` — the record that a reader makes of it, if it is one: a name that stands there
  several times counts with its last value.
-/
import StorageKit.Json.Read

namespace StorageKit

/-- A field as it stands in a line: what is between the quotes of its name, and its value. -/
structure Printed where
  name : List Char
  value : List Char
  deriving DecidableEq, Repr

namespace Printed

/-- A field whose name is quoted. -/
def quoted (name : String) (value : List Char) : Printed := ⟨Quoted.body name.toList, value⟩

/-- A field whose name stands as it is. -/
def bare (name : String) (value : List Char) : Printed := ⟨name.toList, value⟩

/-- The characters of a field. -/
def render (p : Printed) : List Char := '"' :: (p.name ++ '"' :: ':' :: p.value)

end Printed

/-- Fields in the order in which they are written. -/
abbrev Line := List Printed

namespace Line

/-- The fields of a line, with commas between them. -/
def renderFields : Line → List Char
  | [] => []
  | [p] => p.render
  | p :: rest => p.render ++ ',' :: renderFields rest

/-- The characters of a line. -/
def render (l : Line) : List Char := '\x7b' :: (renderFields l ++ ['\x7d'])

/-- The record that a reader makes of a line. -/
def read (l : Line) : Option (Fields Json) :=
  match Json.read? l.render with
  | some (.object fields) => some fields
  | _ => none

end Line
end StorageKit
