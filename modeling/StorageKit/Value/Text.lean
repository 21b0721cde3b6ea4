/-
Values as plain text, and as numbers.

* `Objects` — the records that values refer to by name;
* `Value.plain?` — the text of a value where only its words matter: scalars as they are written, a
  list as its items with commas between them, any record as `[object Object]`, an error as its
  name and message;
* `Value.toNumber?` — the number a value stands for: a text is read as a numeral, a list as its
  plain text, a moment is its milliseconds, nothing and records are `nan`.

Design notes: a record with a field named `toString` has no plain text, since the field stands in
the way of the operation of that name; neither has a list with such a record in it.  In a list,
nothing and `null` have no words, and a reference back to a list that is being written has none
either, so the text of a value is always finite.
-/
import StorageKit.Number.Text
import StorageKit.Number.Numeral
import StorageKit.Value.Basic

namespace StorageKit

/-- The shared records, by name. -/
abbrev Objects := Fields (Fields Value)

/-- The name and the message, with a colon between them if both are there. -/
def ErrorHead.plain (head : ErrorHead) : String :=
  if head.name = "" then head.message
  else if head.message = "" then head.name
  else head.name ++ ": " ++ head.message

namespace Value

/-- Where a text is asked for: of a value by itself, or of an item between commas. -/
inductive Position where
  | alone
  | item
  deriving DecidableEq, Repr

/-- The plain text of a record, unless one of its fields stands in the way. -/
def recordPlain? (fs : Fields Value) : Option String :=
  if Fields.has "toString" fs then none else some "[object Object]"

mutual

/-- The plain text of a value at a position, if it has one. -/
def plainAt? (objects : Objects) : Position → Value → Option String
  | .alone, .undefined => some "undefined"
  | .item, .undefined => some ""
  | .alone, .null => some "null"
  | .item, .null => some ""
  | _, .bool b => some (if b then "true" else "false")
  | _, .number x => some x.text
  | _, .bigint i => some (toString i)
  | _, .text s => some s
  | _, .half _ => some (String.singleton Text.replacement)
  | _, .date (some t) => some t.long
  | _, .date none => some "Invalid Date"
  | _, .list items => (plainItems? objects items).map (String.intercalate ",")
  | _, .error head _ _ => some head.plain
  | _, .page _ => some "[object Object]"
  | _, .record fs => recordPlain? fs
  | _, .shared name => recordPlain? ((Fields.get? name objects).getD [])
  | _, .method name => some ("function " ++ name ++ "() \x7b [native code] \x7d")
  | _, .back _ => some ""
termination_by structural _ v => v

/-- The texts of the items of a list, if all have one. -/
def plainItems? (objects : Objects) : List Value → Option (List String)
  | [] => some []
  | v :: rest => do
    let word ← plainAt? objects .item v
    let words ← plainItems? objects rest
    return word :: words
termination_by structural items => items

end

/-- The plain text of a value, if it has one. -/
def plain? (objects : Objects) (v : Value) : Option String := plainAt? objects .alone v

/-- The number a value stands for, unless it has no plain text to read it from. -/
def toNumber? (objects : Objects) : Value → Option Number
  | .undefined => some .nan
  | .null => some .zero
  | .bool b => some (if b then .ofNat 1 else .zero)
  | .number x => some x
  | .bigint i => some (.ofInt i)
  | .date (some t) => some (.ofInt t)
  | .date none => some .nan
  | v => (v.plain? objects).map .ofText

end Value
end StorageKit
