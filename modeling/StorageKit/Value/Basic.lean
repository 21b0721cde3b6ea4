/-
Values of any shape.

Tries store them, configuration sources supply them, log calls and errors carry them.  Main
definitions:

* `Value` — nothing, scalars, moments, handles of pages, lists, records, errors, records that live
  in a shared store under a name, and the operations that come with every record;
* `ErrorHead`, `ErrorDetails` — what an error says beside its context and its cause;
* `Value.fields` — the fields that copying a value into a record copies;
* `Value.inherited` — what a record answers to a name that was not written into it.

Design notes.  A value that contains itself is written with back-references: `back n` stands for
the `n`-th list or record around it, the innermost being number zero.  Taking a field out of a
record therefore first puts the whole record in the place of the references to it
(`Value.unfold`).  The context and the cause of an error are complete in themselves: no
back-reference in them leads out of them.  A text falls into units of 16 bits when its fields are
copied, so there are texts that are half of a character.

Small laws: `unfoldItems_eq_map`, `unfoldFields_eq_map`.
-/
import StorageKit.Number.Basic
import StorageKit.Record.Fields
import StorageKit.Record.Members
import StorageKit.Text.Units
import StorageKit.Time.Calendar

namespace StorageKit

/-- What the errors of this library, and of programs that use its error type, say about
themselves: a code for programs to test, whether trying again may help, whether the failure is
part of normal operation, and when the error was made, if that is on the calendar. -/
structure ErrorDetails where
  code : String
  isRetryable : Bool
  isOperational : Bool
  timestamp : Option Moment
  deriving DecidableEq, Repr

/-- The head of an error.  `className` is the class it was made from; `name` is what it calls
itself, and `nameAssigned` says whether that was written onto it by hand; `details` are there for
errors with a code. -/
structure ErrorHead where
  className : String
  name : String
  nameAssigned : Bool
  message : String
  stack : String
  details : Option ErrorDetails
  deriving DecidableEq, Repr

/-- A value of any shape. -/
inductive Value where
  | undefined
  | null
  | bool (b : Bool)
  | number (x : Number)
  | bigint (i : Int)
  | text (s : String)
  /-- A text of one unit that is half of a character. -/
  | half (unit : Nat)
  | date (moment : Option Moment)
  | page (id : Number)
  | list (items : List Value)
  | record (fields : List (String × Value))
  | shared (name : String)
  | back (levels : Nat)
  /-- An operation that comes with every record. -/
  | method (name : String)
  | error (head : ErrorHead) (context : List (String × Value)) (cause : Value)
  deriving Repr

namespace Value

instance : Inhabited Value := ⟨.undefined⟩

/-- A text as a value. -/
def ofWording : Wording → Value
  | .text s => .text s
  | .half unit => .half unit

/-- Nothing was given. -/
def isUndefined : Value → Bool
  | .undefined => true
  | _ => false

/-- An error of any kind. -/
def isError : Value → Bool
  | .error .. => true
  | _ => false

/-- Counts as absent or false: nothing, `null`, false, zero, `nan`, the empty text. -/
def isFalsy : Value → Bool
  | .undefined | .null => true
  | .bool b => !b
  | .number .nan => true
  | .number (.finite _ m _) => m = 0
  | .bigint i => i = 0
  | .text s => s = ""
  | _ => false

mutual

/-- Puts `whole` in the place of the references to the container `depth` levels up. -/
def unfold (whole : Value) (depth : Nat) : Value → Value
  | .back n => if n = depth then whole else .back n
  | .list items => .list (unfoldItems whole (depth + 1) items)
  | .record fields => .record (unfoldFields whole (depth + 1) fields)
  | v => v
termination_by structural v => v

/-- The same for the items of a list. -/
def unfoldItems (whole : Value) (depth : Nat) : List Value → List Value
  | [] => []
  | v :: rest => unfold whole depth v :: unfoldItems whole depth rest
termination_by structural items => items

/-- The same for the fields of a record. -/
def unfoldFields (whole : Value) (depth : Nat) : List (String × Value) → List (String × Value)
  | [] => []
  | (k, v) :: rest => (k, unfold whole depth v) :: unfoldFields whole depth rest
termination_by structural fields => fields

end

theorem unfoldItems_eq_map (whole : Value) (depth : Nat) (items : List Value) :
    unfoldItems whole depth items = items.map (unfold whole depth) := by
  induction items with
  | nil => rfl
  | cons v rest ih => rw [unfoldItems, ih, List.map_cons]

theorem unfoldFields_eq_map (whole : Value) (depth : Nat) (fs : Fields Value) :
    unfoldFields whole depth fs = fs.map fun field => (field.1, unfold whole depth field.2) := by
  induction fs with
  | nil => rfl
  | cons field rest ih =>
    obtain ⟨name, v⟩ := field
    rw [unfoldFields, ih, List.map_cons]

/-- The fields that an error shows when it is copied: the name, if it was written onto the error
by hand, and for errors with details these and the context. -/
def errorFields (head : ErrorHead) (context : Fields Value) : Fields Value :=
  match head.details with
  | none => if head.nameAssigned then [("name", .text head.name)] else []
  | some details =>
    [("code", .text details.code), ("context", .record context),
      ("isRetryable", .bool details.isRetryable), ("isOperational", .bool details.isOperational),
      ("timestamp", .date details.timestamp), ("name", .text head.name)]

/-- Items under their index names. -/
def indexed (items : List Value) : Fields Value :=
  items.zipIdx.map fun (v, i) => (toString i, v)

/-- The units of a text, each as a text. -/
def letters (s : String) : List Value :=
  s.toList.flatMap fun c =>
    if c.toNat < 0x10000 then [.text (String.singleton c)] else (Text.unitsOf c).map .half

/-- The fields that copying a value into a record copies; scalars have none. -/
def fields : Value → Fields Value
  | .record fs => unfoldFields (.record fs) 0 fs
  | .list items => indexed (unfoldItems (.list items) 0 items)
  | .text s => indexed (letters s)
  | .half unit => [("0", .half unit)]
  | .page id => [("pageId", .number id)]
  | .error head context _ => errorFields head context
  | _ => []

/-- The fields without those that were given nothing. -/
def definedFields (fs : Fields Value) : Fields Value := fs.filter fun field => !field.2.isUndefined

/-- What a record answers to a name that was not written into it. -/
def inherited (name : String) : Value :=
  if name = Members.parent then .record []
  else if Members.isInherited name then .method name
  else .undefined

end Value
end StorageKit
