/-
Values as JSON documents.

`Value.encode` gives the document of a value, no document for a value that was given nothing, and
an obstacle when the value cannot be written.  The rules:

* in a record a field that was given nothing is dropped, in a list it is `null`;
* numbers that are not finite and moments off the calendar are `null`; moments are ISO text;
* an error with details is written as its report without stacks, any other error as the fields it
  shows when copied;
* integers of any size, references back and large values are written as a `Json.Style` says.

The styles:

* `Style.strict` writes the digits of the integer as text and refuses references;
* `Style.plain` refuses both;
* `Style.bounded` writes the integer as a number and the word `[Circular]` for a reference, a word
  for what is nested too deep, and no more entries than its limits say.

Design notes: the cause of an error is written as its own report, whatever kind of value it is.
`Role` says which of the two is asked for, so that one recursion serves both.  The parts of a value
are written first, each with its own outcome; only the outcomes of the parts that are kept count.
-/
import StorageKit.Number.Text
import StorageKit.Json.Basic
import StorageKit.Json.Limits
import StorageKit.Fault.Report

namespace StorageKit
namespace Json

/-- Why a value has no document. -/
inductive Obstacle where
  | bigint
  | cycle
  /-- A report is asked for at a time that is on no calendar. -/
  | offCalendar
  deriving DecidableEq, Repr

/-- What comes of writing a value: a document, nothing, or an obstacle. -/
abbrev Outcome := Except Obstacle (Option Json)

namespace Outcome

/-- A document. -/
def done (j : Json) : Outcome := .ok (some j)

end Outcome

/-- The items of a list; what gives nothing is `null`. -/
def collectItems : List Outcome → Except Obstacle (List Json)
  | [] => .ok []
  | outcome :: rest => do
    let document ← outcome
    let documents ← collectItems rest
    return document.getD .null :: documents

/-- The fields of an object; what gives nothing is dropped. -/
def collectFields : List (String × Outcome) → Except Obstacle (List (String × Json))
  | [] => .ok []
  | (name, outcome) :: rest => do
    let document ← outcome
    let documents ← collectFields rest
    return match document with
      | some j => (name, j) :: documents
      | none => documents

/-- How a document writes what JSON has no form for: integers of any size, references back, and
what exceeds the limits.  Without a word for them, the first two are refused. -/
structure Style where
  bigint : Option (Int → Json)
  cycle : Option Json
  limits : Option Limits

namespace Style

/-- Large integers are text, and a value must not contain itself. -/
def strict : Style := ⟨some fun i => .text (toString i), none, none⟩

/-- There must be no large integers, and a value must not contain itself. -/
def plain : Style := ⟨none, none, none⟩

/-- Large integers are numbers, a reference back is a word, and there are limits. -/
def bounded (limits : Limits) : Style :=
  ⟨some fun i => .number (toString i), some (.text "[Circular]"), some limits⟩

/-- Parts at this depth are written. -/
def reaches (style : Style) (depth : Nat) : Bool :=
  match style.limits with
  | some limits => depth < limits.depth
  | none => true

/-- The list of some items at a depth. -/
def list (style : Style) (depth : Nat) (items : List Outcome) : Outcome :=
  if items.isEmpty || style.reaches depth then
    let kept := match style.limits with
      | some limits => limits.shortItems (fun s => .done (.text s)) items
      | none => items
    (collectItems kept).map fun documents => some (.list documents)
  else .done (.text "[Array]")

/-- The object of some fields at a depth. -/
def object (style : Style) (depth : Nat) (fields : List (String × Outcome)) : Outcome :=
  if fields.isEmpty || style.reaches depth then
    let kept := match style.limits with
      | some limits => limits.shortFields (fun s => .done (.text s)) fields
      | none => fields
    (collectFields kept).map fun documents => some (.object documents)
  else .done (.text "[Object]")

end Style
end Json

namespace Value

/-- What is asked for: the value itself, or the report of it as a cause. -/
inductive Role where
  | itself
  | cause
  deriving DecidableEq, Repr

/-- The depth of a value that is no error: in its report it stands in the context. -/
def Role.depth (depth : Nat) : Role → Nat
  | .itself => depth
  | .cause => depth + 2

/-- The document of a number. -/
def numberDocument (x : Number) : Json := if x.isFinite then .number x.text else .null

/-- The document of a moment. -/
def dateDocument : Option Moment → Json
  | some t => .text t.iso
  | none => .null

/-- The document of a text. -/
def wordingDocument : Wording → Json
  | .text s => .text s
  | .half unit => .half unit

/-- The fields of a report, before its cause. -/
def reportHeading (name code : String) (message : Wording) (context : Json.Outcome)
    (isOperational : Bool) (timestamp : Moment) : List (String × Json.Outcome) :=
  [("name", .done (.text name)), ("code", .done (.text code)),
    ("message", .done (wordingDocument message)), ("context", context),
    ("isOperational", .done (.bool isOperational)), ("timestamp", .done (.text timestamp.iso))]

/-- The document of a value that is no error, in its role. -/
def inRole (style : Json.Style) (now : Option Moment) (depth : Nat) (v : Value)
    (outcome : Json.Outcome) : Role → Json.Outcome
  | .itself => outcome
  | .cause =>
    match now with
    | none => .error .offCalendar
    | some timestamp =>
      let context := (Report.wrapping v).map fun field => (field.1, outcome)
      style.object depth
        (reportHeading "NonErrorThrown" "unknown" (Report.messageOf v)
          (style.object (depth + 1) context) false timestamp)

/-- The document of an error, given the outcomes of its context and of its cause. -/
def errorDocument (style : Json.Style) (now : Option Moment) (depth : Nat) (head : ErrorHead)
    (context : List (String × Json.Outcome)) (cause : List (String × Json.Outcome)) :
    Role → Json.Outcome := fun role =>
  match head.details, role with
  | some d, _ =>
    match d.timestamp with
    | none => .error .offCalendar
    | some timestamp =>
      style.object depth
        (reportHeading head.name d.code head.message (style.object (depth + 1) context)
          d.isOperational timestamp ++ cause)
  | none, .cause =>
    match now with
    | none => .error .offCalendar
    | some timestamp =>
      style.object depth
        (reportHeading head.name "unknown" head.message (style.object (depth + 1) []) false
          timestamp ++ cause)
  | none, .itself =>
    style.object depth (if head.nameAssigned then [("name", .done (.text head.name))] else [])

/-- An error is reported at once and with all its causes, however deep it lies. -/
def isReported (head : ErrorHead) (role : Role) : Bool := head.details.isSome || role = .cause

mutual

/-- The document of a value in a role, with a number of lists and records around it. -/
def encode (style : Json.Style) (now : Option Moment) (depth : Nat) :
    Value → Role → Json.Outcome
  | .undefined, role => inRole style now depth .undefined (.ok none) role
  | .null, role => inRole style now depth .null (.done .null) role
  | .bool b, role => inRole style now depth (.bool b) (.done (.bool b)) role
  | .number x, role => inRole style now depth (.number x) (.done (numberDocument x)) role
  | .bigint i, role =>
    inRole style now depth (.bigint i)
      (match style.bigint with
        | some write => .done (write i)
        | none => .error .bigint) role
  | .text s, role => inRole style now depth (.text s) (.done (.text s)) role
  | .half unit, role => inRole style now depth (.half unit) (.done (.half unit)) role
  | .date t, role => inRole style now depth (.date t) (.done (dateDocument t)) role
  | .page id, role =>
    inRole style now depth (.page id)
      (style.object (role.depth depth) [("pageId", .done (numberDocument id))]) role
  | .list items, role =>
    let inner := role.depth depth
    inRole style now depth (.list items)
      (style.list inner (encodeItems style now (inner + 1) items)) role
  | .record fs, role =>
    let inner := role.depth depth
    inRole style now depth (.record fs)
      (style.object inner (encodeFields style now (inner + 1) fs)) role
  | .shared name, role =>
    inRole style now depth (.shared name) (style.object (role.depth depth) []) role
  | .method name, role => inRole style now depth (.method name) (.ok none) role
  | .back n, role =>
    inRole style now depth (.back n)
      (match style.cycle with
        | some word => .done word
        | none => .error .cycle) role
  | .error head context cause, role =>
    if isReported head role && !Report.isDated now (.error head context cause) then
      .error .offCalendar
    else
      errorDocument style now depth head (encodeFields style now (depth + 2) context)
        (match cause with
          | .undefined => []
          | cause => [("cause", encode style now (depth + 1) cause .cause)]) role
termination_by structural v => v

/-- The outcomes of the items of a list. -/
def encodeItems (style : Json.Style) (now : Option Moment) (depth : Nat) :
    List Value → List Json.Outcome
  | [] => []
  | v :: rest => encode style now depth v .itself :: encodeItems style now depth rest
termination_by structural items => items

/-- The outcomes of the fields of a record, in order. -/
def encodeFields (style : Json.Style) (now : Option Moment) (depth : Nat) :
    List (String × Value) → List (String × Json.Outcome)
  | [] => []
  | (k, v) :: rest => (k, encode style now depth v .itself) :: encodeFields style now depth rest
termination_by structural fields => fields

end

end Value
end StorageKit
