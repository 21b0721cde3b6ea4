/-
Schemas: which values are accepted, and what is made of them.

* `Schema` — the kinds of values;
* `NumberCheck` — what a number has to satisfy beside being finite;
* `Presence` — what happens when a field of a record is missing;
* `Schema.parse` — the value that a schema makes of a value, or all issues it has with it;
  `Schema.parseFields` — the known fields of anything that answers to names;
* `Schema.accepts` — whether there are none.

Design notes: one recursion gives both the verdict and the parsed value.  A list or a record is
parsed part by part and all issues of all parts are kept, in order.  A field that is missing but
has the name of something that is found at the place of the record is not missing: that is what is
parsed.  Fields that a schema has no word on may be kept, but at `Members.parent` none is.
-/
import StorageKit.Schema.Issue
import StorageKit.Value.Property
import StorageKit.Value.Text

namespace StorageKit

/-- What a number has to satisfy beside being finite. -/
inductive NumberCheck where
  | integer
  | atLeast (bound : Int)
  | atMost (bound : Int)
  | above (bound : Int)
  deriving DecidableEq, Repr

/-- What happens when a field of a record is missing. -/
inductive Presence where
  | required
  | optional
  | default (value : Value)
  deriving Repr

/-- What happens to fields that a schema does not know. -/
inductive Unknown where
  | drop
  | keep
  | refuse
  deriving DecidableEq, Repr

/-- A kind of values. -/
inductive Schema where
  | any
  | text
  | boolean
  | number (checks : List NumberCheck)
  | coercedNumber (checks : List NumberCheck)
  | bigint (least greatest : Int)
  | page
  | list (item : Schema)
  | record (unknown : Unknown) (fields : List (String × Presence × Schema))
  | choice (options : List String)
  | flag
  deriving Repr

namespace Value

/-- The word for the kind of a value in complaints. -/
def kind : Value → String
  | .undefined => "undefined"
  | .null => "null"
  | .bool _ => "boolean"
  | .number x => if x.isFinite then "number" else x.text
  | .bigint _ => "bigint"
  | .text _ | .half _ => "string"
  | .method _ => "function"
  | .date _ => "Date"
  | .page _ => "PageHandle"
  | .list _ => "array"
  | .error head _ _ => head.className
  | .record _ | .shared _ | .back _ => "object"

/-- The fields of a value that may be read as a record; lists and scalars may not. -/
def recordFields? (objects : Objects) : Value → Option (Fields Value)
  | .record fs => some (Value.record fs).fields
  | .page id => some (Value.page id).fields
  | .error head context cause => some (Value.error head context cause).fields
  | .shared name => some ((Fields.get? name objects).getD [])
  | .date _ | .back _ => some []
  | _ => none

end Value

namespace NumberCheck

/-- The largest integer up to which every integer is a number. -/
def safeBound : Int := 9007199254740991

/-- The issues of one check, and whether the later checks still run. -/
def run (x : Number) : NumberCheck → List Complaint × Bool
  | .integer =>
    match x.toInt? with
    | none => ([.expected "int" "number"], false)
    | some i =>
      if safeBound < i then ([.tooBig "int" ("<=" ++ toString safeBound)], true)
      else if i < -safeBound then ([.tooSmall "int" (">=" ++ toString (-safeBound))], true)
      else ([], true)
  | .atLeast bound =>
    (if x.compare? (.ofInt bound) = some .lt then
      [.tooSmall "number" (">=" ++ toString bound)] else [], true)
  | .atMost bound =>
    (if x.compare? (.ofInt bound) = some .gt then
      [.tooBig "number" ("<=" ++ toString bound)] else [], true)
  | .above bound =>
    (if x.compare? (.ofInt bound) = some .gt then []
      else [.tooSmall "number" (">" ++ toString bound)], true)

/-- The complaints of all checks, up to one that ends them. -/
def runAll (x : Number) : List NumberCheck → List Complaint
  | [] => []
  | check :: rest =>
    let (complaints, goOn) := run x check
    if goOn then complaints ++ runAll x rest else complaints

end NumberCheck

namespace Schema

/-- What parsing a value gives: the parsed value, or what is wrong. -/
abbrev Parsed (α : Type) := Except (List Issue) α

/-- A complaint about the whole value. -/
def refuse {α : Type} (complaint : Complaint) : Parsed α := .error [⟨[], complaint⟩]

/-- Two parts, with the issues of both. -/
def Parsed.both {α β γ : Type} (f : α → β → γ) : Parsed α → Parsed β → Parsed γ
  | .ok a, .ok b => .ok (f a b)
  | .ok _, .error issues => .error issues
  | .error issues, .ok _ => .error issues
  | .error first, .error second => .error (first ++ second)

/-- A part of a value, with its issues seen from the whole. -/
def Parsed.under {α : Type} (step : Step) : Parsed α → Parsed α
  | .ok a => .ok a
  | .error issues => .error (issues.map (Issue.under step))

/-- A finite number that passes the checks. -/
def checkNumber (checks : List NumberCheck) (x : Number) : Parsed Value :=
  if !x.isFinite then refuse (.expected "number" (Value.kind (.number x)))
  else
    match NumberCheck.runAll x checks with
    | [] => .ok (.number x)
    | complaints => .error (complaints.map fun c => ⟨[], c⟩)

/-- An integer between two bounds. -/
def checkBigint (least greatest i : Int) : Parsed Value :=
  let low := if i < least then [Complaint.tooSmall "bigint" (">=" ++ toString least)] else []
  let high := if greatest < i then [Complaint.tooBig "bigint" ("<=" ++ toString greatest)] else []
  match low ++ high with
  | [] => .ok (.bigint i)
  | complaints => .error (complaints.map fun c => ⟨[], c⟩)

/-- The words that switch a flag on. -/
def trueWords : List String := ["true", "1", "yes", "on", "y", "enabled"]

/-- The words that switch a flag off. -/
def falseWords : List String := ["false", "0", "no", "off", "n", "disabled"]

/-- A boolean, or one of the words for one in any case. -/
def checkFlag : Value → Parsed Value
  | .bool b => .ok (.bool b)
  | .text s =>
    let word := String.ofList (s.toList.map Char.toLower)
    if word ∈ trueWords then .ok (.bool true)
    else if word ∈ falseWords then .ok (.bool false)
    else refuse .nothingFits
  | _ => refuse .nothingFits

/-- The items of a list, each parsed in the same way. -/
def parseItems (item : Value → Parsed Value) : Nat → List Value → Parsed (List Value)
  | _, [] => .ok []
  | i, v :: rest =>
    Parsed.both List.cons ((item v).under (.index i)) (parseItems item (i + 1) rest)

/-- The fields of a record that a schema has no word on. -/
def unknownFields (known : List String) (input : Fields Value) : Fields Value :=
  input.filter fun field => !known.contains field.1

/-- The verdict on the fields that a schema has no word on, and what is kept of them. -/
def checkUnknown : Unknown → Fields Value → Parsed (Fields Value)
  | .drop, _ => .ok []
  | .keep, extra => .ok (extra.filter fun field => field.1 ≠ Members.parent)
  | .refuse, [] => .ok []
  | .refuse, extra => refuse (.unrecognized (Fields.names extra))

mutual

/-- What a schema makes of a value, or all issues it has with it. -/
def parse (objects : Objects) : Schema → Value → Parsed Value
  | .any, v => .ok v
  | .text, v =>
    match v with
    | .text s => .ok (.text s)
    | .half unit => .ok (.half unit)
    | _ => refuse (.expected "string" v.kind)
  | .boolean, v =>
    match v with
    | .bool b => .ok (.bool b)
    | _ => refuse (.expected "boolean" v.kind)
  | .number checks, v =>
    match v with
    | .number x => checkNumber checks x
    | _ => refuse (.expected "number" v.kind)
  | .coercedNumber checks, v =>
    match v.toNumber? objects with
    | some x => checkNumber checks x
    | none => refuse (.expected "number" v.kind)
  | .bigint least greatest, v =>
    match v with
    | .bigint i => checkBigint least greatest i
    | _ => refuse (.expected "bigint" v.kind)
  | .page, v =>
    match v with
    | .page id => .ok (.page id)
    | _ => refuse (.expected "PageHandle" v.kind)
  | .list item, v =>
    match v with
    | .list _ =>
      (parseItems (parse objects item) 0 (v.fields.map Prod.snd)).map .list
    | _ => refuse (.expected "array" v.kind)
  | .record unknown fields, v =>
    match v.recordFields? objects with
    | some input =>
      Parsed.both (fun known extra => .record (Fields.overlay known extra))
        (parseFields objects (fun name => Layered.find? name ⟨input, .members⟩) fields)
        (checkUnknown unknown (unknownFields (Fields.names fields) input))
    | none => refuse (.expected "object" v.kind)
  | .choice options, v =>
    match v with
    | .text s => if s ∈ options then .ok (.text s) else refuse (.noneOf options)
    | _ => refuse (.noneOf options)
  | .flag, v => checkFlag v
termination_by structural s => s

/-- The known fields of what answers to names, in the order of the schema. -/
def parseFields (objects : Objects) (find? : String → Option Value) :
    List (String × Presence × Schema) → Parsed (Fields Value)
  | [] => .ok []
  | (name, presence, schema) :: rest =>
    let given := (find? name).getD .undefined
    let later := parseFields objects find? rest
    -- what is found but was given nothing stays, without a value
    let absent := ((find? name).map fun v => (name, v)).toList
    match presence, given with
    | .optional, .undefined => later.map (absent ++ ·)
    | .default .undefined, .undefined => later.map (absent ++ ·)
    | .default v, .undefined => Parsed.both (fun v rest => (name, v) :: rest) (.ok v) later
    | _, given =>
      Parsed.both (fun v rest => (name, v) :: rest)
        ((parse objects schema given).under (.key name)) later
termination_by structural fields => fields

end

/-- A record schema with its fields in the order of a record. -/
def ofFields (unknown : Unknown) (fields : List (String × Presence × Schema)) : Schema :=
  .record unknown (Fields.ofList fields)

/-- The issues a schema has with a value. -/
def issues (objects : Objects) (s : Schema) (v : Value) : List Issue :=
  match parse objects s v with
  | .ok _ => []
  | .error issues => issues

/-- A schema has no issue with a value. -/
def accepts (objects : Objects) (s : Schema) (v : Value) : Bool :=
  match parse objects s v with
  | .ok _ => true
  | .error _ => false

/-- A whole number above zero, read from a value of any kind. -/
def positiveInteger : Schema := .coercedNumber [.integer, .above 0]

/-- A record with a number under `n`, and any other fields. -/
def cell : Schema := .record .keep [("n", .required, .number [])]

end Schema
end StorageKit
