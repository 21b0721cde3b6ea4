/-
A logger that writes records.

An entry is a line of fields: the number of the level and the time, then the fields of the
logger's context in the order in which they were bound, then those of the call, then the message.
A field may stand in a line several times; the last one counts.

* `StructuredLogger.new`, `StructuredLogger.onBase` — fail for a level that does not exist; a
  logger on a base strings the causes of errors together, any other keeps them apart;
* `StructuredLogger.child`, `StructuredLogger.write` — fail for an error that cannot be written;
* `StructuredLogger.entryOf` — the fields and the message of a call.

Design notes: the names of a context are written without being quoted.  A field with the name of an
operation that comes with every record is handed to that operation (`memberText`), which is good
for nothing or fails.  A value that contains itself, or a large integer, is written up to the place
where it starts again, and no deeper or wider than `limits`.  Where a call gives no fields but a
text, the text is a template and the message its argument; a number or a truth value stands in the
place of the message.
-/
import StorageKit.Json.OfValue
import StorageKit.Log.Basic
import StorageKit.Log.ErrorForm
import StorageKit.Log.Line
import StorageKit.Log.Request
import StorageKit.Text.Template

namespace StorageKit

/-- A logger with the least severity that it writes, what becomes of causes, and the fields of its
context. -/
structure StructuredLogger where
  minimum : Option Nat
  causes : CauseStyle
  bindings : Line

namespace StructuredLogger

/-- The least severity for the name of a level, in any case; nothing at all for `silent`. -/
def minimumOf (name : String) : Except LogFault (Option Nat) :=
  if name = "silent" then .ok none
  else
    match Level.ofName? (String.ofList (name.toList.map Char.toLower)) with
    | some l => .ok (some l.severity)
    | none =>
      if Members.isInherited name then .error .levelWithoutNumber else .error (.unknownLevel name)

/-- Where a field stands: in the context of a logger, or in a call. -/
inductive Place where
  | context
  | call
  deriving DecidableEq, Repr

/-- A field of a line; the names of a context are not quoted. -/
def Place.print (name : String) (value : List Char) : Place → Printed
  | .context => .bare name value
  | .call => .quoted name value

/-- The size of what is written for a value that contains itself. -/
def limits : Json.Limits := ⟨5, 100⟩

/-- What is written for a value that cannot be written at all. -/
def unwritable : Json :=
  .text "[unable to serialize, circular reference is too complex to analyze]"

/-- The document that is written for a value, if it was given. -/
def documentOf (now : Clock) (v : Value) : Option Json :=
  match v.encode .plain now.moment? 0 .itself with
  | .ok document => document
  | .error _ =>
    match v.encode (.bounded limits) now.moment? 0 .itself with
    | .ok document => document
    | .error _ => some unwritable

/-- The words of a value that becomes a record of its own before it is put into words. -/
def boxedWords (v : Value) : Except LogFault String :=
  match v with
  | .null => .ok "[object Object]"
  | v =>
    match v.plain? [] with
    | some words => .ok words
    | none => .error .noPlainText

/-- The characters that an operation which comes with every record makes of the value of a field of
its name, if any. -/
def memberText (place : Place) (name : String) (v : Value) :
    Except LogFault (Option (List Char)) :=
  match name with
  | "constructor" => (boxedWords v).map fun words => some words.toList
  | "toString" => .ok (some "[object Undefined]".toList)
  | "isPrototypeOf" => .ok (some "false".toList)
  | "toLocaleString" => .error (.noRecord name)
  | "__defineGetter__" | "__defineSetter__" => .error (.noOperation name)
  | "__lookupGetter__" | "__lookupSetter__" => do
    let _ ← boxedWords v
    match place with
    | .context => .error .noFields
    | .call => return none
  | "hasOwnProperty" | "propertyIsEnumerable" => do
    let _ ← boxedWords v
    .error .noFields
  | _ => .error .noFields

/-- The characters of the value of a field, if it is written. -/
def valueText (style : CauseStyle) (now : Clock) (place : Place) (name : String) (v : Value) :
    Except LogFault (Option (List Char)) :=
  if Members.names.contains name then memberText place name v
  else do
    let v ← if name = "err" then v.errorForm style else pure v
    return (documentOf now v).map Json.render

/-- Fields as they are written, without those that were given nothing. -/
def lineOf (style : CauseStyle) (now : Clock) (place : Place) :
    List (String × Value) → Except LogFault Line
  | [] => .ok []
  | (name, v) :: rest => do
    let value ← if v.isUndefined then pure none else valueText style now place name v
    let others ← lineOf style now place rest
    return match value with
      | some value => place.print name value :: others
      | none => others

/-- Names that a context cannot bind. -/
def unbindable : List String := ["level", "serializers", "formatters", "customLevels"]

/-- A logger that writes its context in front of the fields of each call. -/
def child (now : Clock) (context : Value) (l : StructuredLogger) :
    Except LogFault StructuredLogger := do
  if context.isFalsy && !context.isUndefined then throw .noBindings
  let fields := context.fields.filter fun f => !unbindable.contains f.1
  if Fields.has "hasOwnProperty" fields then throw .hiddenTest
  let bound ← lineOf l.causes now .context fields
  return { l with bindings := l.bindings ++ bound }

/-- A logger for a level, with a context; the empty name stands for `info`. -/
def new (now : Clock) (level : String) (context : Value) : Except LogFault StructuredLogger := do
  let minimum ← minimumOf (if level = "" then Level.info.name else level)
  child now context { minimum, causes := .nested, bindings := [] }

/-- A logger with a context on a base for a level, with bindings of its own. -/
def onBase (now : Clock) (level : String) (bindings context : Value) :
    Except LogFault StructuredLogger := do
  let base ← child now bindings
    { minimum := ← minimumOf level, causes := .chained, bindings := [] }
  child now context base

/-- Entries of this level are written. -/
def lets (level : Level) (l : StructuredLogger) : Bool :=
  match l.minimum with
  | some least => least ≤ level.severity
  | none => false

/-- The fields and the message of a call.  A lone error stands under `err`. -/
def entryOf (message : String) (fields : Value) : Fields Value × Json :=
  match fields with
  | .text template => ([], .text (Text.fill template message))
  | .half unit => ([], .half unit)
  | .bool b => ([], .bool b)
  | .number x => ([], Value.numberDocument x)
  | .bigint i => ([], .number (toString i))
  | .error head context cause => ([("err", .error head context cause)], .text message)
  | fields =>
    match fields.asRequest? with
    | some facts => ([("req", .record facts)], .text message)
    | none => (fields.fields, .text message)

/-- Writes an entry, if its level is let through. -/
def write (now : Clock) (level : Level) (message : String) (fields : Value)
    (l : StructuredLogger) : Except LogFault (Option Line) := do
  if l.lets level then
    let (own, message) := entryOf message fields
    let line ← lineOf l.causes now .call own
    return some
      ([.quoted "level" (toString level.severity).toList,
          .quoted "time" now.reading.text.toList]
        ++ l.bindings ++ line ++ [.quoted "msg" message.render])
  else return none

instance : EntryLogger StructuredLogger Line where
  child := child
  write := write

end StructuredLogger
end StorageKit
