/-
A logger that writes lines to a console.

An entry is a record: the time, the level and the message, then the fields of the logger's
context, then those of the call.  The call cannot change the first three; the context can.

* `ConsoleLogger.new`, `ConsoleLogger.child`, `ConsoleLogger.write`;
* `ConsoleLogger.payload` — the record of an entry;
* `ConsoleLogger.jsonLine` — the record as one line of JSON;
* `ConsoleLogger.prettyLines` — time, level and message as words, the other fields as JSON, and
  the stack text of an error on lines of its own, indented by two blanks.

Design notes: an entry that contains itself cannot be written as JSON, and a line that says so is
written in its place.  A minimum level that is no level at all lets nothing through.  The fields
of a call may be missing, those of a child logger may not.  No entry is written while the clock is
off the calendar, nor one in words that has a head without plain text.
-/
import StorageKit.Json.OfValue
import StorageKit.Log.Basic
import StorageKit.Text.Uppercase
import StorageKit.Value.Text

namespace StorageKit

/-- A logger with the least level that it writes, a form, and fields for all its entries. -/
structure ConsoleLogger where
  minimum : Option Level
  pretty : Bool
  context : Fields Value

/-- A text, and the console method that it goes to. -/
structure ConsoleLine where
  method : String
  text : String
  deriving DecidableEq, Repr

namespace ConsoleLogger

/-- The least level that is written: `info` unless a name is given. -/
def minimumOf (level : Option String) : Option Level :=
  match level with
  | none => some .info
  | some name => Level.ofName? name

/-- The fields that a value adds to an entry; an absent or false value adds none, and what stands at
`Members.parent` is not added. -/
def fieldsOf (v : Value) : Fields Value :=
  if v.isFalsy then []
  else (Value.definedFields v.fields).filter fun field => field.1 ≠ Members.parent

/-- The fields that a context adds to all entries. -/
def contextOf (context : Value) : Except LogFault (Fields Value) :=
  match context with
  | .undefined | .null => .error .noFields
  | context => .ok (fieldsOf context)

/-- A logger; without a context it adds no fields. -/
def new (level : Option String) (pretty : Bool) (context : Value) :
    Except LogFault ConsoleLogger := do
  let context ← if context.isUndefined then pure [] else contextOf context
  return { minimum := minimumOf level, pretty, context }

/-- A logger that adds fields to those of this one. -/
def child (context : Value) (l : ConsoleLogger) : Except LogFault ConsoleLogger := do
  return { l with context := Fields.overlay l.context (← contextOf context) }

/-- Entries of this level are written. -/
def lets (level : Level) (l : ConsoleLogger) : Bool :=
  match l.minimum with
  | some least => least.severity ≤ level.severity
  | none => false

/-- The console method of a level: that of its name, but the two most severe levels share one. -/
def method (level : Level) : String :=
  match level with
  | .fatal => Level.error.name
  | level => level.name

/-- The fields that a call cannot change. -/
def reserved : List String := ["timestamp", "level", "message"]

/-- The fields of an entry that is written at a moment, before its error is reported. -/
def entryFields (now : Moment) (level : Level) (message : String) (fields : Value)
    (l : ConsoleLogger) : Fields Value :=
  let own := (fieldsOf fields).filter fun f => !reserved.contains f.1
  Fields.overlay
    (Fields.overlay
      [("timestamp", .text now.iso), ("level", .text level.name), ("message", .text message)]
      l.context)
    own

/-- Fields with the report of an error in its place. -/
def reported (now : Moment) (fields : Fields Value) : Except LogFault (Fields Value) :=
  match Fields.get? "err" fields with
  | some (.error head context cause) =>
    match Report.ofValue true now (.error head context cause) with
    | some report => .ok (Fields.set "err" report.toValue fields)
    | none => .error .offCalendar
  | _ => .ok fields

/-- The record of an entry that is written at a moment. -/
def payload (now : Moment) (level : Level) (message : String) (fields : Value)
    (l : ConsoleLogger) : Except LogFault (Fields Value) :=
  reported now (l.entryFields now level message fields)

/-- What is written in the place of an entry that contains itself. -/
def failureText : String :=
  (Json.object [("message", .text "Failed to stringify log payload")]).toText

/-- Fields as one line of JSON. -/
def jsonLine (now : Moment) (fields : Fields Value) : String :=
  match (Value.record fields).encode .strict (some now) 0 .itself with
  | .ok (some j) => j.toText
  | _ => failureText

/-- The fields after the words, and the stack text that is taken out of the error. -/
def splitStack (fields : Fields Value) : Fields Value × Option String :=
  let rest := fields.filter fun f => !(reserved.contains f.1 || f.1 = "err")
  match Fields.get? "err" fields with
  | none => (rest, none)
  | some (.record err) =>
    let inner := (Value.record err).fields
    match Fields.get? "stack" inner with
    | none => (Fields.set "err" (.record err) rest, none)
    | some stack =>
      let stack? := match stack with
        | .text s => some s
        | .half unit => some (Text.ofUnit unit)
        | _ => none
      (Fields.set "err" (.record (Fields.erase "stack" inner)) rest, stack?)
  | some err => (Fields.set "err" err rest, none)

/-- The plain text of a field. -/
def word (name : String) (fields : Fields Value) : Except LogFault String :=
  match ((Fields.get? name fields).getD .undefined).plain? [] with
  | some words => .ok words
  | none => .error .noPlainText

/-- A text with two blanks at the start of each line. -/
def indented (s : String) : String :=
  String.ofList (' ' :: ' ' :: s.toList.flatMap fun c => if c = '\n' then ['\n', ' ', ' '] else [c])

/-- The three words in front of an entry. -/
def headLine (fields : Fields Value) : Except LogFault String := do
  let timestamp ← word "timestamp" fields
  let level ← word "level" fields
  let message ← word "message" fields
  return timestamp ++ " " ++ Text.upper level ++ " " ++ message

/-- An entry in words. -/
def prettyLines (now : Moment) (fields : Fields Value) : Except LogFault String := do
  let head ← headLine fields
  let (rest, stack) := splitStack fields
  let line := head ++ (if rest.isEmpty then "" else " " ++ jsonLine now rest)
  return match stack with
    | none => line
    | some stack => if stack = "" then line else line ++ "\n" ++ indented stack

/-- The text of an entry. -/
def entryText (now : Moment) (entry : Fields Value) (l : ConsoleLogger) : Except LogFault String :=
  if l.pretty then prettyLines now entry else .ok (jsonLine now entry)

/-- Writes an entry, if its level is let through. -/
def write (now : Clock) (level : Level) (message : String) (fields : Value)
    (l : ConsoleLogger) : Except LogFault (Option ConsoleLine) :=
  if l.lets level then
    match now.moment? with
    | none => .error .offCalendar
    | some now => do
      let entry ← l.payload now level message fields
      return some ⟨method level, ← l.entryText now entry⟩
  else .ok none

instance : EntryLogger ConsoleLogger ConsoleLine where
  child _ := child
  write := write

end ConsoleLogger
end StorageKit
