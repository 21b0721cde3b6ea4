/-
Reports of errors.

A report is what is written down about a thrown value: name, code, message, context, whether the
failure is part of normal operation, a time, and the report of its cause.

* `Report.ofValue` — an error with details keeps them; any other error has the code `unknown` and
  no context; a thrown value that is no error is reported under the name `NonErrorThrown`, a text
  as the message and any other value in the context;
* `Report.bySelf?` — the report that an error with details makes of itself;
* `Report.isDated` — all times of a report are on the calendar; otherwise there is no report;
* `Report.toValue` — the report as a record, the fields in the order above, then the cause and the
  stack text if there are any.

Design notes: an error with details keeps the time it was made; all else is stamped with the time
of the report.  A cause that was given nothing is no cause; every other cause is one, even `null`
or an empty text.
-/
import StorageKit.Value.Basic

namespace StorageKit

/-- What is written down about a thrown value. -/
structure Report where
  name : String
  code : String
  message : Wording
  context : List (String × Value)
  isOperational : Bool
  timestamp : Moment
  cause : Option Report
  stack : Option String

namespace Report

/-- A stack text is kept only on request and only if there is one. -/
def stackOf (withStack : Bool) (head : ErrorHead) : Option String :=
  if withStack && head.stack ≠ "" then some head.stack else none

/-- The context under which a thrown value that is no error is reported. -/
def wrapping : Value → Fields Value
  | .text _ | .half _ => []
  | v => [("value", v)]

/-- The message under which a thrown value that is no error is reported. -/
def messageOf : Value → Wording
  | .text s => .text s
  | .half unit => .half unit
  | _ => "Unknown error"

/-- The report of a thrown value at a time, if all its times are on the calendar. -/
def ofValue (withStack : Bool) (now : Option Moment) : Value → Option Report
  | .error head context cause => do
    let timestamp ← match head.details with
      | some details => details.timestamp
      | none => now
    let cause? ← match cause with
      | .undefined => some none
      | _ => (ofValue withStack now cause).map some
    match head.details with
    | some details =>
      return {
        name := head.name
        code := details.code
        message := head.message
        context
        isOperational := details.isOperational
        timestamp
        cause := cause?
        stack := stackOf withStack head }
    | none =>
      return {
        name := head.name
        code := "unknown"
        message := head.message
        context := []
        isOperational := false
        timestamp
        cause := cause?
        stack := stackOf withStack head }
  | v =>
    now.map fun timestamp =>
      { name := "NonErrorThrown"
        code := "unknown"
        message := messageOf v
        context := wrapping v
        isOperational := false
        timestamp
        cause := none
        stack := none }

/-- The report that an error makes of itself.  Only an error with details makes one, and never with
a stack text. -/
def bySelf? (now : Option Moment) : Value → Option Report
  | .error head context cause =>
    if head.details.isSome then ofValue false now (.error head context cause) else none
  | _ => none

/-- All times of the report are on the calendar. -/
def isDated (now : Option Moment) : Value → Bool
  | .error head _ cause =>
    let own := match head.details with
      | some details => details.timestamp
      | none => now
    own.isSome && (cause.isUndefined || isDated now cause)
  | _ => now.isSome

theorem isSome_withCause (cause : Option Report) (f : Option Report → Report) :
    ((cause.map some).bind fun c => some (f c)).isSome = cause.isSome := by
  cases cause <;> rfl

/-- There is a report exactly when all its times are on the calendar. -/
theorem isSome_ofValue (withStack : Bool) (now : Option Moment) (v : Value) :
    (ofValue withStack now v).isSome = isDated now v := by
  induction v using isDated.induct now with
  | case1 head context cause ih =>
    rw [ofValue, isDated]
    cases hd : head.details with
    | none => cases now <;> cases cause <;> simp_all [Value.isUndefined, isSome_withCause]
    | some details =>
      cases ht : details.timestamp <;> cases cause <;>
        simp_all [Value.isUndefined, isSome_withCause]
  | case2 v h => cases v <;> simp_all [ofValue, isDated]

/-- The fields of a report that are always there. -/
def heading (name code : String) (message : Wording) (context : Fields Value)
    (isOperational : Bool) (timestamp : Moment) : Fields Value :=
  [("name", .text name), ("code", .text code), ("message", .ofWording message),
    ("context", .record context), ("isOperational", .bool isOperational),
    ("timestamp", .text timestamp.iso)]

/-- A stack text as a field, if there is one. -/
def stackField (stack : Option String) : Fields Value :=
  match stack with
  | some stack => [("stack", .text stack)]
  | none => []

/-- The report as a record. -/
def toValue : Report → Value
  | ⟨name, code, message, context, isOperational, timestamp, cause, stack⟩ =>
    .record
      (heading name code message context isOperational timestamp
        ++ (match cause with
          | some cause => [("cause", cause.toValue)]
          | none => [])
        ++ stackField stack)
termination_by structural r => r

end Report
end StorageKit
