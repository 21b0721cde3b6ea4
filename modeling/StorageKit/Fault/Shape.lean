/-
Telling errors by their shape.

Errors that crossed a boundary may no longer be of the error type, so they are recognised by what
they hold: a code, a context that is a record or a list, the two flags, a moment on the calendar,
a message and a name.

* `Value.isAppError` — the test;
* `Value.without` — a value after some of its own properties were taken away: an error falls back
  on the name and the message that every error inherits.
-/
import StorageKit.Value.Property

namespace StorageKit
namespace Value

def isText : Value → Bool
  | .text _ | .half _ => true
  | _ => false

def isBool : Value → Bool
  | .bool _ => true
  | _ => false

/-- A moment that the calendar covers. -/
def isMoment : Value → Bool
  | .date (some t) => t.isInRange
  | _ => false

/-- Has the shape of an error of this library. -/
def isAppError (v : Value) : Bool :=
  v.isObject && (v.property "code").isText && (v.property "context").isObject
    && (v.property "isRetryable").isBool && (v.property "isOperational").isBool
    && (v.property "timestamp").isMoment && (v.property "message").isText
    && (v.property "name").isText

/-- What every error has when it has nothing of its own there. -/
def inheritedByErrors : Fields Value := [("name", .text "Error"), ("message", .text "")]

/-- The value after its own properties of some names were taken away. -/
def without (names : List String) : Value → Value
  | .error head context cause =>
    .record (Fields.overlay inheritedByErrors
      ((errorProperties head context cause).filter fun f => !names.contains f.1))
  | .record fs => .record (fs.filter fun f => !names.contains f.1)
  | v => v

end Value
end StorageKit
