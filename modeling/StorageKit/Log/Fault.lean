/-
Failures of loggers.

* `LogFault` — a level that does not exist, a logger without a context, an error that cannot be
  written, fields that hide what every record answers to;
* `LogFault.kind`, `LogFault.message` — the words for them.
-/
namespace StorageKit

/-- Why a logger could not be made, or an entry not be written. -/
inductive LogFault where
  | unknownLevel (name : String)
  /-- A level is named like something that comes with every record, but it has no number. -/
  | levelWithoutNumber
  /-- No record of fields, but nothing or `null`. -/
  | noFields
  /-- No bindings, but something that counts as false. -/
  | noBindings
  /-- The context of an error has a message of its own and is taken for an error, but it is sealed
  and cannot be marked as visited. -/
  | sealedContext
  /-- A value has no plain text. -/
  | noPlainText
  /-- The clock shows what is on no calendar. -/
  | offCalendar
  /-- Bindings hide the test for their own fields behind a field of its name. -/
  | hiddenTest
  /-- An operation that comes with every record, applied to no record. -/
  | noRecord (operation : String)
  /-- An operation that comes with every record, without the operation that it asks for. -/
  | noOperation (operation : String)
  deriving DecidableEq, Repr

namespace LogFault

/-- The kind of a failure: of a wrong use, of a wrong type, or of a number out of range. -/
def kind : LogFault → String
  | .unknownLevel _ | .levelWithoutNumber | .noBindings => "Error"
  | .offCalendar => "RangeError"
  | _ => "TypeError"

def message : LogFault → String
  | .unknownLevel name => "default level:" ++ name ++ " must be included in custom levels"
  | .levelWithoutNumber => "unknown level undefined"
  | .noFields => "Cannot convert undefined or null to object"
  | .noBindings => "missing bindings for child Pino"
  | .sealedContext => "Cannot add property Symbol(circular-ref-tag), object is not extensible"
  | .noPlainText => "Cannot convert object to primitive value"
  | .offCalendar => "Invalid time value"
  | .hiddenTest => "bindings.hasOwnProperty is not a function"
  | .noRecord operation => "Object.prototype." ++ operation ++ " called on null or undefined"
  | .noOperation operation => "Object.prototype." ++ operation ++ ": Expecting function"

end LogFault
end StorageKit
