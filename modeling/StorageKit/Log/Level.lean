/-
Severities of log entries.

* `Level` — from `trace` to `fatal`, with `Level.name` and `Level.severity`;
* `Level.ofName?` — the level of a name, in exactly the case it is written in;
* `Level.names` — all names in order.
-/
namespace StorageKit

/-- How severe a log entry is. -/
inductive Level where
  | trace
  | debug
  | info
  | warn
  | error
  | fatal
  deriving DecidableEq, Repr

namespace Level

/-- All levels, the least severe first. -/
def all : List Level := [.trace, .debug, .info, .warn, .error, .fatal]

def name : Level → String
  | .trace => "trace"
  | .debug => "debug"
  | .info => "info"
  | .warn => "warn"
  | .error => "error"
  | .fatal => "fatal"

/-- The name with a capital letter, as it stands in tables. -/
def title : Level → String
  | .trace => "Trace"
  | .debug => "Debug"
  | .info => "Info"
  | .warn => "Warn"
  | .error => "Error"
  | .fatal => "Fatal"

/-- The number of a level; a more severe level has a larger one. -/
def severity : Level → Nat
  | .trace => 10
  | .debug => 20
  | .info => 30
  | .warn => 40
  | .error => 50
  | .fatal => 60

/-- The level with this name. -/
def ofName? (s : String) : Option Level := all.find? fun l => l.name = s

/-- The names of all levels, the least severe first. -/
def names : List String := all.map name

end Level
end StorageKit
