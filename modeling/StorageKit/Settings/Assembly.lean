/-
Putting a replacer together from settings.

* `Settings.replacer` — the replacer;
* `Settings.logger` — the logger that its settings ask for, with the service and the environment
  as its context;
* `Replacer.logContext` — what a replacer adds to the context of the logger it is given;
* `EntryLogger.listener` — a logger of entries as a logger of reports, which collects what it
  wrote.
-/
import StorageKit.Log.Structured
import StorageKit.Replacer.Logger
import StorageKit.Settings.Basic

namespace StorageKit

/-- What a replacer adds to the context of the logger it is given. -/
def Replacer.logContext : Fields Value :=
  [("module", .text "buffer"), ("component", .text "lru-k-replacer")]

namespace Settings

/-- The context of the logger that settings ask for. -/
def logContext (s : Settings) : Fields Value :=
  [("service", .ofWording s.serviceName), ("env", .ofWording s.environment)]

/-- The logger that settings ask for; it fails for a level that does not exist. -/
def logger (now : Clock) (s : Settings) : Except LogFault StructuredLogger := do
  (← StructuredLogger.new now s.level (.record s.logContext)).child now
    (.record Replacer.logContext)

/-- The replacer that settings ask for. -/
def replacer (s : Settings) : Except ReplacerFault Replacer :=
  (Replacer.Settings.ofNumbers s.numFrames s.k).map Replacer.new

end Settings

/-- A logger of entries that hears the reports of a replacer and collects what it writes. -/
def EntryLogger.listener {L Out : Type} [EntryLogger L Out] (now : Clock) (l : L) :
    Logger (List Out) := fun entry written =>
  match EntryLogger.write now entry.level entry.message (.record entry.fields) l with
  | .ok out => .done (written ++ out.toList)
  | .error fault => .fail (.error fault.message) written

end StorageKit
