/-
Settings of a replacer and its surroundings.

Six variables, each with a default: `APP_ENV`, `SERVICE_NAME`, `REPLACER_NUM_FRAMES`,
`REPLACER_K`, `LOG_LEVEL` and `LOG_PRETTY`.

* `Settings` — the settings, by meaning;
* `Settings.schema` — the variables and what they may hold;
* `Settings.ofFields` — the settings that validated variables stand for;
* `Settings.load` — from the environment, with overrides that win over it;
* `Settings.toValue` — the settings as a record.
-/
import StorageKit.Config.Load
import StorageKit.Log.Level

namespace StorageKit

/-- The settings of a replacer and its surroundings. -/
structure Settings where
  environment : Wording
  level : String
  pretty : Bool
  serviceName : Wording
  numFrames : Number
  k : Number
  deriving DecidableEq, Repr

namespace Settings

/-- What holds when no variable is given. -/
def default : Settings :=
  { environment := "development"
    level := "info"
    pretty := false
    serviceName := "keel"
    numFrames := .ofNat 64
    k := .ofNat 2 }

/-- The variables, and what they may hold. -/
def schema : Schema :=
  .ofFields .drop
    [("APP_ENV", .default (.ofWording default.environment), .text),
      ("SERVICE_NAME", .default (.ofWording default.serviceName), .text),
      ("REPLACER_NUM_FRAMES", .default (.number default.numFrames), .positiveInteger),
      ("REPLACER_K", .default (.number default.k), .positiveInteger),
      ("LOG_LEVEL", .default (.text default.level), .choice Level.names),
      ("LOG_PRETTY", .default (.bool default.pretty), .flag)]

/-- A text among validated variables. -/
def wording (fields : Fields Value) (name : String) (fallback : Wording) : Wording :=
  match Fields.get? name fields with
  | some (.text s) => .text s
  | some (.half unit) => .half unit
  | _ => fallback

/-- One of some given texts among validated variables. -/
def choice (fields : Fields Value) (name fallback : String) : String :=
  match Fields.get? name fields with
  | some (.text s) => s
  | _ => fallback

/-- A number among validated variables. -/
def number (fields : Fields Value) (name : String) (fallback : Number) : Number :=
  match Fields.get? name fields with
  | some (.number x) => x
  | _ => fallback

/-- A flag among validated variables. -/
def flag (fields : Fields Value) (name : String) (fallback : Bool) : Bool :=
  match Fields.get? name fields with
  | some (.bool b) => b
  | _ => fallback

/-- The settings that validated variables stand for. -/
def ofFields (fields : Fields Value) : Settings :=
  { environment := wording fields "APP_ENV" default.environment
    level := choice fields "LOG_LEVEL" default.level
    pretty := flag fields "LOG_PRETTY" default.pretty
    serviceName := wording fields "SERVICE_NAME" default.serviceName
    numFrames := number fields "REPLACER_NUM_FRAMES" default.numFrames
    k := number fields "REPLACER_K" default.k }

/-- The settings that a value stands for, if it is a record of valid variables. -/
def ofValue (v : Value) : Except (List Issue) Settings :=
  (schema.parse [] v).map fun
    | .record fields => ofFields fields
    | _ => default

/-- The settings of an environment, where overrides win. -/
def load (environment overrides : Fields Value) : Except LoadFailure Settings :=
  (Config.load schema.validator
    [Source.environment none environment, Source.overrides overrides]).map fun c =>
      ofFields c.data

/-- The settings as a record, by what they are about. -/
def toValue (s : Settings) : Value :=
  .record
    [("app", .record [("env", .ofWording s.environment)]),
      ("logging", .record
        [("level", .text s.level), ("prettify", .bool s.pretty),
          ("serviceName", .ofWording s.serviceName)]),
      ("replacer", .record [("numFrames", .number s.numFrames), ("k", .number s.k)])]

end Settings
end StorageKit
