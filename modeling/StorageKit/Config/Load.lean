/-
Loading configurations.

Sources are read in order and later ones override earlier ones; the values that result are handed
to a validator, which accepts them, with defaults added, or says what is wrong.

* `Gathered` — the values and where each came from, so far;
* `gather` — all sources in order, up to one that fails;
* `Validator` — any function from the record of gathered values, with its place, to validated
  fields; `Schema.validator` is the one of a record schema;
* `Config.load` — the configuration, or `LoadFailure`.

Design notes: a key enters the record of origins when a source first gives it and keeps its place
when a later source overrides it; keys that only the validator adds follow, and keys that are not
in the result are dropped.  The values are written into one record, so what a source gives at
`Members.parent` chooses where that record finds what no source gave.  The names of sources are
written into another one, in which they choose nothing, and a key that every record answers to
counts as a key with an origin.
-/
import StorageKit.Config.Basic
import StorageKit.Config.Source
import StorageKit.Schema.Basic
import StorageKit.Fault.Basic

namespace StorageKit

/-- A record of values, and the name of the source of each. -/
structure Gathered where
  values : Layered
  origins : Fields String

namespace Gathered

def empty : Gathered := ⟨.empty, []⟩

/-- One value of a source; nothing leaves what is there. -/
def supply (source : String) (g : Gathered) (field : String × Value) : Gathered :=
  if field.2.isUndefined then g
  else
    { values := g.values.write field.1 field.2
      origins :=
        if field.1 = Members.parent then g.origins else Fields.set field.1 source g.origins }

/-- All values of a source, in order. -/
def supplyAll (source : String) (fields : Fields Value) (g : Gathered) : Gathered :=
  fields.foldl (supply source) g

end Gathered

/-- Reads sources in order, up to one that fails. -/
def gather : List Source → Gathered → Except Value Gathered
  | [], g => .ok g
  | s :: rest, g =>
    match s.load with
    | .ok fields => gather rest (g.supplyAll s.name fields)
    | .error thrown => .error thrown

/-- Accepts gathered values, or says what is wrong with them. -/
abbrev Validator := Layered → Except (List Issue) (Fields Value)

/-- The validator of a record schema; no other schema makes fields of a record. -/
def Schema.validator (s : Schema) : Validator := fun values =>
  match s with
  | .record unknown fields =>
    Parsed.both Fields.overlay
      (parseFields [] values.find? fields)
      (checkUnknown unknown (unknownFields (Fields.names fields) values.listed))
  | s => (s.parse [] (.record values.fields)).map Value.fields

/-- Why a configuration could not be loaded. -/
inductive LoadFailure where
  | thrown (value : Value)
  | fault (fault : ConfigFault)

namespace Config

/-- The origins of the values of a result. -/
def provenanceOf (data : Fields Value) (origins : Fields String) : Fields String :=
  let all := (Fields.names data).foldl
    (fun acc key =>
      if Fields.has key acc || Members.isInherited key then acc else Fields.set key "default" acc)
    origins
  all.filter fun field => (Fields.names data).contains field.1

/-- Loads a configuration. -/
def load (validate : Validator) (sources : List Source) : Except LoadFailure Config :=
  match gather sources .empty with
  | .error thrown => .error (.thrown thrown)
  | .ok g =>
    match validate g.values with
    | .error issues =>
      .error (.fault (.invalid (Issue.report issues) (sources.map Source.name)))
    | .ok data =>
      .ok
        { data
          provenance := provenanceOf data g.origins
          mergedKeys := Fields.names g.values.fields }

end Config
end StorageKit
