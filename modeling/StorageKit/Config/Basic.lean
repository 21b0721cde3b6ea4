/-
Loaded configurations.

A configuration knows its values, which source each of them came from, and all keys that sources
gave.

* `Config.get`, `Config.keys` — the values;
* `Config.explain` — the source of a value, `default` for values that no source gave, and nothing
  for a name that every record answers to;
* `Config.sourcesUsed` — all sources of values, each once, in the order of the keys;
* `Config.unknownKeys` — the keys that sources gave and that are not in the configuration.
-/
import StorageKit.Value.Basic

namespace StorageKit

/-- Values, the source of each, and all keys that sources gave. -/
structure Config where
  data : Fields Value
  provenance : Fields String
  mergedKeys : List String

namespace Config

def keys (c : Config) : List String := Fields.names c.data

/-- The value of a key, or what every record answers to it. -/
def get (c : Config) (key : String) : Value := (Fields.get? key c.data).getD (.inherited key)

/-- The name of the source that gave the value of a key. -/
def explain (c : Config) (key : String) : Option String :=
  match Fields.get? key c.provenance with
  | some source => some source
  | none => if Members.isInherited key then none else some "default"

/-- The sources of values, each once. -/
def sourcesUsed (c : Config) : List String := (c.provenance.map Prod.snd).eraseDups

/-- The keys that sources gave and that are not in the configuration, each once. -/
def unknownKeys (c : Config) : List String :=
  c.mergedKeys.eraseDups.filter fun key => !c.keys.contains key

end Config
end StorageKit
