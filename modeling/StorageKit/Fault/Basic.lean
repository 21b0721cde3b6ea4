/-
The failures of this library.

Each failure is a cause with the facts that describe it.  From the cause follow its code, its
message, its context, and whether it is part of normal operation:

* `ReplacerFault` — frames out of range, pinned frames, re-entered operations, bad settings;
* `TrieFault` — rejected values, bad settings of a store;
* `ConfigFault` — a configuration that does not fit its schema;
* `Fault` — any of them; `Fault.toValue` is the failure as an error value, made at a moment.
-/
import StorageKit.Value.Text

namespace StorageKit

/-- Failures of a replacer. -/
inductive ReplacerFault where
  | frameOutOfRange (frame numFrames : Number)
  | frameNotEvictable (frame : Number)
  | reentered
  | invalidConfig (numFrames k : Number)
  deriving DecidableEq, Repr

namespace ReplacerFault

def code : ReplacerFault → String
  | .frameOutOfRange .. => "frame_out_of_range"
  | .frameNotEvictable _ => "frame_not_evictable"
  | .reentered => "replacer_reentered"
  | .invalidConfig .. => "invalid_replacer_config"

def message : ReplacerFault → String
  | .frameOutOfRange frame numFrames =>
    "Frame " ++ frame.text ++ " is outside the replacer range [0, " ++ numFrames.text ++ "]"
  | .frameNotEvictable frame => "Frame " ++ frame.text ++ " is pinned and cannot be removed"
  | .reentered => "Replacer was re-entered while an operation was in progress"
  | .invalidConfig numFrames k =>
    "Invalid replacer configuration: numFrames and k must be positive integers (numFrames="
      ++ numFrames.text ++ ", k=" ++ k.text ++ ")"

def context : ReplacerFault → Fields Value
  | .frameOutOfRange frame numFrames =>
    [("frameId", .number frame), ("numFrames", .number numFrames)]
  | .frameNotEvictable frame => [("frameId", .number frame)]
  | .reentered => []
  | .invalidConfig numFrames k => [("numFrames", .number numFrames), ("k", .number k)]

/-- Only bad settings are part of normal operation. -/
def isOperational : ReplacerFault → Bool
  | .invalidConfig .. => true
  | _ => false

end ReplacerFault

/-- Failures of tries and of stores of tries. -/
inductive TrieFault where
  | invalidValue (key valueType details : String)
  | invalidStoreConfig (maxVersions : Value)
  deriving Repr

namespace TrieFault

def code : TrieFault → String
  | .invalidValue .. => "invalid_trie_value"
  | .invalidStoreConfig _ => "invalid_trie_store_config"

def message : TrieFault → String
  | .invalidValue key valueType details =>
    "Value for key \"" ++ key ++ "\" is not a valid " ++ valueType ++ ":\n" ++ details
  | .invalidStoreConfig maxVersions =>
    "maxVersions must be a non-negative integer (got " ++ (maxVersions.plain? []).getD "" ++ ")"

def context : TrieFault → Fields Value
  | .invalidValue key valueType _ => [("key", .text key), ("valueType", .text valueType)]
  | .invalidStoreConfig maxVersions => [("maxVersions", maxVersions)]

/-- Only bad settings are part of normal operation. -/
def isOperational : TrieFault → Bool
  | .invalidStoreConfig _ => true
  | .invalidValue .. => false

end TrieFault

/-- A configuration that does not fit its schema. -/
inductive ConfigFault where
  | invalid (details : String) (sources : List String)
  deriving DecidableEq, Repr

namespace ConfigFault

def code : ConfigFault → String
  | .invalid .. => "config_invalid"

def message : ConfigFault → String
  | .invalid details _ => "Configuration validation failed:\n" ++ details

def context : ConfigFault → Fields Value
  | .invalid _ sources => [("sources", .list (sources.map .text))]

end ConfigFault

/-- Any failure of this library. -/
inductive Fault where
  | replacer (fault : ReplacerFault)
  | trie (fault : TrieFault)
  | config (fault : ConfigFault)
  deriving Repr

namespace Fault

/-- The name of the class of its errors. -/
def className : Fault → String
  | .replacer _ => "ReplacerError"
  | .trie _ => "TrieError"
  | .config _ => "ConfigError"

def code : Fault → String
  | .replacer f => f.code
  | .trie f => f.code
  | .config f => f.code

def message : Fault → String
  | .replacer f => f.message
  | .trie f => f.message
  | .config f => f.message

def context : Fault → Fields Value
  | .replacer f => f.context
  | .trie f => f.context
  | .config f => f.context

def isOperational : Fault → Bool
  | .replacer f => f.isOperational
  | .trie f => f.isOperational
  | .config _ => true

/-- The failure as an error that is made at a moment, if it is on the calendar.  Trying again never
helps. -/
def toValue (now : Option Moment) (f : Fault) : Value :=
  .error
    { className := f.className
      name := f.className
      nameAssigned := true
      message := f.message
      stack := ""
      details := some
        { code := f.code
          isRetryable := false
          isOperational := f.isOperational
          timestamp := now } }
    f.context .undefined

end Fault
end StorageKit
