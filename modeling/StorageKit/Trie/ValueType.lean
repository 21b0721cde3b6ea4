/-
Types of stored values.

A value type is a token: a value is read back only through the token it was written with.  Two
tokens with the same name and the same schema are different tokens, so each has an identity.

* `ValueType` — identity, name and schema;
* `ValueType.isSame` — the same token;
* `ValueType.accepts` — values that may be read and written through it;
* `ValueType.uint32`, `uint64`, `string`, `number`, `boolean` — the tokens that are always there.
-/
import StorageKit.Schema.Basic

namespace StorageKit

/-- A token for a type of stored values. -/
structure ValueType where
  identity : Nat
  name : String
  schema : Schema
  deriving Repr

namespace ValueType

/-- The same token, whatever the names and schemas are. -/
def isSame (a b : ValueType) : Bool := a.identity = b.identity

/-- The value fits the schema, with the shared records as they are now. -/
def accepts (objects : Objects) (t : ValueType) (v : Value) : Bool := t.schema.accepts objects v

/-- What is wrong with a value, as text. -/
def complaints (objects : Objects) (t : ValueType) (v : Value) : String :=
  Issue.report (t.schema.issues objects v)

/-- Whole numbers of 32 bits. -/
def uint32 : ValueType :=
  ⟨0, "uint32", .number [.integer, .atLeast 0, .atMost 4294967295]⟩

/-- Whole numbers of 64 bits. -/
def uint64 : ValueType := ⟨1, "uint64", .bigint 0 18446744073709551615⟩

def string : ValueType := ⟨2, "string", .text⟩

def number : ValueType := ⟨3, "number", .number []⟩

def boolean : ValueType := ⟨4, "boolean", .boolean⟩

/-- The tokens that are always there. -/
def builtin : List ValueType := [uint32, uint64, string, number, boolean]

/-- A new token, given how many there are already. -/
def define (count : Nat) (name : String) (schema : Schema) : ValueType := ⟨count, name, schema⟩

end ValueType
end StorageKit
