/-
What is found under a name.

* `Value.properties`, `Value.property` — what a value holds under names, inherited texts included;
* `Value.isObject` — values that can hold properties;
* `Value.operations` — the operations that come with values of a kind, beside those that come with
  every record;
* `Place`, `Place.find?` — where a record finds what was not written into it, and what it finds;
* `Layered` — the fields of a record together with this place: `Layered.write`, `Layered.find?`,
  `Layered.listed`.

Design notes: what is written at `Members.parent` is no field.  It chooses the place: an object
takes the place of what comes with every record and answers instead, with that behind it, `null`
leaves nothing to be found, and any other value changes nothing.  This works as long as the place
knows what the name is for.  With no place any more, or with a record as the place that has a field
of this name, what is written at `Members.parent` is a field like any other.
-/
import StorageKit.Value.Basic

namespace StorageKit
namespace Value

/-- Everything an error holds under a name. -/
def errorProperties (head : ErrorHead) (context : Fields Value) (cause : Value) : Fields Value :=
  let own : Fields Value :=
    [("name", .text head.name), ("message", .text head.message), ("stack", .text head.stack)] ++
      if cause.isUndefined then [] else [("cause", cause)]
  match head.details with
  | none => own
  | some d =>
    own ++ [("code", .text d.code), ("context", .record context),
      ("isRetryable", .bool d.isRetryable), ("isOperational", .bool d.isOperational),
      ("timestamp", .date d.timestamp)]

/-- Everything a value holds under a name. -/
def properties : Value → Fields Value
  | .error head context cause => errorProperties head context cause
  | .list items => (Value.list items).fields ++ [("length", .number (.ofNat items.length))]
  | v => v.fields

/-- What a value holds under a name, nothing if there is no such property. -/
def property (v : Value) (name : String) : Value :=
  (Fields.get? name v.properties).getD .undefined

/-- A list, a record, a moment, a handle or an error: anything that can hold properties. -/
def isObject : Value → Bool
  | .date _ | .page _ | .list _ | .record _ | .shared _ | .back _ | .error .. => true
  | _ => false

/-- The operations that come with values of a kind, beside those that come with every record. -/
def operations : Value → List String
  | .list _ => Members.ofLists
  | .date _ => Members.ofMoments
  | .error head _ _ => if head.details.isSome then ["toJSON"] else []
  | .method _ => ["apply", "bind", "call"]
  | _ => []

end Value

/-- Where a record finds what was not written into it. -/
inductive Place where
  /-- Among the operations that come with every record. -/
  | members
  | nowhere
  /-- In another object. -/
  | object (v : Value)

namespace Place

/-- The place that a value chooses which is written at `Members.parent`. -/
def of? : Value → Option Place
  | .null => some .nowhere
  | .method name => some (.object (.method name))
  | v => if v.isObject then some (.object v) else none

/-- What is found at a place. -/
def find? (name : String) : Place → Option Value
  | .members => if Members.isInherited name then some (.inherited name) else none
  | .nowhere => none
  | .object v =>
    (Fields.get? name v.properties).or
      (if name = Members.parent then some v
      else if v.operations.contains name || Members.isInherited name then some (.method name)
      else none)

/-- What is written at `Members.parent` chooses another place. -/
def gives : Place → Bool
  | .members => true
  | .nowhere => false
  | .object v => !Fields.has Members.parent v.properties

end Place

/-- The fields of a record, and where it finds what was not written into it. -/
structure Layered where
  fields : Fields Value
  place : Place

namespace Layered

def empty : Layered := ⟨[], .members⟩

/-- What is written at `Members.parent` chooses the place. -/
def isMovable (r : Layered) : Bool := !Fields.has Members.parent r.fields && r.place.gives

/-- Writes a value under a name. -/
def write (name : String) (v : Value) (r : Layered) : Layered :=
  if name = Members.parent ∧ r.isMovable then
    { r with place := (Place.of? v).getD r.place }
  else { r with fields := Fields.set name v r.fields }

/-- Writes values under names, in order. -/
def writeAll (fields : Fields Value) (r : Layered) : Layered :=
  fields.foldl (fun r field => r.write field.1 field.2) r

/-- What a record answers to a name: what was written into it, or else what its place answers. -/
def find? (name : String) (r : Layered) : Option Value :=
  (Fields.get? name r.fields).or (r.place.find? name)

/-- The fields that a record lists: what was written into it, and behind it what an object as its
place lists under other names. -/
def listed (r : Layered) : Fields Value :=
  match r.place with
  | .object v => r.fields ++ v.fields.filter fun field => !Fields.has field.1 r.fields
  | _ => r.fields

end Layered
end StorageKit
