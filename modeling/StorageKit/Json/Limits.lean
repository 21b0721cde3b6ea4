/-
How large a document may be.

* `Json.Limits` — how many levels of lists and objects a document may have, and how many entries
  each of them;
* `Json.Limits.shortItems`, `Json.Limits.shortFields` — the entries that are kept, with a remark on
  what is missing if there are more.

Design notes: of an object that is too long the fields with the first names are kept, in the order
of their units.  A list keeps silent about a single missing item.  The remark is made by the
caller's means, since the entries need not be documents yet.
-/
import StorageKit.Text.Units

namespace StorageKit
namespace Json

/-- How deep a document may be nested, and how many entries its lists and objects may have. -/
structure Limits where
  depth : Nat
  breadth : Nat
  deriving Repr, DecidableEq

namespace Limits

/-- The remark on entries that are missing. -/
def missing (n : Nat) : String :=
  toString n ++ (if n = 1 then " item" else " items") ++ " not stringified"

variable {α : Type}

/-- The first items of a list, with a remark if it is longer. -/
def shortItems (l : Limits) (remark : String → α) (items : List α) : List α :=
  items.take l.breadth ++
    (if items.length ≤ l.breadth + 1 then []
      else [remark ("... " ++ missing (items.length - l.breadth - 1))])

/-- The first fields of an object, with a remark if it has more. -/
def shortFields (l : Limits) (remark : String → α) (fields : List (String × α)) :
    List (String × α) :=
  let sorted := fields.mergeSort fun a b => Text.unitLE a.1 b.1
  sorted.take l.breadth ++
    (if fields.length ≤ l.breadth then []
      else [("...", remark (missing (fields.length - l.breadth)))])

end Limits
end Json
end StorageKit
