/-
JSON documents and their text.

* `Json` — a document; a number is the token it is written with;
* `Json.render` — its characters, without blanks, fields in order;
* `Json.toText` — the same as a string.

Design notes: the writer works on lists of characters, so that what is written for a part stands
unchanged inside what is written for the whole.
-/
import StorageKit.Json.Quoted

namespace StorageKit

/-- A JSON document. -/
inductive Json where
  | null
  | bool (b : Bool)
  | number (token : String)
  | text (s : String)
  /-- A text of one unit of 16 bits that is half of a character. -/
  | half (unit : Nat)
  | list (items : List Json)
  | object (fields : List (String × Json))
  deriving Repr

namespace Json

instance : Inhabited Json := ⟨.null⟩

mutual

/-- The characters of a document. -/
def render : Json → List Char
  | .null => ['n', 'u', 'l', 'l']
  | .bool true => ['t', 'r', 'u', 'e']
  | .bool false => ['f', 'a', 'l', 's', 'e']
  | .number token => token.toList
  | .text s => Quoted.encode s
  | .half unit => '"' :: (Quoted.escapeUnit unit ++ ['"'])
  | .list items => '[' :: (renderItems items ++ [']'])
  | .object fields => '\x7b' :: (renderFields fields ++ ['\x7d'])
termination_by structural j => j

/-- The items of a list, with commas between them. -/
def renderItems : List Json → List Char
  | [] => []
  | [j] => render j
  | j :: rest => render j ++ ',' :: renderItems rest
termination_by structural items => items

/-- The fields of an object, with commas between them. -/
def renderFields : List (String × Json) → List Char
  | [] => []
  | [(k, j)] => Quoted.encode k ++ ':' :: render j
  | (k, j) :: rest => Quoted.encode k ++ ':' :: (render j ++ ',' :: renderFields rest)
termination_by structural fields => fields

end

/-- The text of a document. -/
def toText (j : Json) : String := String.ofList (render j)

end Json
end StorageKit
