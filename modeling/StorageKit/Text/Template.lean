/-
Templates with one place to fill.

A template is a text in which a percent sign and a letter ask for the argument:

* `%s` — as it is; `%d` and `%f` — as a number; `%i` — as the integer at or below it; `%j`, `%o`
  and `%O` — between single quotes;
* `%%` — a percent sign;
* with any other character, the percent sign stands for itself but takes the argument with it.

There is one argument.  Once it is taken, all that asks for it stands for itself.  The main
definition is `Text.fill`.
-/
import StorageKit.Number.Numeral
import StorageKit.Number.Text

namespace StorageKit
namespace Text

/-- What a letter makes of the argument, if it asks for it. -/
def filling? (letter : Char) (argument : String) : Option (List Char) :=
  match letter with
  | 's' => some argument.toList
  | 'd' | 'f' => some (Number.ofText argument).text.toList
  | 'i' => some (Number.ofText argument).floor.text.toList
  | 'j' | 'o' | 'O' => some ('\'' :: argument.toList ++ ['\''])
  | _ => none

/-- The characters of a template, with the argument if it is not taken yet. -/
def fillFrom : Option String → List Char → List Char
  | _, [] => []
  | _, ['%'] => ['%']
  | argument, '%' :: '%' :: rest => '%' :: fillFrom argument rest
  | none, '%' :: rest => '%' :: fillFrom none rest
  | some argument, '%' :: letter :: rest =>
    match filling? letter argument with
    | some filling => filling ++ fillFrom none rest
    | none => '%' :: letter :: fillFrom none rest
  | argument, c :: rest => c :: fillFrom argument rest

/-- A template with an argument in its place. -/
def fill (template argument : String) : String :=
  String.ofList (fillFrom (some argument) template.toList)

end Text
end StorageKit
