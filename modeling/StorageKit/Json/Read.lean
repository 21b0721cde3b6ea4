/-
Reading JSON documents.

`Json.read?` reads a whole text as one document.  Blanks may stand around every part.  A number is
kept as the token it is written with.  A name that stands several times in an object counts once,
with its last value.

* `Quoted.read?` — the text up to the closing quote;
* `Numeral.isToken` — the numbers that JSON knows;
* `Json.Reader.value`, `Json.Reader.items`, `Json.Reader.members` — one part and what follows it.

Design notes: the readers call each other, so they are told how many parts may still be opened.
Each part takes a character at least, so the length of the text is enough.  Between quotes, a
character may be written as one or two units of 16 bits; a half without the other is read as the
replacement character.
-/
import StorageKit.Json.Basic
import StorageKit.Number.Numeral
import StorageKit.Record.Fields
import StorageKit.Text.Units

namespace StorageKit
namespace Quoted

/-- The number of four hexadecimal digits. -/
def unit? (a b c d : Char) : Option Nat := Numeral.value? 16 0 [a, b, c, d]

/-- The character that a letter behind a backslash stands for. -/
def unescape? (c : Char) : Option Char :=
  if c = '"' ∨ c = '\\' ∨ c = '/' then some c
  else if c = 'b' then some '\x08'
  else if c = 'f' then some '\x0c'
  else if c = 'n' then some '\n'
  else if c = 'r' then some '\r'
  else if c = 't' then some '\t'
  else none

/-- One more unit in front of what was read. -/
def withUnit (u : Nat) (read : List Nat × List Char) : List Nat × List Char :=
  (u :: read.1, read.2)

/-- The units up to the closing quote, and what follows it. -/
def units? : List Char → Option (List Nat × List Char)
  | [] => none
  | '"' :: rest => some ([], rest)
  | '\\' :: 'u' :: a :: b :: c :: d :: rest => do
    let u ← unit? a b c d
    return withUnit u (← units? rest)
  | '\\' :: e :: rest => do
    let c ← unescape? e
    return withUnit c.toNat (← units? rest)
  | c :: rest => do
    if c.toNat < 0x20 || c = '\\' then none
    return withUnit c.toNat (← units? rest)

/-- The text up to the closing quote, and what follows it. -/
def read? (cs : List Char) : Option (String × List Char) :=
  (units? cs).map fun (us, rest) => (String.ofList (Text.joinUnits us), rest)

end Quoted

namespace Numeral

/-- Digits of a whole number: a zero only by itself. -/
def isWhole (ds : List Char) : Bool :=
  match ds with
  | ['0'] => true
  | '0' :: _ => false
  | ds => !ds.isEmpty && ds.all isDigit

/-- Digits of an exponent, with or without a sign. -/
def isExponent (cs : List Char) : Bool :=
  let ds := match cs with
    | '-' :: ds => ds
    | '+' :: ds => ds
    | ds => ds
  !ds.isEmpty && ds.all isDigit

/-- What may follow the whole part of a number: a fraction, an exponent, or both. -/
def isTail (cs : List Char) : Bool :=
  let rest? := match cs with
    | '.' :: more =>
      if (more.takeWhile isDigit).isEmpty then none else some (more.dropWhile isDigit)
    | cs => some cs
  match rest? with
  | none => false
  | some [] => true
  | some (e :: more) => (e = 'e' || e = 'E') && isExponent more

/-- A number as JSON writes it. -/
def isToken (cs : List Char) : Bool :=
  let unsigned := match cs with
    | '-' :: rest => rest
    | rest => rest
  isWhole (unsigned.takeWhile isDigit) && isTail (unsigned.dropWhile isDigit)

end Numeral

namespace Json
namespace Reader

/-- Blanks between the parts of a document. -/
def isBlank (c : Char) : Bool := c = ' ' || c = '\t' || c = '\n' || c = '\r'

/-- What follows the blanks at the start. -/
def skip (cs : List Char) : List Char := cs.dropWhile isBlank

/-- The characters of numbers. -/
def isNumeric (c : Char) : Bool :=
  Numeral.isDigit c || c = '-' || c = '+' || c = '.' || c = 'e' || c = 'E'

/-- A number at the start, and what follows it. -/
def number? (cs : List Char) : Option (Json × List Char) :=
  let token := cs.takeWhile isNumeric
  if Numeral.isToken token then some (.number (String.ofList token), cs.dropWhile isNumeric)
  else none

mutual

/-- The document at the start, and what follows it. -/
def value : Nat → List Char → Option (Json × List Char)
  | 0, _ => none
  | fuel + 1, cs =>
    match skip cs with
    | 'n' :: 'u' :: 'l' :: 'l' :: rest => some (.null, rest)
    | 't' :: 'r' :: 'u' :: 'e' :: rest => some (.bool true, rest)
    | 'f' :: 'a' :: 'l' :: 's' :: 'e' :: rest => some (.bool false, rest)
    | '"' :: rest => (Quoted.read? rest).map fun (s, rest) => (.text s, rest)
    | '[' :: rest =>
      match skip rest with
      | ']' :: rest => some (.list [], rest)
      | rest => (items fuel rest).map fun (xs, rest) => (.list xs, rest)
    | '\x7b' :: rest =>
      match skip rest with
      | '\x7d' :: rest => some (.object [], rest)
      | rest => (members fuel rest).map fun (fs, rest) => (.object (Fields.ofList fs), rest)
    | rest => number? rest

/-- Items up to the closing bracket, and what follows it. -/
def items : Nat → List Char → Option (List Json × List Char)
  | 0, _ => none
  | fuel + 1, cs =>
    match value fuel cs with
    | none => none
    | some (j, rest) =>
      match skip rest with
      | ',' :: rest => (items fuel rest).map fun (xs, rest) => (j :: xs, rest)
      | ']' :: rest => some ([j], rest)
      | _ => none

/-- Members up to the closing brace, and what follows it. -/
def members : Nat → List Char → Option (List (String × Json) × List Char)
  | 0, _ => none
  | fuel + 1, cs =>
    match skip cs with
    | '"' :: rest =>
      match Quoted.read? rest with
      | none => none
      | some (name, rest) =>
        match skip rest with
        | ':' :: rest =>
          match value fuel rest with
          | none => none
          | some (j, rest) =>
            match skip rest with
            | ',' :: rest => (members fuel rest).map fun (fs, rest) => ((name, j) :: fs, rest)
            | '\x7d' :: rest => some ([(name, j)], rest)
            | _ => none
        | _ => none
    | _ => none

end

end Reader

/-- The document that a text is, if it is one. -/
def read? (cs : List Char) : Option Json :=
  match Reader.value (2 * cs.length + 1) cs with
  | some (j, rest) => if (Reader.skip rest).isEmpty then some j else none
  | none => none

end Json
end StorageKit
