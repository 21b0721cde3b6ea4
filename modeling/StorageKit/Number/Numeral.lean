/-
Reading numbers from text.

`Number.ofText` reads a whole text as one numeral, with blanks around it ignored:

* no characters at all are zero;
* `0x`, `0o` and `0b`, in either case, start an unsigned numeral of base 16, 8 or 2;
* `Infinity`, in exactly this case, and decimals may have a sign; a decimal has digits before or
  after its point, or both, and may have an exponent;
* any other text is not a number.

Main definitions: `Numeral.digits`, `Numeral.radix?`, `Numeral.decimal?`.
-/
import StorageKit.Number.Basic
import StorageKit.Text.Blank

namespace StorageKit
namespace Numeral

/-- A digit of a base up to 16, letters in either case. -/
def digit? (base : Nat) (c : Char) : Option Nat :=
  let value? : Option Nat :=
    if '0' ≤ c ∧ c ≤ '9' then some (c.toNat - '0'.toNat)
    else if 'a' ≤ c ∧ c ≤ 'f' then some (c.toNat - 'a'.toNat + 10)
    else if 'A' ≤ c ∧ c ≤ 'F' then some (c.toNat - 'A'.toNat + 10)
    else none
  value?.filter (· < base)

/-- A decimal digit. -/
def isDigit (c : Char) : Bool := (digit? 10 c).isSome

/-- The value of a list of digits, `none` if one of them is no digit of the base. -/
def value? (base : Nat) : Nat → List Char → Option Nat
  | acc, [] => some acc
  | acc, c :: rest =>
    match digit? base c with
    | some d => value? base (acc * base + d) rest
    | none => none

/-- The value of decimal digits; a character that is none counts as zero. -/
def decimalValue (cs : List Char) : Nat :=
  cs.foldl (fun acc c => acc * 10 + (digit? 10 c).getD 0) 0

/-- The base that the letter after a leading zero announces. -/
def radix? (c : Char) : Option Nat :=
  if c = 'x' ∨ c = 'X' then some 16
  else if c = 'o' ∨ c = 'O' then some 8
  else if c = 'b' ∨ c = 'B' then some 2
  else none

/-- An exponent, with its letter; the empty text is the exponent zero. -/
def exponent? : List Char → Option Int
  | [] => some 0
  | c :: rest =>
    if c = 'e' ∨ c = 'E' then
      let (negative, ds) := match rest with
        | '-' :: ds => (true, ds)
        | '+' :: ds => (false, ds)
        | ds => (false, ds)
      if ds.isEmpty || !ds.all isDigit then none
      else
        let magnitude : Int := (decimalValue ds : Int)
        some (if negative then -magnitude else magnitude)
    else none

/-- A decimal without a sign. -/
def decimal? (negative : Bool) (cs : List Char) : Option Number :=
  let whole := cs.takeWhile isDigit
  let rest := cs.dropWhile isDigit
  let (fraction, rest) := match rest with
    | '.' :: more => (more.takeWhile isDigit, more.dropWhile isDigit)
    | _ => ([], rest)
  if whole.isEmpty && fraction.isEmpty then none
  else (exponent? rest).map fun power =>
    Number.ofDecimal negative (decimalValue (whole ++ fraction)) (power - (fraction.length : Int))

/-- A decimal or an infinity, with or without a sign. -/
def signed? (cs : List Char) : Option Number :=
  let (negative, rest) := match cs with
    | '-' :: rest => (true, rest)
    | '+' :: rest => (false, rest)
    | rest => (false, rest)
  if rest = "Infinity".toList then some (.infinite negative) else decimal? negative rest

/-- A numeral without blanks around it. -/
def read? (cs : List Char) : Option Number :=
  match cs with
  | [] => some .zero
  | '0' :: c :: ds =>
    match radix? c with
    | some base => if ds.isEmpty then none else (value? base 0 ds).map Number.ofNat
    | none => signed? cs
  | _ => signed? cs

end Numeral

/-- The number a text stands for, `nan` if it stands for none. -/
def Number.ofText (s : String) : Number :=
  (Numeral.read? (Text.trim s.toList)).getD .nan

end StorageKit
