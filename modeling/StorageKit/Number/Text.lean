/-
Numbers as decimal text.

`Number.text` writes the fewest digits that read back as the same number and, of those, the ones
nearest to it.  The parts:

* `Number.decimalOrder` — the least `p` with the value below `10 ^ p`;
* `Number.shortest` — the digits and the power of ten;
* `Layout` — how digits are set: where positional notation begins and ends;
* `Layout.number` — the layout of this library: positional from `10 ^ -6` up to below
  `10 ^ 21`, otherwise one digit, a point, the rest, and a signed exponent.

Design notes: the search is over the number of digits.  For each count it tests the value's two
neighbours on that decimal grid against the interval of reals that round to the value, in exact
arithmetic: if any point of the grid lies in the interval, one of the two neighbours does.
-/
import StorageKit.Number.Basic

namespace StorageKit
namespace Number

/-- The interval of reals that round to a number, in quarters of its last binary place
`2 ^ place`: the ends belong to it exactly when the significand is even. -/
structure Rounding where
  place : Int
  low : Nat
  value : Nat
  high : Nat
  closed : Bool
  deriving Repr

/-- The interval of the number `m * 2 ^ e`, for positive `m`. -/
def rounding (m : Nat) (e : Int) : Rounding :=
  let place := max leastExponent ((m.log2 : Int) + e - 52)
  let significand := m * raise 2 (e - place)
  let narrow := significand = raise 2 52 ∧ leastExponent < place
  { place
    low := if narrow then 4 * significand - 1 else 4 * significand - 2
    value := 4 * significand
    high := 4 * significand + 2
    closed := significand % 2 = 0 }

/-- The value `m * 2 ^ e` is less than `10 ^ p`. -/
def isBelow (m : Nat) (e p : Int) : Bool :=
  m * raise 2 e * raise 10 (-p) < raise 10 p * raise 2 (-e)

/-- The least `p` with `m * 2 ^ e < 10 ^ p`, for a positive number of the format.  The decimal
logarithm of two is close to `30103 / 100000`, which leaves three candidates. -/
def decimalOrder (m : Nat) (e : Int) : Int :=
  let guess := Int.fdiv (((m.log2 : Int) + e) * 30103) 100000
  if isBelow m e guess then guess
  else if isBelow m e (guess + 1) then guess + 1
  else guess + 2

/-- A neighbour on the grid of `10 ^ power` that rounds to the value, the nearer of two. -/
def onGrid? (r : Rounding) (power : Int) : Option Nat :=
  let unit := raise 10 power * raise 2 (2 - r.place)
  let quarter := raise 10 (-power) * raise 2 (r.place - 2)
  let inside (d : Nat) : Bool :=
    if r.closed then r.low * quarter ≤ d * unit && d * unit ≤ r.high * quarter
    else r.low * quarter < d * unit && d * unit < r.high * quarter
  let target := r.value * quarter
  let below := target / unit
  let above := below + 1
  match inside below, inside above with
  | true, false => some below
  | false, true => some above
  | false, false => none
  | true, true =>
    let under := target - below * unit
    let beyond := above * unit - target
    if under < beyond then some below
    else if beyond < under then some above
    else if below % 2 = 0 then some below else some above

/-- The fewest digits, and the power of ten of the last one, that read back as `m * 2 ^ e`. -/
def shortest (m : Nat) (e : Int) : Nat × Int :=
  let r := rounding m e
  let p := decimalOrder m e
  let found := (List.range 17).findSome? fun (n : Nat) =>
    let power := p - 1 - (n : Int)
    (onGrid? r power).map fun d => (d, power)
  found.getD (m * raise 2 e, 0)

/-- Drops the zeros at the end of a list of digits, counting them into the power. -/
def dropZeros (digits : List Char) (power : Int) : List Char × Int :=
  let kept := (digits.reverse.dropWhile (· = '0')).reverse
  (kept, power + ((digits.length - kept.length : Nat) : Int))

/-- How digits are set out.  The point lies `order` places after the first digit's front;
positional notation is for orders above `least` and up to `greatest`. -/
structure Layout where
  least : Int
  greatest : Int
  deriving Repr

/-- Positional notation from `10 ^ -6` up to below `10 ^ 21`. -/
def Layout.number : Layout := ⟨-6, 21⟩

/-- The digits `ds`, read as `0.ds * 10 ^ order`, set out by a layout. -/
def Layout.set (l : Layout) (ds : List Char) (order : Int) : String :=
  if ds.length ≤ order ∧ order ≤ l.greatest then
    String.ofList (ds ++ List.replicate (order - ds.length).toNat '0')
  else if 0 < order ∧ order ≤ l.greatest then
    String.ofList (ds.take order.toNat ++ '.' :: ds.drop order.toNat)
  else if l.least < order ∧ order ≤ 0 then
    String.ofList ('0' :: '.' :: List.replicate (-order).toNat '0' ++ ds)
  else
    let exponent := order - 1
    let mantissa := match ds with
      | [] => []
      | [d] => [d]
      | d :: rest => d :: '.' :: rest
    let sign := if exponent < 0 then '-' else '+'
    String.ofList (mantissa ++ 'e' :: sign :: (toString exponent.natAbs).toList)

/-- A number as text: the fewest digits that read back; a zero has no sign. -/
def text : Number → String
  | .nan => "NaN"
  | .infinite negative => if negative then "-Infinity" else "Infinity"
  | .finite negative m e =>
    if m = 0 then "0"
    else
      let (d, power) := shortest m e
      let (ds, power) := dropZeros (Nat.toDigits 10 d) power
      (if negative then "-" else "") ++ Layout.number.set ds (power + (ds.length : Int))

end Number
end StorageKit
