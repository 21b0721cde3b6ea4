/-
Binary floating-point numbers, as exact values.

A `Number` is a signed dyadic rational `± significand * 2 ^ exponent`, an infinity, or not a
number.  Zero keeps its sign.  Nothing here is approximate except the two operations that round:

* `Number.ofRatio` — the nearest number of the 64-bit format to a quotient of two naturals, a
  half going to the neighbour with the even significand, too large a quotient to infinity;
* `Number.ofDecimal` — the same for a decimal literal.

The other main definitions:

* `Number.ofNat`, `Number.ofInt` — whole numbers, rounded when they need more than 53 bits;
* `Number.toInt?`, `Number.toNat?` — the whole number a number is, if it is one;
* `Number.compare?` — the order of values; both zeros are equal and nothing compares with `nan`;
* `a < b` for ranks: both zeros are one rank, and `nan` is neither below nor above any rank;
* `Number.floor` — the integer at or below a number.

Design notes: significands are kept odd, so a value has one representation and two numbers are
the same value exactly when they are equal or both are zero.
-/
namespace StorageKit

/-- A number of the 64-bit binary format. -/
inductive Number where
  | nan
  | infinite (negative : Bool)
  | finite (negative : Bool) (significand : Nat) (exponent : Int)
  deriving DecidableEq, Repr

namespace Number

/-- Zero with a plus sign. -/
def zero : Number := .finite false 0 0

/-- Zero with a minus sign. -/
def minusZero : Number := .finite true 0 0

instance : Inhabited Number := ⟨zero⟩

/-- Moves factors of two, at most `fuel` of them, from the significand to the exponent. -/
def shiftTwos : Nat → Nat → Int → Nat × Int
  | 0, m, e => (m, e)
  | fuel + 1, m, e => if m % 2 = 0 then shiftTwos fuel (m / 2) (e + 1) else (m, e)

/-- The number `± m * 2 ^ e`, which is taken to need no rounding. -/
def ofParts (negative : Bool) (m : Nat) (e : Int) : Number :=
  if m = 0 then .finite negative 0 0
  else
    let parts := shiftTwos m.log2 m e
    .finite negative parts.1 parts.2

/-- The quotient `num / den` to the nearest natural, a half to the even one. -/
def roundHalfEven (num den : Nat) : Nat :=
  let q := num / den
  let r := num % den
  if 2 * r < den then q
  else if den < 2 * r then q + 1
  else if q % 2 = 0 then q else q + 1

/-- A base to a whole power, `1` for a negative one.  A quotient of two such powers, of `e` and of
`-e`, is the base to the power `e` in either case. -/
def raise (base : Nat) (e : Int) : Nat := Nat.pow base e.toNat

/-- The least binary exponent of the 64-bit format. -/
def leastExponent : Int := -1074

/-- The largest `e` with `2 ^ e ≤ num / den`, for positive `num` and `den`. -/
def binaryOrder (num den : Nat) : Int :=
  let guess : Int := (num.log2 : Int) - den.log2
  if den * raise 2 guess ≤ num * raise 2 (-guess) then guess else guess - 1

/-- The number of the 64-bit format nearest to `± num / den`. -/
def ofRatio (negative : Bool) (num den : Nat) : Number :=
  if num = 0 then .finite negative 0 0
  else
    let e := max leastExponent (binaryOrder num den - 52)
    let m := roundHalfEven (num * raise 2 (-e)) (den * raise 2 e)
    if m ≠ 0 ∧ 1024 ≤ (m.log2 : Int) + e then .infinite negative else ofParts negative m e

/-- The number nearest to `± digits * 10 ^ power`.  Powers far outside the range of the format
are not computed: they give infinity or zero at once. -/
def ofDecimal (negative : Bool) (digits : Nat) (power : Int) : Number :=
  let order := power + ((Nat.toDigits 10 digits).length : Int)
  if digits = 0 then .finite negative 0 0
  else if 400 < order then .infinite negative
  else if order < -400 then .finite negative 0 0
  else ofRatio negative (digits * raise 10 power) (raise 10 (-power))

/-- The number nearest to a natural. -/
def ofNat (n : Nat) : Number := ofRatio false n 1

/-- The number nearest to an integer. -/
def ofInt (i : Int) : Number := ofRatio (i < 0) i.natAbs 1

/-- Neither an infinity nor `nan`. -/
def isFinite : Number → Bool
  | .finite .. => true
  | _ => false

/-- An integer from its sign and its magnitude. -/
def signed (negative : Bool) (magnitude : Nat) : Int :=
  if negative then -(magnitude : Int) else magnitude

/-- The integer a number is, if it is one. -/
def toInt? : Number → Option Int
  | .finite negative m e =>
    if m % raise 2 (-e) = 0 then
      some (signed negative (m * raise 2 e / raise 2 (-e)))
    else none
  | _ => none

/-- The natural a number is, if it is one; a zero of either sign is `0`. -/
def toNat? (x : Number) : Option Nat :=
  match x.toInt? with
  | some (.ofNat n) => some n
  | _ => none

/-- The integer a number is closest to on the side of zero. -/
def truncate? : Number → Option Int
  | .finite negative m e =>
    some (signed negative (m * raise 2 e / raise 2 (-e)))
  | _ => none

/-- The integer at or below a number; infinities and `nan` stay what they are. -/
def floor (x : Number) : Number :=
  match x.toInt?, x.truncate?, x with
  | none, some towardsZero, .finite negative _ _ =>
    .ofInt (if negative then towardsZero - 1 else towardsZero)
  | _, _, x => x

/-- The signed significand of a finite number, as a multiple of `2 ^ e`. -/
def scaled (negative : Bool) (m : Nat) (e least : Int) : Int :=
  signed negative (m * raise 2 (e - least))

/-- The order of two values, `none` when one of them is `nan`. -/
def compare? : Number → Number → Option Ordering
  | .nan, _ => none
  | _, .nan => none
  | .infinite a, .infinite b =>
    some (if a = b then .eq else if a then .lt else .gt)
  | .infinite a, .finite .. => some (if a then .lt else .gt)
  | .finite .., .infinite b => some (if b then .gt else .lt)
  | .finite a m e, .finite b n f =>
    let least := min e f
    some (compare (scaled a m e least) (scaled b n f least))

/-- Ranks: `a` comes before `b`. -/
instance : LT Number := ⟨fun a b => compare? a b = some .lt⟩

instance (a b : Number) : Decidable (a < b) :=
  inferInstanceAs (Decidable (compare? a b = some .lt))

/-- The same number with a zero's sign forgotten. -/
def plainZero : Number → Number
  | .finite _ 0 _ => zero
  | x => x

/-- Equal as a key: both zeros are one key, and so is `nan`. -/
def sameKey (a b : Number) : Bool := a.plainZero = b.plainZero

end Number
end StorageKit
