/-
Texts as units of 16 bits.

A character up to `U+FFFF` is one unit; any other is two, the halves of a pair: the first from
`D800` to `DBFF`, the second from `DC00` to `DFFF`.

* `Text.unitsOf`, `Text.units` — the units of a character and of a text;
* `Text.joinUnits` — the characters that units stand for: halves that belong together are one
  character, a half by itself is the replacement character; `Text.ofUnit` — the text of one unit;
* `Text.unitLE` — the order of texts by their units, in which a character of two units comes before
  the last ones of one unit;
* `Wording` — a text of characters, or a single unit that is half of one.
-/
namespace StorageKit

/-- A text of characters, or of one unit that is half of a character. -/
inductive Wording where
  | text (s : String)
  | half (unit : Nat)
  deriving DecidableEq, Repr

instance : Coe String Wording := ⟨.text⟩

namespace Text

/-- The units of a character. -/
def unitsOf (c : Char) : List Nat :=
  let n := c.toNat
  if n < 0x10000 then [n] else [0xd800 + (n - 0x10000) / 0x400, 0xdc00 + (n - 0x10000) % 0x400]

/-- The units of a text. -/
def units (s : String) : List Nat := s.toList.flatMap unitsOf

/-- The first half of a pair. -/
def isFirstHalf (u : Nat) : Bool := 0xd800 ≤ u && u < 0xdc00

/-- The second half of a pair. -/
def isSecondHalf (u : Nat) : Bool := 0xdc00 ≤ u && u < 0xe000

/-- The character that stands for what is none. -/
def replacement : Char := '\ufffd'

/-- The characters that units stand for; characters of any size may stand among the units. -/
def joinUnits : List Nat → List Char
  | u :: v :: rest =>
    if isFirstHalf u && isSecondHalf v then
      Char.ofNat (0x10000 + (u - 0xd800) * 0x400 + (v - 0xdc00)) :: joinUnits rest
    else if isFirstHalf u || isSecondHalf u then replacement :: joinUnits (v :: rest)
    else Char.ofNat u :: joinUnits (v :: rest)
  | [u] => if isFirstHalf u || isSecondHalf u then [replacement] else [Char.ofNat u]
  | [] => []

/-- The text of a single unit. -/
def ofUnit (unit : Nat) : String := String.ofList (joinUnits [unit % 0x10000])

/-- The first list does not come after the second: the first place in which they differ decides,
and a list comes before those that continue it. -/
def listLE : List Nat → List Nat → Bool
  | [], _ => true
  | _ :: _, [] => false
  | u :: us, v :: vs => u < v || (u == v && listLE us vs)

/-- The first text does not come after the second. -/
def unitLE (s t : String) : Bool := listLE (units s) (units t)

end Text
end StorageKit
