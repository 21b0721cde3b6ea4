/-
Quoted text, as JSON writes it.

Between quotes, a quote and a backslash follow a backslash, five control characters have letters
of their own, the other characters below the space are four hexadecimal digits, and everything
else stands for itself.

* `Quoted.escape` — one character;
* `Quoted.escapeUnit` — a number of 16 bits by its digits;
* `Quoted.body` — a text between its quotes;
* `Quoted.encode` — with the quotes.
-/
namespace StorageKit
namespace Quoted

/-- A hexadecimal digit, letters in lower case. -/
def hexDigit (n : Nat) : Char :=
  if n < 10 then Char.ofNat ('0'.toNat + n) else Char.ofNat ('a'.toNat + (n - 10))

/-- Four hexadecimal digits between quotes. -/
def escapeUnit (n : Nat) : List Char :=
  ['\\', 'u', hexDigit (n / 0x1000 % 16), hexDigit (n / 0x100 % 16), hexDigit (n / 0x10 % 16),
    hexDigit (n % 16)]

/-- The characters that stand for one character between quotes. -/
def escape (c : Char) : List Char :=
  if c = '"' then ['\\', '"']
  else if c = '\\' then ['\\', '\\']
  else if c = '\x08' then ['\\', 'b']
  else if c = '\x0c' then ['\\', 'f']
  else if c = '\n' then ['\\', 'n']
  else if c = '\r' then ['\\', 'r']
  else if c = '\t' then ['\\', 't']
  else if c.toNat < 0x20 then escapeUnit c.toNat
  else [c]

/-- A text between its quotes. -/
def body (cs : List Char) : List Char := cs.flatMap escape

/-- A text with its quotes. -/
def encode (s : String) : List Char := '"' :: (body s.toList ++ ['"'])

end Quoted
end StorageKit
