/-
Blank characters: the white space and line ends of Unicode, with the byte order mark.

* `Text.isBlank` — one character;
* `Text.trim` — a text without the blanks at its two ends.
-/
namespace StorageKit
namespace Text

/-- The space separators of Unicode, its two separators of lines and paragraphs, the control
characters from the tab to the carriage return, and the byte order mark. -/
def isBlank (c : Char) : Bool :=
  let n := c.val
  (0x09 ≤ n && n ≤ 0x0d) || n = 0x20 || n = 0xa0 || n = 0x1680 || (0x2000 ≤ n && n ≤ 0x200a)
    || n = 0x2028 || n = 0x2029 || n = 0x202f || n = 0x205f || n = 0x3000 || n = 0xfeff

/-- Without the blanks at either end. -/
def trim (cs : List Char) : List Char :=
  ((cs.dropWhile isBlank).reverse.dropWhile isBlank).reverse

end Text
end StorageKit
