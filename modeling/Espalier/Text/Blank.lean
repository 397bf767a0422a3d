/-!
# Blank characters

The Unicode `White_Space` property: the characters that trimming removes from the end of a
logical line. It holds the ASCII blanks and line breaks together with the wider spaces and
separators of the rest of the repertoire, twenty-five characters in all.
-/

namespace Espalier.Text

/-- Membership in the Unicode `White_Space` property. -/
def isBlank (c : Char) : Bool :=
  let n := c.toNat
  (0x09 ≤ n && n ≤ 0x0D) || n == 0x20 || n == 0x85 || n == 0xA0 || n == 0x1680 ||
  (0x2000 ≤ n && n ≤ 0x200A) || n == 0x2028 || n == 0x2029 || n == 0x202F || n == 0x205F ||
  n == 0x3000

/-- Drops trailing blanks. -/
def trimEnd (cs : List Char) : List Char :=
  (cs.reverse.dropWhile isBlank).reverse

/-- Drops leading and trailing blanks. -/
def trim (cs : List Char) : List Char :=
  trimEnd (cs.dropWhile isBlank)

end Espalier.Text
