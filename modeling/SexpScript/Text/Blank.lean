/-! # Blank characters

    The characters that separate words of source text.  Besides the usual
    blanks these are the four information separators `U+001C` to `U+001F`
    and every space character of the other scripts.
-/

namespace SexpScript.Text

/-- A character that separates words. -/
def isBlank (c : Char) : Bool :=
  let n := c.toNat
  (0x9 ≤ n && n ≤ 0xD) || (0x1C ≤ n && n ≤ 0x20) || n == 0x85 || n == 0xA0 || n == 0x1680 ||
    (0x2000 ≤ n && n ≤ 0x200A) || n == 0x2028 || n == 0x2029 || n == 0x202F || n == 0x205F ||
    n == 0x3000

/-- The text without its leading blanks. -/
def trimStart (cs : List Char) : List Char := cs.dropWhile isBlank

/-- The text without blanks on either side. -/
def trim (cs : List Char) : List Char := (trimStart (trimStart cs).reverse).reverse

/-- A blank that carries no information separator: the blanks that may
    surround a number in a setting. -/
def isSpacing (c : Char) : Bool := isBlank c && !(0x1C ≤ c.toNat && c.toNat ≤ 0x1F)

/-- The text without spacing on either side. -/
def trimSpacing (cs : List Char) : List Char :=
  ((cs.dropWhile isSpacing).reverse.dropWhile isSpacing).reverse

end SexpScript.Text
