import SexpScript.Text.Blank
import SexpScript.Text.Digit

/-! # Numerals

    A chunk counts as a number when it begins with one, after blanks and an
    optional sign.  What follows the beginning is not looked at, so `1abc` is
    a number too.
-/

namespace SexpScript.Token

/-- The text without one leading sign. -/
def dropSign : List Char → List Char
  | '+' :: cs => cs
  | '-' :: cs => cs
  | cs => cs

/-- Whether an unsigned number begins here: the word `Infinity`, a digit, or a
    point before a digit. -/
def startsUnsigned : List Char → Bool
  | '.' :: c :: _ => Text.isDecimal c
  | c :: cs => Text.isDecimal c || "Infinity".toList.isPrefixOf (c :: cs)
  | [] => false

/-- Whether a text begins with a number. -/
def isNumeral (text : String) : Bool := startsUnsigned (dropSign (Text.trimStart text.toList))

end SexpScript.Token
