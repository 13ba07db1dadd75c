import SexpScript.Text.Hex
import SexpScript.Text.Printable

/-! # Quoted text

    The one-line form in which diagnostics show a text.  The text stands in
    single quotes, or in double quotes when it holds a single quote and no
    double one.  Line breaks, tabs and characters that cannot be printed are
    spelled out, so the form never breaks a log line.
-/

namespace SexpScript.Text

/-- The single quote. -/
def singleQuote : Char := Char.ofNat 0x27

/-- The double quote. -/
def doubleQuote : Char := Char.ofNat 0x22

/-- The quote that surrounds a text. -/
def quoteMark (cs : List Char) : Char :=
  if cs.contains singleQuote && !cs.contains doubleQuote then doubleQuote else singleQuote

/-- A character that cannot be printed, by its number in the fewest of two,
    four or eight digits. -/
def spellOut (c : Char) : List Char :=
  let n := c.toNat
  if n < 0x100 then '\\' :: 'x' :: hex 2 n
  else if n < 0x10000 then '\\' :: 'u' :: hex 4 n
  else '\\' :: 'U' :: hex 8 n

/-- One character of a quoted text. -/
def quoteChar (mark c : Char) : List Char :=
  if c = mark ∨ c = '\\' then ['\\', c]
  else if c = '\n' then ['\\', 'n']
  else if c = '\r' then ['\\', 'r']
  else if c = '\t' then ['\\', 't']
  else if isPrintable c then [c]
  else spellOut c

/-- The quoted form of a text. -/
def quoted (text : String) : String :=
  let cs := text.toList
  let mark := quoteMark cs
  String.ofList (mark :: cs.flatMap (quoteChar mark) ++ [mark])

end SexpScript.Text
