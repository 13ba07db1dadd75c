import SexpScript.Json.Basic
import SexpScript.Json.Literal
import SexpScript.Nesting
import SexpScript.Text.Digit

/-! # Reading JSON

    A document is one value with blanks around it.  Besides what the format
    asks for, the words `NaN`, `Infinity` and `-Infinity` are values.

    Reading has two limits: the digits of a whole number, and the levels of arrays and objects.
    It stops at the first obstacle that it comes to, whatever follows.

    The readers of nested values carry fuel.  Every two steps consume a character
    at least, so twice the length of the text is always enough.
-/

namespace SexpScript.Json

/-! ### Blanks and numbers -/

/-- A character that may stand between the parts of a document. -/
def isGap (c : Char) : Bool := c = ' ' || c = '\t' || c = '\n' || c = '\r'

/-- The text without leading gaps. -/
def skipGap (cs : List Char) : List Char := cs.dropWhile isGap

/-- The text after a word with which it begins. -/
def after? (word : String) (cs : List Char) : Option (List Char) :=
  if word.toList.isPrefixOf cs then some (cs.drop word.length) else none

/-- The leading digits of a text, and the rest. -/
def splitDigits (cs : List Char) : List Char × List Char :=
  (cs.takeWhile Char.isDigit, cs.dropWhile Char.isDigit)

/-- The digits before the point: a zero stands alone. -/
def readWhole? : List Char → Option (List Char × List Char)
  | '0' :: cs => some (['0'], cs)
  | cs =>
      match splitDigits cs with
      | ([], _) => none
      | split => some split

/-- The digits after the point, where there is a point and a digit after it. -/
def readFraction : List Char → List Char × List Char
  | '.' :: cs =>
      match splitDigits cs with
      | ([], _) => ([], '.' :: cs)
      | split => split
  | cs => ([], cs)

/-- The digits of an exponent with its sign. -/
def readSigned : List Char → Option (Int × List Char)
  | '-' :: cs =>
      match splitDigits cs with
      | ([], _) => none
      | (digits, rest) => some (-(Text.digitsValue digits : Int), rest)
  | '+' :: cs =>
      match splitDigits cs with
      | ([], _) => none
      | (digits, rest) => some (Text.digitsValue digits, rest)
  | cs =>
      match splitDigits cs with
      | ([], _) => none
      | (digits, rest) => some (Text.digitsValue digits, rest)

/-- The exponent, where there is one. -/
def readExponent : List Char → Option Int × List Char
  | c :: cs =>
      if c = 'e' ∨ c = 'E' then
        match readSigned cs with
        | some (exponent, rest) => (some exponent, rest)
        | none => (none, c :: cs)
      else (none, c :: cs)
  | [] => (none, [])

/-- The digits that a whole number may have. -/
def digitLimit : Nat := 4300

/-- The number of its parts.  It is whole where there is neither a point nor an exponent. -/
def ofParts (negative : Bool) (whole fraction : List Char) (exponent : Option Int) :
    Except Obstacle Json :=
  match fraction, exponent with
  | [], none =>
      if digitLimit < whole.length then .error .tooManyDigits
      else
        let n : Int := Text.digitsValue whole
        .ok (.integer (if negative then -n else n))
  | fraction, exponent =>
      .ok (.decimal negative (Text.digitsValue (whole ++ fraction))
        (exponent.getD 0 - fraction.length))

/-- Read a number behind its sign. -/
def readUnsigned (negative : Bool) (cs : List Char) : Except Obstacle (Json × List Char) :=
  match readWhole? cs with
  | none => .error .malformed
  | some (whole, cs) =>
      let (fraction, cs) := readFraction cs
      let (exponent, rest) := readExponent cs
      (ofParts negative whole fraction exponent).map fun value => (value, rest)

/-- Read a number, or a word in the place of one. -/
def readNumber (cs : List Char) : Except Obstacle (Json × List Char) :=
  match after? "NaN" cs, after? "Infinity" cs, after? "-Infinity" cs with
  | some rest, _, _ => .ok (.notANumber, rest)
  | _, some rest, _ => .ok (.infinity false, rest)
  | _, _, some rest => .ok (.infinity true, rest)
  | none, none, none =>
      match cs with
      | '-' :: cs => readUnsigned true cs
      | cs => readUnsigned false cs

/-- Read a value that holds no others and is no string. -/
def readScalar (cs : List Char) : Except Obstacle (Json × List Char) :=
  match after? "null" cs, after? "true" cs, after? "false" cs with
  | some rest, _, _ => .ok (.null, rest)
  | _, some rest, _ => .ok (.bool true, rest)
  | _, _, some rest => .ok (.bool false, rest)
  | none, none, none => readNumber cs

/-! ### Values -/

mutual

/-- Read a value with at most `levels` levels of arrays and objects. -/
def readValue : Nat → Nat → List Char → Except Obstacle (Json × List Char)
  | 0, _, _ => .error .malformed
  | fuel + 1, levels, cs =>
      match cs with
      | '"' :: cs =>
          match readUnits [] cs with
          | some (units, rest) => .ok (.string units, rest)
          | none => .error .malformed
      | '[' :: cs =>
          match levels with
          | 0 => .error .tooDeep
          | levels + 1 =>
              match skipGap cs with
              | ']' :: rest => .ok (.array [], rest)
              | cs => readItems fuel levels [] cs
      | '\x7b' :: cs =>
          match levels with
          | 0 => .error .tooDeep
          | levels + 1 =>
              match skipGap cs with
              | '\x7d' :: rest => .ok (.object [], rest)
              | cs => readFields fuel levels [] cs
      | cs => readScalar cs

/-- Read the items of an array up to its end.  `read` holds the items read so
    far, last first. -/
def readItems : Nat → Nat → List Json → List Char → Except Obstacle (Json × List Char)
  | 0, _, _, _ => .error .malformed
  | fuel + 1, levels, read, cs =>
      match readValue fuel levels cs with
      | .error obstacle => .error obstacle
      | .ok (item, cs) =>
          match skipGap cs with
          | ',' :: cs => readItems fuel levels (item :: read) (skipGap cs)
          | ']' :: rest => .ok (.array (item :: read).reverse, rest)
          | _ => .error .malformed

/-- Read the fields of an object up to its end.  `read` holds the fields read so
    far, last first. -/
def readFields : Nat → Nat → List (List Nat × Json) → List Char →
    Except Obstacle (Json × List Char)
  | 0, _, _, _ => .error .malformed
  | fuel + 1, levels, read, cs =>
      match cs with
      | '"' :: cs =>
          match readUnits [] cs with
          | none => .error .malformed
          | some (name, cs) =>
              match skipGap cs with
              | ':' :: cs =>
                  match readValue fuel levels (skipGap cs) with
                  | .error obstacle => .error obstacle
                  | .ok (value, cs) =>
                      match skipGap cs with
                      | ',' :: cs => readFields fuel levels ((name, value) :: read) (skipGap cs)
                      | '\x7d' :: rest => .ok (.object ((name, value) :: read).reverse, rest)
                      | _ => .error .malformed
              | _ => .error .malformed
      | _ => .error .malformed

end

/-- The value of a document. -/
def read (text : String) : Except Obstacle Json :=
  let cs := skipGap text.toList
  match readValue (2 * cs.length + 2) Nesting.replies cs with
  | .ok (value, rest) => if (skipGap rest).isEmpty then .ok value else .error .malformed
  | .error obstacle => .error obstacle

end SexpScript.Json
