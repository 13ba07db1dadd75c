import SexpScript.Json.Basic
import SexpScript.Text.Quoted

/-! # Showing JSON

    A value as a user sees it.  A string is shown as its text, and there is nothing to show where
    it is none.  Any other value is described on one line: `None`, `True`, a list in brackets, a
    string inside a list in quotes.

    A number with a point or an exponent is shown by its own digits and its power of ten.  The
    shortest text of the nearest float, which the program would show, is not modelled.
-/

namespace SexpScript

namespace Text

/-- One code point of a quoted string. -/
def quotePoint (mark : Char) (n : Nat) : List Char :=
  if isSurrogate n then '\\' :: 'u' :: hex 4 n else quoteChar mark (Char.ofNat n)

/-- The quoted form of units. -/
def quotedUnits (units : List Nat) : String :=
  let ps := points units
  let mark := quoteMark (ps.map Char.ofNat)
  String.ofList (mark :: ps.flatMap (quotePoint mark) ++ [mark])

end Text

namespace Json

/-- A number by its digits and its power of ten. -/
def describeDecimal (negative : Bool) (mantissa : Nat) (exponent : Int) : String :=
  (if negative then "-" else "") ++ toString mantissa ++ "e" ++ toString exponent

/-- Fields with each name once: where it first stood, and with the last of its values. -/
def distinct {α : Type} (fields : List (List Nat × α)) : List (List Nat × α) :=
  fields.foldl (fun found field =>
    if found.any fun f => f.1 = field.1 then
      found.map fun f => if f.1 = field.1 then field else f
    else found ++ [field]) []

mutual

/-- A value on one line. -/
def describe : Json → String
  | .null => "None"
  | .bool value => if value then "True" else "False"
  | .integer value => toString value
  | .decimal negative mantissa exponent => describeDecimal negative mantissa exponent
  | .notANumber => "nan"
  | .infinity negative => if negative then "-inf" else "inf"
  | .string units => Text.quotedUnits units
  | .array items => "[" ++ ", ".intercalate (describeItems items) ++ "]"
  | .object fields =>
      let texts := (distinct (describeFields fields)).map fun field =>
        Text.quotedUnits field.1 ++ ": " ++ field.2
      "\x7b" ++ ", ".intercalate texts ++ "\x7d"

/-- The items of an array. -/
def describeItems : List Json → List String
  | [] => []
  | item :: items => describe item :: describeItems items

/-- The fields of an object, each with its name. -/
def describeFields : List (List Nat × Json) → List (List Nat × String)
  | [] => []
  | (name, value) :: fields => (name, describe value) :: describeFields fields

end

/-- What is shown of a value, where it can be shown. -/
def display? : Json → Option String
  | .string units => Text.ofUnits? units
  | value => some value.describe

end Json

end SexpScript
