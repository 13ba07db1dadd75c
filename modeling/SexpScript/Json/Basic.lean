import SexpScript.Text.Units

/-! # JSON values

    What a child answers with.  A whole number is kept as such.  A number with a point or an
    exponent is kept exactly, as a whole number times a power of ten, though the program goes on
    with the float that is nearest to it.  The words for values that are no numbers are kept as
    they are.

    A string is a row of sixteen-bit units.  It may hold a surrogate without its partner, and
    then it is no text.
-/

namespace SexpScript

/-- A JSON value. -/
inductive Json where
  | null
  | bool (value : Bool)
  /-- A number without a point and an exponent. -/
  | integer (value : Int)
  /-- Any other number: `mantissa` times ten to the power of `exponent`, with its sign. -/
  | decimal (negative : Bool) (mantissa : Nat) (exponent : Int)
  | notANumber
  | infinity (negative : Bool)
  | string (units : List Nat)
  | array (items : List Json)
  /-- Fields in the order in which they were written; names may repeat. -/
  | object (fields : List (List Nat × Json))
  deriving Repr, BEq, Inhabited

namespace Json

/-- Why a text is not read. -/
inductive Obstacle where
  /-- It is no JSON. -/
  | malformed
  /-- A whole number has more digits than are read. -/
  | tooManyDigits
  /-- Arrays and objects are nested too deeply. -/
  | tooDeep
  deriving DecidableEq, Repr

/-- The string of a text. -/
def ofText (text : String) : Json := .string (Text.unitsOf text)

/-- The least float above zero is one half to this power. -/
def leastFloat : Nat := 1074

/-- Whether the float nearest to a number is zero.  Half of the least float above zero still goes
    to zero.  A power of ten beyond the number of binary digits makes no difference and is not
    worked out. -/
def vanishes (mantissa : Nat) (exponent : Int) : Bool :=
  mantissa * Nat.pow 2 (leastFloat + 1) ≤
    Nat.pow 10 (min (-exponent).toNat (mantissa.log2 + (leastFloat + 2)))

/-- Whether a value counts as true: all do but null, false, zero and what is
    empty. -/
def truth : Json → Bool
  | null => false
  | bool value => value
  | integer value => value ≠ 0
  | decimal _ mantissa exponent => !vanishes mantissa exponent
  | notANumber => true
  | infinity _ => true
  | string units => !units.isEmpty
  | array items => !items.isEmpty
  | object fields => !fields.isEmpty

/-- Whether a value is null. -/
def isNull : Json → Bool
  | null => true
  | _ => false

/-- The value of a field.  Of two fields with one name the last counts. -/
def field? (fields : List (List Nat × Json)) (name : String) : Option Json :=
  fields.reverse.lookup (Text.unitsOf name)

end Json

end SexpScript
