/-! # Sixteen-bit units

    A character as one or two sixteen-bit code units.  A character beyond the
    first plane is a pair of surrogates, high unit first.

    Units may come from elsewhere and hold a surrogate without its partner.  Such a surrogate is a
    code point, but no character.
-/

namespace SexpScript.Text

/-- A unit that begins a pair. -/
def isHigh (n : Nat) : Bool := 0xD800 ≤ n && n < 0xDC00

/-- A unit that ends a pair. -/
def isLow (n : Nat) : Bool := 0xDC00 ≤ n && n < 0xE000

/-- Half of a pair. -/
def isSurrogate (n : Nat) : Bool := isHigh n || isLow n

/-- The units of a character. -/
def units (c : Char) : List Nat :=
  let n := c.toNat
  if n < 0x10000 then [n] else [0xD800 + (n - 0x10000) / 0x400, 0xDC00 + (n - 0x10000) % 0x400]

/-- The units of a text. -/
def unitsOf (text : String) : List Nat := text.toList.flatMap units

/-- The code point of a pair of units. -/
def ofPair (high low : Nat) : Nat := 0x10000 + (high - 0xD800) * 0x400 + (low - 0xDC00)

/-- The code points of units, after the points `read`, which stand last first. -/
def pointsFrom (read : List Nat) : List Nat → List Nat
  | [] => read.reverse
  | [n] => (n :: read).reverse
  | high :: low :: rest =>
      if isHigh high && isLow low then pointsFrom (ofPair high low :: read) rest
      else pointsFrom (high :: read) (low :: rest)

/-- The code points of units. -/
def points (units : List Nat) : List Nat := pointsFrom [] units

/-- The text of units, where every surrogate has its partner. -/
def ofUnits? (units : List Nat) : Option String :=
  if (points units).any isSurrogate then none
  else some (String.ofList ((points units).map Char.ofNat))

end SexpScript.Text
