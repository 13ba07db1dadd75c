import SexpScript.Text.Hex
import SexpScript.Text.Units

/-! # JSON strings

    A string is written in plain printable ASCII: every other character is
    spelled out by its sixteen-bit units.  A written string never holds a line break,
    so a line holds exactly one request.

    Reading takes strings as others write them, with any character but controls
    verbatim.
-/

namespace SexpScript.Json

/-! ### Writing -/

/-- The escapes of one letter, with the unit that each stands for. -/
def shortEscapes : List (Char × Nat) :=
  [('"', 0x22), ('\\', 0x5C), ('/', 0x2F), ('b', 0x8), ('f', 0xC), ('n', 0xA), ('r', 0xD),
    ('t', 0x9)]

/-- A unit, spelled out. -/
def spellUnit (n : Nat) : List Char := '\\' :: 'u' :: Text.hex 4 n

/-- One character of a written string. -/
def escape (c : Char) : List Char :=
  if c = '"' then ['\\', '"']
  else if c = '\\' then ['\\', '\\']
  else if c = '\n' then ['\\', 'n']
  else if c = '\r' then ['\\', 'r']
  else if c = '\t' then ['\\', 't']
  else if c.toNat = 0x8 then ['\\', 'b']
  else if c.toNat = 0xC then ['\\', 'f']
  else if 0x20 ≤ c.toNat ∧ c.toNat < 0x7F then [c]
  else (Text.units c).flatMap spellUnit

/-- A text as a JSON string. -/
def quote (text : String) : String :=
  String.ofList ('"' :: text.toList.flatMap escape ++ ['"'])

/-! ### Reading -/

/-- The number that four hexadecimal digits stand for. -/
def hex4? (a b c d : Char) : Option Nat := do
  let a ← Text.hexValue? a
  let b ← Text.hexValue? b
  let c ← Text.hexValue? c
  let d ← Text.hexValue? d
  return ((a * 16 + b) * 16 + c) * 16 + d

/-- Read the units of a string after its opening quote, up to its closing one.  `read` holds
    the units read so far, last first. -/
def readUnits (read : List Nat) : List Char → Option (List Nat × List Char)
  | [] => none
  | '"' :: cs => some (read.reverse, cs)
  | '\\' :: 'u' :: a :: b :: c :: d :: cs =>
      match hex4? a b c d with
      | some n => readUnits (n :: read) cs
      | none => none
  | '\\' :: c :: cs =>
      match shortEscapes.lookup c with
      | some n => readUnits (n :: read) cs
      | none => none
  | c :: cs =>
      if c = '\\' ∨ c.toNat < 0x20 then none
      else readUnits ((Text.units c).reverse ++ read) cs

end SexpScript.Json
