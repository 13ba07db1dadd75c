/-! # Terminal styles

    The control sequences by which a terminal is told to colour text.
-/

namespace SexpScript

/-- A way to show text on a terminal. -/
inductive Style where
  | header
  | blue
  | cyan
  | green
  | warning
  | failure
  | plain
  | bold
  deriving DecidableEq, Repr

namespace Style

/-- The number of a style. -/
def number : Style → Nat
  | header => 95
  | blue => 94
  | cyan => 96
  | green => 92
  | warning => 93
  | failure => 91
  | plain => 0
  | bold => 1

/-- The control sequence that switches to a style. -/
def code (style : Style) : String := "\x1b[" ++ toString style.number ++ "m"

/-- A text in a style, and plain again after it. -/
def paint (style : Style) (text : String) : String := style.code ++ text ++ plain.code

end Style

end SexpScript
