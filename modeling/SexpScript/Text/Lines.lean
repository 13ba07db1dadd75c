/-! # Lines

    A line ends at `\n` and keeps it, so that the lines of a text concatenate
    to the text.  Files from elsewhere may end a line by `\r\n` or by `\r`
    alone; `unifyNewlines` writes every such end as `\n`.
-/

namespace SexpScript.Text

/-- The lines of a text whose first line already began with `current`, which
    holds its characters last first. -/
def linesFrom (current : List Char) : List Char → List (List Char)
  | [] => if current.isEmpty then [] else [current.reverse]
  | c :: cs =>
      if c = '\n' then (c :: current).reverse :: linesFrom [] cs else linesFrom (c :: current) cs

/-- The lines of a text, each with the `\n` that ends it.  Only the last line
    may lack one, and no line is empty. -/
def lines (text : String) : List String := (linesFrom [] text.toList).map String.ofList

/-- One step of `unifyNewlines`: what was written so far, last first, and
    whether the last character read was `\r`. -/
def unifyStep (state : List Char × Bool) (c : Char) : List Char × Bool :=
  if c = '\r' then ('\n' :: state.1, true)
  else if c = '\n' ∧ state.2 then (state.1, false)
  else (c :: state.1, false)

/-- The text with every line end written as `\n`. -/
def unifyNewlines (text : String) : String :=
  String.ofList (text.toList.foldl unifyStep ([], false)).1.reverse

end SexpScript.Text
