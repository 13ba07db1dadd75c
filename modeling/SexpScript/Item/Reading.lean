import SexpScript.Error
import SexpScript.Item.Basic

/-! # Reading brackets

    Tokens become items in one pass from left to right.  The reader keeps the
    groups that are open, innermost first; a closing paren moves the innermost
    group into the one around it.

    The pass has a start depth, which counts groups that were opened before its
    first token.  It stops early at a closing paren for which no group was opened
    by the pass itself, and leaves that paren unread.  Groups still open at the
    end of input are kept as they are.
-/

namespace SexpScript

/-- What one pass over the tokens gives. -/
structure Reading where
  /-- Depth at the end: start depth, plus opened groups, less closed ones. -/
  depth : Int
  /-- The tokens that were not read. -/
  rest : List Token
  /-- What was read. -/
  items : List Item
  deriving Repr, BEq

namespace Reading

/-- Close every open group, innermost first.  `current` holds the items of the
    innermost group and `outer` those of the groups around it, last item
    first. -/
def closeAll (current : List Item) : List (List Item) → List Item
  | [] => current.reverse
  | items :: outer => closeAll (.group current.reverse :: items) outer

/-- Read tokens inside the open groups `current` and `outer`.  At most `limit`
    groups may be open. -/
def readFrom (limit : Nat) (depth : Int) (current : List Item) (outer : List (List Item)) :
    List Token → Except Failure Reading
  | [] => .ok { depth := depth + outer.length, rest := [], items := closeAll current outer }
  | t :: ts =>
      match t.kind with
      | .openParen =>
          if outer.length < limit then readFrom limit depth [] (current :: outer) ts
          else .error .overflow
      | .closeParen =>
          match outer with
          | [] => .ok { depth := depth - 1, rest := t :: ts, items := current.reverse }
          | items :: outer => readFrom limit depth (.group current.reverse :: items) outer ts
      | _ =>
          if depth + outer.length > 0 then readFrom limit depth (.token t :: current) outer ts
          else .error (.refused .tokenOutside)

end Reading

/-- Read tokens from a start depth. -/
def readItems (limit : Nat) (depth : Int) (tokens : List Token) : Except Failure Reading :=
  Reading.readFrom limit depth [] [] tokens

end SexpScript
