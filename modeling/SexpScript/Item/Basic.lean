import SexpScript.Token.Basic

/-! # Items

    The bracket structure of a program: an item is a token or a group of items.
    `flatten` writes items back as tokens.
-/

namespace SexpScript

/-- A token, or the items between two parens. -/
inductive Item where
  | token (token : Token)
  | group (items : List Item)
  deriving Repr, BEq, Inhabited

namespace Item

/-- The token of an item that is one. -/
def token? : Item → Option Token
  | .token t => some t
  | .group _ => none

/-- The items of a group. -/
def group? : Item → Option (List Item)
  | .token _ => none
  | .group items => some items

mutual

/-- The tokens of an item, a group between parens. -/
def flatten : Item → List Token
  | .token t => [t]
  | .group items => ⟨.openParen, "("⟩ :: flattenAll items ++ [⟨.closeParen, ")"⟩]

/-- The tokens of a list of items. -/
def flattenAll : List Item → List Token
  | [] => []
  | item :: items => flatten item ++ flattenAll items

end

end Item

end SexpScript
