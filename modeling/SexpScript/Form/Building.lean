import SexpScript.Form.Basic
import SexpScript.Item.Reading
import SexpScript.Nesting

/-! # Building forms

    The first item of a group decides what the group means.  Arguments and body
    statements are built from left to right, each completely before the next, and
    the first thing that is wrong ends the building.  Parameters, and the value
    of a definition, are never built: they are tokens.
-/

namespace SexpScript

namespace Form

/-- The first text that repeats an earlier one. -/
def firstRepeat? (seen : List String) : List String → Option String
  | [] => none
  | text :: texts => if seen.contains text then some text else firstRepeat? (text :: seen) texts

/-- Build an argument, given how to build a group. -/
def ofItem (build : List Item → Except Failure Form) : Item → Except Failure Form
  | .group items => build items
  | .token t => if t.kind.isLeaf then .ok (.leaf t) else .error (.refused (.badArgument t.text))

/-- Build a definition by name and value. -/
def definition (make : String → String → Form) (error : SyntaxError) :
    List Item → Except Failure Form
  | [.token name, .token value] => .ok (make name.text value.text)
  | _ => .error (.refused error)

/-- Build a function definition from what follows its keyword. -/
def function (build : List Item → Except Failure Form) : List Item → Except Failure Form
  | .token name :: .group items :: body =>
      match items.mapM Item.token? with
      | none => .error (.refused .badFunction)
      | some tokens =>
          let params := tokens.map Token.text
          match firstRepeat? [] params with
          | some param => .error (.refused (.duplicateParameter param name.text))
          | none => do return .defun name.text params (← body.mapM (ofItem build))
  | _ => .error (.refused .badFunction)

/-- Build the form of a group with at most `limit` levels of groups. -/
def ofGroup : Nat → List Item → Except Failure Form
  | 0, _ => .error .overflow
  | _ + 1, [] => .ok .empty
  | _ + 1, .group _ :: _ => .error (.refused .groupAtHead)
  | limit + 1, .token head :: items =>
      match head.kind with
      | .identifier => do return .call head.text (← items.mapM (ofItem (ofGroup limit)))
      | .defconstant => definition .defconstant .badConstant items
      | .defvar => definition .defvar .badVariable items
      | .defun => function (ofGroup limit) items
      | _ => .error (.refused (.badHead head.text))

/-- Build the forms of the groups among `items`.  Other items are passed
    over. -/
def ofItems (items : List Item) : Except Failure (List Form) :=
  (items.filterMap Item.group?).mapM (ofGroup Nesting.forms)

/-- Read a program.  Comments are left out, every paren must have its partner,
    and only then are the forms built. -/
def ofTokens (tokens : List Token) : Except Failure (List Form) := do
  let reading ← readItems Nesting.brackets 0 (tokens.filter fun t => t.kind ≠ .comment)
  if reading.depth > 0 then .error (.refused .missingClose)
  else if reading.depth < 0 then .error (.refused .missingOpen)
  else ofItems reading.items

end Form

end SexpScript
