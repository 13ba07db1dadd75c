import SexpScript.Token.Basic

/-! # Forms

    A form is what a group means: a call, a definition, or nothing.  Leaves
    are the tokens that stand as arguments.
-/

namespace SexpScript

/-- The meaning of a group or of an argument. -/
inductive Form where
  /-- The empty group. -/
  | empty
  /-- An argument that is a single token. -/
  | leaf (token : Token)
  /-- A name applied to arguments. -/
  | call (name : String) (args : List Form)
  /-- A constant and its value. -/
  | defconstant (name value : String)
  /-- A variable and its value. -/
  | defvar (name value : String)
  /-- A function: its name, its parameters and its body. -/
  | defun (name : String) (params : List String) (body : List Form)
  deriving Repr, BEq, Inhabited

namespace Form

mutual

/-- The levels of forms in a form, itself included. -/
def depth : Form → Nat
  | .call _ args => depthAll args + 1
  | .defun _ _ body => depthAll body + 1
  | _ => 1

/-- The levels of forms in the deepest of several forms. -/
def depthAll : List Form → Nat
  | [] => 0
  | form :: forms => max (depth form) (depthAll forms)

end

mutual

/-- The number of forms in a form, itself included. -/
def size : Form → Nat
  | .call _ args => sizeAll args + 1
  | .defun _ _ body => sizeAll body + 1
  | _ => 1

/-- The number of forms in several forms. -/
def sizeAll : List Form → Nat
  | [] => 0
  | form :: forms => size form + sizeAll forms

end

/-- The number of forms in several forms, unless one has more than `limit`
    levels. -/
def count? (limit : Nat) (forms : List Form) : Option Nat :=
  if depthAll forms ≤ limit then some (sizeAll forms) else none

end Form

end SexpScript
