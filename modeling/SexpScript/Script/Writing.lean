import SexpScript.Form.Basic
import SexpScript.Script.Operation

/-! # Writing forms as JavaScript

    Every form is written as one expression.  Definitions are writes into the
    slot object, so that a later text finds them; a function is an arrow whose body
    is its statements joined by commas.
-/

namespace SexpScript

/-- The slot object of a program that names none. -/
def defaultSlots : String := "global"

namespace Form

/-- The text itself, or `undefined` where nothing is written. -/
def orUndefined (text : String) : String :=
  if text = "" then Operation.undefinedText else text

/-- An arrow function over body statements that are already written. -/
def arrow (params statements : List String) : String :=
  let body := ", ".intercalate (statements.map fun text => "(" ++ orUndefined text ++ ")")
  "(" ++ ", ".intercalate params ++ ") => (" ++ orUndefined body ++ ")"

mutual

/-- The text of a form, with definitions written into `slots`. -/
def write (slots : String) : Form → String
  | .empty => ""
  | .leaf t => t.text
  | .call name args => (Operation.ofName name).render slots (writeAll slots args)
  | .defconstant name value => Operation.define slots name value
  | .defvar name value => Operation.define slots name value
  | .defun name params body =>
      Operation.define slots name (arrow params (writeAll slots body)) ++ ";"

/-- The texts of several forms. -/
def writeAll (slots : String) : List Form → List String
  | [] => []
  | form :: forms => write slots form :: writeAll slots forms

end

theorem writeAll_eq_map (slots : String) (forms : List Form) :
    writeAll slots forms = forms.map (write slots) := by
  induction forms with
  | nil => rfl
  | cons form forms ih => simp [writeAll, ih]

/-- The text of a form, unless it has more than `limit` levels. -/
def write? (limit : Nat) (slots : String) (form : Form) : Option String :=
  if form.depth ≤ limit then some (form.write slots) else none

end Form

end SexpScript
