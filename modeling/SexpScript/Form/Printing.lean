import SexpScript.Form.Basic

/-! # Printing forms

    A form written back as source text, one word on a line.  A word on a line of
    its own is one chunk of the source again, so what is printed can be read.
-/

namespace SexpScript

namespace Form

mutual

/-- The words of a form: parens, keywords, names and leaves, in order. -/
def words : Form → List String
  | .empty => ["(", ")"]
  | .leaf t => [t.text]
  | .call name args => "(" :: name :: wordsAll args ++ [")"]
  | .defconstant name value => ["(", "defconstant", name, value, ")"]
  | .defvar name value => ["(", "defvar", name, value, ")"]
  | .defun name params body =>
      "(" :: "defun" :: name :: "(" :: params ++ ")" :: wordsAll body ++ [")"]

/-- The words of several forms. -/
def wordsAll : List Form → List String
  | [] => []
  | form :: forms => words form ++ wordsAll forms

end

/-- The source text of forms. -/
def print (forms : List Form) : String := "\n".intercalate (wordsAll forms)

end Form

end SexpScript
