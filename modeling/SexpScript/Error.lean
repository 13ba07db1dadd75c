/-! # What can be wrong with a program

    `SyntaxError` lists the causes for which a program is refused, and
    `SyntaxError.message` holds all their wording.  `Failure` is the outcome
    of a stage that may also run out of nesting depth; only the compiler turns
    that into a `SyntaxError`.
-/

namespace SexpScript

/-- Why a program is refused. -/
inductive SyntaxError where
  /-- A token stands outside all parens. -/
  | tokenOutside
  /-- The input ends inside a group. -/
  | missingClose
  /-- A group is closed that was never opened. -/
  | missingOpen
  /-- A group begins with a group. -/
  | groupAtHead
  /-- A group begins with a token that names nothing. -/
  | badHead (text : String)
  /-- A call has an argument that is no leaf. -/
  | badArgument (text : String)
  /-- A constant is not defined by a name and a value. -/
  | badConstant
  /-- A variable is not defined by a name and a value. -/
  | badVariable
  /-- A function is not defined by a name, parameters and a body. -/
  | badFunction
  /-- A function has two parameters of one name. -/
  | duplicateParameter (parameter name : String)
  /-- The groups are nested too deeply. -/
  | tooDeep
  deriving DecidableEq, Repr

namespace SyntaxError

/-- The shape that a function definition must have. -/
def functionShape : String := "defun node must be in form (defun name (params) body...)"

/-- What is said of groups that are nested too deeply. -/
def tooDeepText : String := "Expression nested too deeply"

/-- The diagnostic of a refused program. -/
def message : SyntaxError → String
  | tokenOutside => "Found token outside of parenthesis"
  | missingClose => "Expected closing parenthesis"
  | missingOpen => "Expected opening parenthesis"
  | groupAtHead => "Cannot have list as first element of list"
  | badHead text => "List must start with an identifier or keyword, got " ++ text
  | badArgument text => "Unexpected token in function call: " ++ text
  | badConstant => "defconstant node must be in form (defconstant name value)"
  | badVariable => "defvar node must be in form (defvar name value)"
  | badFunction => functionShape
  | duplicateParameter parameter name =>
      "Duplicate parameter '" ++ parameter ++ "' in defun " ++ name
  | tooDeep => tooDeepText

end SyntaxError

/-- Why a stage stops. -/
inductive Failure where
  /-- The nesting limit is passed. -/
  | overflow
  /-- The program is refused. -/
  | refused (error : SyntaxError)
  deriving DecidableEq, Repr

/-- A failure as the compiler reports it. -/
def Failure.toSyntaxError : Failure → SyntaxError
  | .overflow => .tooDeep
  | .refused error => error

end SexpScript
