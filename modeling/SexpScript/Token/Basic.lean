/-! # Tokens

    A token is a piece of source text together with its kind.  Reading decides
    by the kind alone, the text is carried along unchanged.
-/

namespace SexpScript

/-- The kinds of token. -/
inductive Token.Kind where
  | openParen
  | closeParen
  | number
  | boolean
  | string
  | comment
  | identifier
  | defconstant
  | defun
  | defvar
  deriving DecidableEq, Repr

/-- A token: its kind and its text. -/
structure Token where
  /-- What the token is. -/
  kind : Token.Kind
  /-- The source text it stands for. -/
  text : String
  deriving DecidableEq, Repr

namespace Token.Kind

/-- All kinds, in the order in which they are listed. -/
def all : List Kind :=
  [.openParen, .closeParen, .number, .boolean, .string, .comment, .identifier, .defconstant,
    .defun, .defvar]

/-- The name of a kind. -/
def label : Kind → String
  | .openParen => "open_paren"
  | .closeParen => "close_paren"
  | .number => "number"
  | .boolean => "boolean"
  | .string => "string"
  | .comment => "comment"
  | .identifier => "identifier"
  | .defconstant => "defconstant"
  | .defun => "defun"
  | .defvar => "defvar"

/-- The kind with a given name. -/
def ofLabel? (name : String) : Option Kind := all.find? fun kind => kind.label = name

/-- The words that are kinds of their own.  They are matched exactly. -/
def keywords : List (String × Kind) :=
  [("defconstant", .defconstant), ("defun", .defun), ("defvar", .defvar)]

/-- The kinds that may stand as an argument. -/
def leaves : List Kind := [.number, .string, .boolean, .identifier]

/-- Whether a token of this kind may stand as an argument. -/
def isLeaf (kind : Kind) : Bool := leaves.contains kind

end Token.Kind

end SexpScript
