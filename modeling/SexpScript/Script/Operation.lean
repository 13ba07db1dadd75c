/-! # Operations

    What a call is written as is decided by its name.  A name belongs to the
    first family whose table holds it; every other name is called as it is.
-/

namespace SexpScript

/-! ### Tables -/

/-- Operators between operands, each with the symbol it is written by. -/
def binaryOperators : List (String × String) :=
  [("+", "+"), ("-", "-"), ("*", "*"), ("/", "/"), ("=", "==="), ("!=", "!=="), ("or", "||"),
    ("and", "&&"), ("xor", "^"), ("mod", "%"), ("<", "<"), ("<=", "<="), (">", ">"), (">=", ">="),
    ("exp", "**"), ("rshift", ">>"), ("lshift", "<<")]

/-- Operators before one operand, each with the symbol it is written by. -/
def unaryOperators : List (String × String) := [("not", "!"), ("neg", "-")]

/-- Methods of an array. -/
def arrayMethods : List String := ["filter", "map", "some", "every", "includes"]

/-- The names about arrays: the array itself and its methods. -/
def arrayNames : List String := "list" :: arrayMethods

/-- The names with a meaning of their own. -/
def specialNames : List String := ["exit", "set"]

/-! ### Families -/

/-- The families of names. -/
inductive Family where
  | binary
  | unary
  | array
  | special
  | call
  deriving DecidableEq, Repr

namespace Family

/-- The names in the table of a family. -/
def names : Family → List String
  | binary => binaryOperators.map Prod.fst
  | unary => unaryOperators.map Prod.fst
  | array => arrayNames
  | special => specialNames
  | call => []

/-- The families that have a table, in the order in which they are asked. -/
def tables : List Family := [binary, unary, array, special]

/-- The family of a name. -/
def ofName (name : String) : Family :=
  (tables.find? fun family => family.names.contains name).getD call

end Family

/-! ### Operations -/

/-- How a call is written. -/
inductive Operation where
  /-- The operands in parens, with a symbol between them. -/
  | binary (symbol : String)
  /-- A symbol before the first operand. -/
  | unary (symbol : String)
  /-- The operands as an array. -/
  | array
  /-- A method of the second operand, applied to the first. -/
  | method (name : String)
  /-- The end of the program. -/
  | exit
  /-- The second operand is written to the slot named by the first. -/
  | assign
  /-- A function applied to the operands. -/
  | call (name : String)
  deriving DecidableEq, Repr

/-- The operation that a family makes of a name.  An operator must stand in its
    table. -/
def Family.operation? : Family → String → Option Operation
  | binary, name => (binaryOperators.lookup name).map .binary
  | unary, name => (unaryOperators.lookup name).map .unary
  | array, name => some (if name = "list" then .array else .method name)
  | special, name => some (if name = "exit" then .exit else .assign)
  | call, name => some (.call name)

namespace Operation

/-- The operation of a name. -/
def ofName (name : String) : Operation :=
  ((Family.ofName name).operation? name).getD (.call name)

/-- The text that ends the program. -/
def exitText : String := "process.exit(0)"

/-- What stands for an operand that is missing. -/
def undefinedText : String := "undefined"

/-- The operand at a position. -/
def operand (operands : List String) (i : Nat) : String := operands.getD i undefinedText

/-- A write of `value` into the slot `name` of the slot object. -/
def define (slots name value : String) : String := slots ++ "." ++ name ++ " = " ++ value

/-- The text of an operation on operands that are already written. -/
def render (slots : String) (operands : List String) : Operation → String
  | binary symbol => "(" ++ (" " ++ symbol ++ " ").intercalate operands ++ ")"
  | unary symbol => symbol ++ operand operands 0
  | array => "[" ++ ", ".intercalate operands ++ "]"
  | method name => operand operands 1 ++ "." ++ name ++ "(" ++ operand operands 0 ++ ")"
  | exit => exitText
  | assign => define slots (operand operands 0) (operand operands 1)
  | call name => name ++ "(" ++ ", ".intercalate operands ++ ")"

end Operation

end SexpScript
