import SexpScript.Form.Building
import SexpScript.Notice
import SexpScript.Script.Writing
import SexpScript.Token.Scan

/-! # The compiler

    From source text to JavaScript.  A line gives the text of its first form, a
    program one text for each form, and a script the statements of a program,
    ready to run.

    A compiler in debug mode also counts what it read and says so in a notice; the
    texts are the same.
-/

namespace SexpScript

/-- How to compile. -/
structure Compiler where
  /-- The object that definitions are written into. -/
  slots : String := defaultSlots
  /-- Whether reading is reported. -/
  debug : Bool := false
  deriving DecidableEq, Repr

namespace Compiler

/-! ### Reading -/

/-- Read a source, with the notices that this gives. -/
def parse (c : Compiler) (source : String) : Except SyntaxError (List Form) × List Notice :=
  let refuse (error : SyntaxError) : Except SyntaxError (List Form) × List Notice :=
    (.error error, if c.debug then [.parseFailed source error] else [])
  match Form.ofTokens (tokenize source) with
  | .error failure => refuse failure.toSyntaxError
  | .ok forms =>
      if c.debug then
        match Form.count? Nesting.census forms with
        | some count => (.ok forms, [.parsed source.length count])
        | none => refuse .tooDeep
      else (.ok forms, [])

/-- The forms of a source. -/
def forms (c : Compiler) (source : String) : Except SyntaxError (List Form) := (c.parse source).1

/-- The notices that reading a source gives. -/
def notices (c : Compiler) (source : String) : List Notice := (c.parse source).2

/-! ### Writing -/

/-- The texts of forms. -/
def writeForms (c : Compiler) (forms : List Form) : Except SyntaxError (List String) :=
  match forms.mapM (Form.write? Nesting.scripts c.slots) with
  | some texts => .ok texts
  | none => .error .tooDeep

/-- The text of the first form of a source, or nothing if it has none. -/
def line (c : Compiler) (source : String) : Except SyntaxError String := do
  let texts ← c.writeForms ((← c.forms source).take 1)
  return texts.headD ""

/-- The texts of all forms of a source. -/
def program (c : Compiler) (source : String) : Except SyntaxError (List String) := do
  c.writeForms (← c.forms source)

/-- A text as a statement: it ends in a semicolon. -/
def statement (text : String) : String :=
  if text.toList.getLast? = some ';' then text else text ++ ";"

/-- The statements of a source, one after another.  Forms without a text are
    dropped. -/
def script (c : Compiler) (source : String) : Except SyntaxError String := do
  let texts ← c.program source
  return "\n".intercalate ((texts.filter fun text => text ≠ "").map statement)

end Compiler

end SexpScript
