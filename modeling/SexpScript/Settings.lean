import SexpScript.Script.Writing
import SexpScript.Settings.WholeNumber
import SexpScript.Text.Blank
import SexpScript.Text.Lines

/-! # Settings

    The settings of the command line, each with a default, and how they are
    taken from variables.  A variable is named after its setting, in any letter
    case.  The environment wins over a file of variables, and in each the last
    variable of a name counts.

    All settings are looked at before anything is reported, so a user sees every
    defect at once, in the order in which the settings are listed.
-/

namespace SexpScript

/-- The settings of the command line. -/
structure Settings where
  /-- The object that definitions are written into. -/
  slots : String := defaultSlots
  /-- The program that runs JavaScript. -/
  binary : String := "node"
  /-- Seconds that a program may run. -/
  timeout : Int := 30
  /-- Kilobytes of output that are kept. -/
  outputKilobytes : Int := 100
  /-- What the shell asks with. -/
  prompt : String := "> "
  /-- Whether the shell shows what it compiled. -/
  echo : Bool := true
  /-- The least level of notices that are shown. -/
  logLevel : String := "WARNING"
  /-- Whether reading is reported. -/
  debug : Bool := false
  deriving DecidableEq, Repr

namespace Settings

/-! ### Names -/

/-- The settings by name. -/
inductive Field where
  | slots
  | binary
  | timeout
  | outputKilobytes
  | prompt
  | echo
  | logLevel
  | debug
  deriving DecidableEq, Repr

/-- The name of a setting. -/
def Field.name : Field → String
  | slots => "SLOT_NAMESPACE"
  | binary => "NODE_BINARY"
  | timeout => "SANDBOX_TIMEOUT"
  | outputKilobytes => "SANDBOX_MAX_OUTPUT_KB"
  | prompt => "REPL_PROMPT"
  | echo => "REPL_ECHO"
  | logLevel => "LOG_LEVEL"
  | debug => "PARSE_DEBUG"

/-- The variable of a setting. -/
def Field.variableName (field : Field) : String := "TSLISP_" ++ field.name

/-- The small letter of a letter, where it is a plain one.  Besides `A` to `Z`
    the kelvin sign has a plain small letter. -/
def small (c : Char) : Char := if c.toNat = 0x212A then 'k' else c.toLower

/-- Whether two names differ at most in letter case. -/
def sameName (a b : String) : Bool := a.map small = b.map small

/-- Variables with their values, in order. -/
abbrev Variables := List (String × String)

/-- The value of the last variable of a name. -/
def Variables.value? (vars : Variables) (name : String) : Option String :=
  (vars.reverse.find? fun v => sameName v.1 name).map Prod.snd

/-! ### Values -/

/-- What is wrong with a value. -/
inductive Defect where
  | notBool
  | number (flaw : WholeNumber.Flaw)
  deriving DecidableEq, Repr

/-- The words for true. -/
def trueWords : List String := ["1", "true", "t", "yes", "y", "on"]

/-- The words for false. -/
def falseWords : List String := ["0", "false", "f", "no", "n", "off"]

/-- Read a truth value, in any letter case. -/
def readBool (text : String) : Except Defect Bool :=
  let word := text.map Char.toLower
  if trueWords.contains word then .ok true
  else if falseWords.contains word then .ok false
  else .error .notBool

/-- Read a whole number. -/
def readInt (text : String) : Except Defect Int :=
  (WholeNumber.read text).mapError Defect.number

/-! ### Loading -/

/-- The variable of a line `name=value`, with the blanks around both left out. -/
def readVariable? (line : String) : Option (String × String) :=
  let cs := line.toList
  match cs.dropWhile (· ≠ '=') with
  | [] => none
  | _ :: value =>
      some (String.ofList (Text.trim (cs.takeWhile (· ≠ '='))),
        String.ofList (Text.trim value))

/-- The variables of a file with one variable on a line.  Other lines are passed
    over. -/
def readVariables (text : String) : Variables :=
  (Text.lines (Text.unifyNewlines text)).filterMap readVariable?

/-- Take one setting from its text. -/
def set (field : Field) (text : String) (s : Settings) : Except Defect Settings :=
  match field with
  | .slots => .ok { s with slots := text }
  | .binary => .ok { s with binary := text }
  | .timeout => do return { s with timeout := ← readInt text }
  | .outputKilobytes => do return { s with outputKilobytes := ← readInt text }
  | .prompt => .ok { s with prompt := text }
  | .echo => do return { s with echo := ← readBool text }
  | .logLevel => .ok { s with logLevel := text }
  | .debug => do return { s with debug := ← readBool text }

/-- All settings, in the order in which they are listed. -/
def fields : List Field :=
  [.slots, .binary, .timeout, .outputKilobytes, .prompt, .echo, .logLevel, .debug]

/-- Take one more setting: the settings so far, and the defects so far. -/
def loadField (environment file : Variables) (state : Settings × List (Field × Defect))
    (field : Field) : Settings × List (Field × Defect) :=
  match environment.value? field.variableName <|> file.value? field.variableName with
  | none => state
  | some text =>
      match state.1.set field text with
      | .ok settings => (settings, state.2)
      | .error defect => (state.1, state.2 ++ [(field, defect)])

/-- The settings that an environment and a file of variables give. -/
def load (environment file : Variables) : Except (List (Field × Defect)) Settings :=
  match fields.foldl (loadField environment file) ({}, []) with
  | (settings, []) => .ok settings
  | (_, defects) => .error defects

end Settings

end SexpScript
