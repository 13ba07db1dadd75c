import SexpScript.Host.Fault

/-! # Notices

    A notice is one thing worth a line in the log.  The wording is here; when a
    line is shown at all is decided by its level.
-/

namespace SexpScript

/-! ### Levels -/

/-- How much a notice matters. -/
inductive Level where
  | debug
  | info
  | warning
  | error
  deriving DecidableEq, Repr

namespace Level

/-- The weight of a level. -/
def weight : Level → Nat
  | debug => 10
  | info => 20
  | warning => 30
  | error => 40

/-- The name of a level. -/
def label : Level → String
  | debug => "DEBUG"
  | info => "INFO"
  | warning => "WARNING"
  | error => "ERROR"

/-- The names of thresholds, with the least weight that each lets through. -/
def thresholds : List (String × Nat) :=
  [("DEBUG", 10), ("INFO", 20), ("WARNING", 30), ("WARN", 30), ("ERROR", 40), ("CRITICAL", 50),
    ("FATAL", 50), ("NOTSET", 0)]

/-- The letters beyond ASCII whose capitals are plain letters, with these: the dotless `ı`, the
    long `ſ`, the sharp `ß` and the ligatures. -/
def foreignCapitals : List (Nat × String) :=
  [(0x131, "I"), (0x17F, "S"), (0xDF, "SS"), (0xFB00, "FF"), (0xFB01, "FI"), (0xFB02, "FL"),
    (0xFB03, "FFI"), (0xFB04, "FFL"), (0xFB05, "ST"), (0xFB06, "ST")]

/-- The capitals of a letter, where they are plain letters. -/
def capitals (c : Char) : List Char :=
  match foreignCapitals.lookup c.toNat with
  | some letters => letters.toList
  | none => [c.toUpper]

/-- A name in capitals. -/
def capitalized (name : String) : String := String.ofList (name.toList.flatMap capitals)

/-- The threshold with a given name, in any case.  A name that is not known
    stands for warnings. -/
def threshold (name : String) : Nat := (thresholds.lookup (capitalized name)).getD 30

/-- Names in capitals that the log has for other things than thresholds.  They are found where a
    threshold is looked up, and cannot be used as one. -/
def strangers : List String := ["BASIC_FORMAT", "_STYLES"]

/-- Whether a name is found, in any case, and is that of no threshold. -/
def isStranger (name : String) : Bool := strangers.contains (capitalized name)

end Level

/-! ### Notices -/

/-- What is worth a line in the log. -/
inductive Notice where
  /-- A source of so many characters was read as so many forms. -/
  | parsed (characters forms : Nat)
  /-- A source was refused. -/
  | parseFailed (source : String) (error : SyntaxError)
  /-- A session is about to start. -/
  | sessionStarting (binary : String)
  /-- The child of a session has ended. -/
  | sessionEnded (code : Int)
  /-- The shell has lost its session. -/
  | sessionLost (loss : Loss)
  /-- A command is about to run, for at most so many seconds. -/
  | running (command : List String) (seconds : Int)
  /-- A command took longer than so many seconds. -/
  | timedOut (seconds : Int)
  deriving DecidableEq, Repr

namespace Notice

/-- The level of a notice. -/
def level : Notice → Level
  | parsed .. => .debug
  | parseFailed .. => .debug
  | sessionStarting .. => .info
  | sessionEnded .. => .info
  | sessionLost .. => .error
  | running .. => .info
  | timedOut .. => .warning

/-- The part of the program that a notice comes from. -/
def origin : Notice → String
  | parsed .. => "tslisp.parser"
  | parseFailed .. => "tslisp.parser"
  | sessionLost .. => "tslisp.repl"
  | _ => "tslisp.sandbox"

/-- The wording of a notice.  `elapsed` is the time that reading took, in
    milliseconds. -/
def message (elapsed : String) : Notice → String
  | parsed characters forms =>
      "Parsed " ++ toString characters ++ " bytes in " ++ elapsed ++ "ms. Nodes: " ++ toString forms
  | parseFailed source error => "Parse failed for " ++ Text.quoted source ++ ": " ++ error.message
  | sessionStarting binary => "Starting node session (" ++ binary ++ ")"
  | sessionEnded code => "Node session exited with code " ++ toString code
  | sessionLost loss => "Session lost: " ++ loss.message
  | running command seconds =>
      "Running " ++ " ".intercalate command ++ " (timeout " ++ toString seconds ++ "s)"
  | timedOut seconds => "Execution timed out after " ++ toString seconds ++ "s"

/-- The log line of a notice. -/
def line (elapsed : String) (notice : Notice) : String :=
  notice.level.label ++ ":" ++ notice.origin ++ ":" ++ notice.message elapsed

end Notice

end SexpScript
