import SexpScript.Host.Files
import SexpScript.Host.Journal

/-! # The host

    The world outside the program: files, variables, the programs that can be
    started, and the journal of what was done.  How a child will behave is
    settled by its plan before it starts, so a run of the program is a function of the
    host it runs on.

    A child is heard through a pipe, and a pipe that carries text gives every line end as `\n`
    (`Pipe.hear`).  A plan has the texts as they are heard.

    Some of the world is left out.  Arguments, variables and what the user types are texts.  So is
    what a child prints: bytes that are no UTF-8 are known only of programs that are run to their
    end.  Standard output and standard error take all that is written to them, as long as it is
    text.
-/

namespace SexpScript

/-! ### Plans of children -/

/-- How a text comes through a pipe. -/
inductive Pipe where
  /-- Each of its line ends, `\r\n` and `\r` too, comes as `\n`. -/
  | text
  /-- It comes as it is. -/
  | plain
  deriving DecidableEq, Repr

/-- What is heard of a text that is printed. -/
def Pipe.hear : Pipe → String → String
  | .text, printed => Text.unifyNewlines printed
  | .plain, printed => printed

/-- What a child does when it is written to. -/
inductive Turn where
  /-- It is gone: the write fails. -/
  | brokenPipe
  /-- A text is heard of it, the user may interrupt while the answer is read, and it may end. -/
  | answer (heard : String) (interrupt : Bool) (exit : Option Int)
  deriving DecidableEq, Repr

/-- The turn of a child that prints a text. -/
def Turn.prints (pipe : Pipe) (printed : String) (interrupt : Bool) (exit : Option Int) : Turn :=
  .answer (pipe.hear printed) interrupt exit

/-- How a child behaves. -/
structure Plan where
  /-- What it does, write by write.  After the last it ends. -/
  turns : List Turn
  /-- Whether it ignores the request to end. -/
  stuck : Bool
  /-- What is heard of it at once. -/
  out : String
  deriving DecidableEq, Repr

/-- How a program that is run to its end comes out. -/
inductive Outcome where
  /-- It ends, and what it printed is heard. -/
  | finished (code : Int) (stdout stderr : String)
  | timedOut
  /-- It cannot be started. -/
  | refused (refusal : Refusal)
  /-- It ends, and what it printed is no text. -/
  | undecodable
  /-- The time that it may run cannot be measured. -/
  | timeTooLong
  /-- The user interrupts. -/
  | interrupted
  deriving DecidableEq, Repr

/-! ### Hosts -/

/-- The world outside. -/
structure Host where
  /-- What comes of the children to come: a plan, or why there is none. -/
  plans : List (Except Refusal Plan) := []
  /-- How many children were started. -/
  started : Nat := 0
  /-- How a program that is run to its end comes out. -/
  outcome : Outcome := .refused .missing
  /-- The directory for the code of such a program. -/
  scratch : String := ""
  /-- Why nothing can be written there, if so. -/
  scratchFault : Option Errno := none
  /-- Variables. -/
  environment : List (String × String) := []
  /-- Directories and files. -/
  files : FileSystem := { current := [], directories := [], files := [] }
  /-- How a file fails after it was opened for writing, if so. -/
  diskFault : Option DiskFault := none
  /-- What was done. -/
  journal : Journal := []

/-- Something done on a host. -/
abbrev Action := StateM Host

namespace Host

/-- What comes of the next child.  Beyond the plans every program is missing. -/
def nextPlan (host : Host) : Except Refusal Plan := host.plans.headD (.error .missing)

/-- Enter one thing into the journal. -/
def record (entry : Entry) : Action Unit :=
  modify fun host => { host with journal := host.journal ++ [entry] }

/-- Write to standard output. -/
def out (text : String) : Action Unit := record (.out text)

/-- Write a line to standard output. -/
def outLine (text : String) : Action Unit := out (text ++ "\n")

/-- Write to standard error. -/
def err (text : String) : Action Unit := record (.err text)

/-- Write a line to standard error. -/
def errLine (text : String) : Action Unit := err (text ++ "\n")

/-- Enter a notice into the log. -/
def notify (notice : Notice) : Action Unit := record (.notice notice)

end Host

end SexpScript
