import SexpScript.Notice

/-! # The journal

    Everything that a command does to the world outside is one entry of its
    journal, in the order in which it was done.  What a user sees, and what is
    known of the children, are views of the journal.
-/

namespace SexpScript

/-! ### Entries -/

/-- What is asked of the operating system about a child. -/
inductive Request where
  /-- Start a program. -/
  | spawn (command : List String)
  /-- Write to the child. -/
  | write (data : String)
  /-- See that the child gets what was written. -/
  | flush
  /-- Wait until the child ends, for so many seconds where a limit is set. -/
  | wait (seconds : Option Nat)
  /-- Ask the child to end. -/
  | terminate
  /-- End the child. -/
  | kill
  deriving DecidableEq, Repr

/-- A program that is run to its end. -/
structure Call where
  /-- The program and its arguments. -/
  command : List String
  /-- The code it is given. -/
  code : String
  /-- Seconds that it may run. -/
  seconds : Int
  /-- The directory in which it runs. -/
  directory : String
  /-- The variables that it sees. -/
  environment : List (String × String)
  deriving DecidableEq, Repr

/-- One thing that was done. -/
inductive Entry where
  /-- Text for standard output. -/
  | out (text : String)
  /-- Text for standard error. -/
  | err (text : String)
  /-- A notice for the log. -/
  | notice (notice : Notice)
  /-- A request about a child. -/
  | request (request : Request)
  /-- A run of a program. -/
  | call (call : Call)
  /-- A child began. -/
  | began (child : Nat)
  /-- A child ended, with an exit code. -/
  | ended (child : Nat) (code : Int)
  deriving DecidableEq, Repr

/-- What was done, first thing first. -/
abbrev Journal := List Entry

namespace Journal

/-! ### Views -/

/-- The text on standard output. -/
def stdout (journal : Journal) : String :=
  String.join (journal.filterMap fun
    | .out text => some text
    | _ => none)

/-- The text on standard error, with the notices from a threshold on. -/
def stderr (elapsed : String) (threshold : Nat) (journal : Journal) : String :=
  String.join (journal.filterMap fun
    | .err text => some text
    | .notice n => if threshold ≤ n.level.weight then some (n.line elapsed ++ "\n") else none
    | _ => none)

/-- The text on standard error where no notices are shown. -/
def complaints (journal : Journal) : String :=
  String.join (journal.filterMap fun
    | .err text => some text
    | _ => none)

/-- The notices. -/
def notices (journal : Journal) : List Notice :=
  journal.filterMap fun
    | .notice n => some n
    | _ => none

/-- The requests about children. -/
def requests (journal : Journal) : List Request :=
  journal.filterMap fun
    | .request r => some r
    | _ => none

/-- The runs of programs. -/
def calls (journal : Journal) : List Call :=
  journal.filterMap fun
    | .call c => some c
    | _ => none

/-- The children that run after one more entry. -/
def track (running : List Nat) : Entry → List Nat
  | .began child => child :: running
  | .ended child _ => running.filter (· ≠ child)
  | _ => running

/-- The children that began and have not ended. -/
def running (journal : Journal) : List Nat := journal.foldl track []

end Journal

end SexpScript
