import SexpScript.Host.Basic
import SexpScript.Settings

/-! # Running a script

    A whole script is run once, in a directory of its own, with few variables
    and for a limited time.  Of a long output only the beginning is kept.

    A program that is missing, or that takes too long, is told in the result.  All else that can
    go wrong is a fault.  The directory itself can always be made.
-/

namespace SexpScript

namespace Execution

/-! ### Output -/

/-- What stands in the place of output that was cut. -/
def cutMark : String := "\n... (output truncated)"

/-- Characters that are given up for the mark. -/
def cutReserve : Int := 32

/-- Cut a text of more than `limit` bytes.  The limit is in bytes, the cut is
    counted in characters. -/
def clip (text : String) (limit : Int) : String × Bool :=
  if (text.utf8ByteSize : Int) ≤ limit then (text, false)
  else (String.ofList (text.toList.take (limit - cutReserve).toNat) ++ cutMark, true)

/-! ### Runs -/

/-- How a run came out. -/
structure Result where
  /-- What was printed. -/
  stdout : String := ""
  /-- What was printed as an error. -/
  stderr : String := ""
  /-- The exit code. -/
  exitCode : Int
  /-- Whether output was cut. -/
  truncated : Bool := false
  /-- Whether the run took too long. -/
  timedOut : Bool := false
  deriving DecidableEq, Repr

/-- Whether a run succeeded. -/
def Result.ok (result : Result) : Bool := result.exitCode = 0 && !result.timedOut

/-- The variables that a run sees. -/
def keptVariables : List String := ["PATH", "SYSTEMROOT", "TEMP", "TMP"]

/-- The variables of an environment that a run sees. -/
def keep (environment : List (String × String)) : List (String × String) :=
  keptVariables.filterMap fun name => (environment.lookup name).map fun value => (name, value)

/-- The program that is asked for, or else the one that is set. -/
def chooseBinary (settings : Settings) : Option String → String
  | some binary => if binary = "" then settings.binary else binary
  | none => settings.binary

/-- The seconds that are asked for, or else those that are set. -/
def chooseTimeout (settings : Settings) : Option Int → Int
  | some seconds => if seconds = 0 then settings.timeout else seconds
  | none => settings.timeout

/-- Run a script. -/
def run (settings : Settings) (binary : Option String) (timeout : Option Int) (code : String) :
    Action (Except Fault Result) := do
  let binary := chooseBinary settings binary
  let seconds := chooseTimeout settings timeout
  let host ← get
  match host.scratchFault with
  | some errno =>
      let error : FileError := { errno, path := none }
      return .ok { stderr := "Failed to write code to file: " ++ error.message, exitCode := 1 }
  | none =>
      let command := [binary, host.scratch ++ "/main.js"]
      Host.notify (.running command seconds)
      Host.record (.call
        { command, code, seconds, directory := host.scratch, environment := keep host.environment })
      match host.outcome with
      | .timedOut =>
          Host.notify (.timedOut seconds)
          return .ok {
            stderr := "Execution timed out after " ++ toString seconds ++ "s"
            exitCode := -1
            timedOut := true }
      | .refused refusal =>
          if refusal = .missing then
            return .ok { stderr := binary ++ " not found", exitCode := 1 }
          else return .error (refusal.fault binary)
      | .undecodable => return .error .undecodable
      | .timeTooLong => return .error .timeTooLong
      | .interrupted => return .error .interrupted
      | .finished exitCode stdout stderr =>
          let (stdout, truncated) := clip stdout (settings.outputKilobytes * 1024)
          return .ok { stdout, stderr, exitCode, truncated }

end Execution

end SexpScript
