import SexpScript.Compiler
import SexpScript.Session
import SexpScript.Settings
import SexpScript.Style

/-! # The shell

    The shell reads line by line.  It compiles a line, shows the text and, with
    a session, evaluates it there.  A line that is refused is reported and the shell
    goes on.  Without a session the shell ends at the text that would end the
    program.

    An interrupt while code runs costs the session its child: the session is
    ended and another one started, and the line is not sent again.

    Where the program of a session is missing the shell goes on without one.  Any other reason
    why it cannot be started ends the shell.
-/

namespace SexpScript

namespace Shell

/-- What the shell begins with. -/
def banner : String := "Use ^D or (exit) to quit\n"

/-- What the user types: lines, and whether an interrupt stands in the place of
    the end of input. -/
structure Input where
  lines : List String
  interrupted : Bool := false
  deriving DecidableEq, Repr

/-- The input of a text. -/
def Input.ofText (text : String) (interrupted : Bool) : Input :=
  { lines := Text.lines text, interrupted }

/-- The compiler of a shell. -/
def compiler (settings : Settings) : Compiler :=
  { slots := settings.slots, debug := settings.debug }

/-- Start a session, or go on without one when the program is missing. -/
def startSession (settings : Settings) : Action (Except Fault (Option Session)) := do
  match ← Session.start { binary := settings.binary } with
  | .ok session => return .ok (some session)
  | .error refusal =>
      if refusal = .missing then
        Host.errLine (Style.warning.paint
          (settings.binary ++ " not found, running without execution"))
        return .ok none
      else return .error (refusal.fault settings.binary)

/-- End the session, if there is one. -/
def endSession : Option Session → Action Unit
  | some session => do
      let _ ← session.close
      return
  | none => pure ()

/-- What comes after a line: the shell goes on with a session, or it ends. -/
inductive Next where
  | again (session : Option Session)
  | stop (session : Option Session) (result : Except Fault Int)

/-- What is shown of an outcome behind its output: the error, or the value where there is one,
    and how it is painted. -/
def verdict? (result : Session.Result) : Option (Json × (String → String)) :=
  if result.closed then none
  else if !result.ok then some (result.error, Style.failure.paint)
  else if !result.value.isNull then some (result.value, id)
  else none

/-- Show what there is to show, if it is text. -/
def showVerdict : Option (Json × (String → String)) → Action (Except Fault Unit)
  | none => return .ok ()
  | some (value, paint) => do
      match value.display? with
      | none => return .error .unencodable
      | some text =>
          Host.outLine (paint text)
          return .ok ()

/-- Show the outcome of a text of code. -/
def present (result : Session.Result) : Action (Except Fault Unit) := do
  if result.output ≠ "" then Host.out result.output
  showVerdict (verdict? result)

/-- End a session that was interrupted, and start another one. -/
def restart (settings : Settings) (session : Session) : Action Next := do
  Host.outLine (Style.warning.paint "Interrupted, restarting node session")
  endSession (some session)
  match ← startSession settings with
  | .ok restarted => return .again restarted
  | .error fault => return .stop none (.error fault)

/-- Evaluate a text of code in a session. -/
def evaluate (settings : Settings) (session : Session) (text : String) : Action Next := do
  match ← session.execute text with
  | (.ok result, session) =>
      match ← present result with
      | .error fault => return .stop (some session) (.error fault)
      | .ok _ =>
          return if result.closed then .stop (some session) (.ok 0) else .again (some session)
  | (.error .interrupted, session) => restart settings session
  | (.error (.lost loss), session) =>
      Host.notify (.sessionLost loss)
      return .stop (some session) (.ok 1)
  | (.error fault, session) => return .stop (some session) (.error fault)

/-- Answer one line. -/
def respond (settings : Settings) (session : Option Session) (line : String) : Action Next := do
  ((compiler settings).notices line).forM Host.notify
  match (compiler settings).line line with
  | .error error =>
      Host.outLine (Style.failure.paint ("Syntax Error: " ++ error.message))
      return .again session
  | .ok text =>
      if settings.echo then Host.outLine ("// " ++ text)
      match session with
      | none => return if text = Operation.exitText then .stop none (.ok 0) else .again none
      | some session =>
          if text = "" then return .again (some session) else evaluate settings session text

/-- Leave the shell when the input has ended. -/
def leave (session : Option Session) (interrupted : Bool) : Action (Except Fault Int) := do
  if !interrupted then Host.out "\n"
  endSession session
  return if interrupted then .error .interrupted else .ok 0

/-- Answer line after line. -/
def loop (settings : Settings) (interrupted : Bool) (session : Option Session) :
    List String → Action (Except Fault Int)
  | [] => do
      Host.out settings.prompt
      leave session interrupted
  | line :: lines => do
      Host.out settings.prompt
      match ← respond settings session line with
      | .again session => loop settings interrupted session lines
      | .stop session result =>
          endSession session
          return result

/-- Start the shell: the session it has, after its banner. -/
def start (settings : Settings) (execute : Bool) : Action (Except Fault (Option Session)) := do
  match ← if execute then startSession settings else pure (.ok none) with
  | .error fault => return .error fault
  | .ok session =>
      Host.outLine banner
      return .ok session

/-- Run the shell on an input. -/
def run (settings : Settings) (execute : Bool) (input : Input) : Action (Except Fault Int) := do
  match ← start settings execute with
  | .error fault => return .error fault
  | .ok session => loop settings input.interrupted session input.lines

end Shell

end SexpScript
