import SexpScript.Execution
import SexpScript.Shell

/-! # The command line

    A command gives an exit code.  A program that is refused, a file that cannot be opened or
    written and a program that cannot be started are reported and give the code 1, an interrupt
    gives 130.  Other faults go on to the caller.

    The log is set up before anything else, and a level that is none ends the command there.
-/

namespace SexpScript

namespace Command

/-! ### Wording -/

/-- The version of the program. -/
def version : String := "0.1.0"

/-- How the program is called. -/
def usage : String := "Usage: tslisp <command> [args]"

/-- How the command `compile` is called. -/
def compileUsage : String := "Usage: tslisp compile <file> [output]"

/-- How the command `run` is called. -/
def runUsage : String := "Usage: tslisp run <file>"

/-- The commands. -/
def commands : String := "Available commands: compile, run, repl, version"

/-! ### Commands on files -/

/-- Read a source file and compile it to a script. -/
def compileSource (settings : Settings) (path : String) : Action (Except Fault String) := do
  match (← get).files.readText path with
  | .error fault => return .error fault
  | .ok source =>
      let compiler := Shell.compiler settings
      (compiler.notices source).forM Host.notify
      match compiler.script source with
      | .error error => return .error (.refused error)
      | .ok script => return .ok script

/-- Write a text to a file: open it, which makes it empty, and then write. -/
def writeFile (path text : String) : Action (Except Fault Unit) := do
  match (← get).files.create path with
  | .error fault => return .error fault
  | .ok (place, files) =>
      modify fun host => { host with files }
      let host ← get
      let (result, files) := host.files.fill place text host.diskFault
      set { host with files }
      return result

/-- Compile a file, to another file or to standard output.  Nothing is written
    before the whole file is compiled. -/
def compile (settings : Settings) : List String → Action (Except Fault Int)
  | [] => do
      Host.errLine compileUsage
      return .ok 1
  | path :: rest => do
      match ← compileSource settings path with
      | .error fault => return .error fault
      | .ok script =>
          match rest with
          | [] =>
              Host.outLine script
              return .ok 0
          | output :: _ =>
              match ← writeFile output (script ++ "\n") with
              | .error fault => return .error fault
              | .ok _ => return .ok 0

/-- Compile a file and run the script. -/
def runFile (settings : Settings) (path : String) : Action (Except Fault Int) := do
  Host.errLine (Style.cyan.paint ("[TSLisp " ++ version ++ "] Running " ++ path))
  match ← compileSource settings path with
  | .error fault => return .error fault
  | .ok script =>
      match ← Execution.run settings none none script with
      | .error fault => return .error fault
      | .ok result =>
          Host.out result.stdout
          if result.ok then
            Host.err result.stderr
            return .ok 0
          else
            Host.errLine (Style.failure.paint ("Runtime Error: " ++ result.stderr))
            return .ok 1

/-! ### The command line -/

/-- Carry out a command, and let its faults pass. -/
def dispatch (settings : Settings) (input : Shell.Input) :
    List String → Action (Except Fault Int)
  | [] => do
      Host.outLine usage
      return .ok 1
  | "compile" :: args => compile settings args
  | "run" :: [] => do
      Host.outLine runUsage
      return .ok 1
  | "run" :: path :: _ => runFile settings path
  | "repl" :: args => Shell.run settings (!args.contains "--no-exec") input
  | "version" :: _ => do
      Host.outLine ("TSLisp " ++ version)
      return .ok 0
  | name :: _ => do
      Host.outLine ("Unknown command: " ++ name)
      Host.outLine commands
      return .ok 1

/-- Report a fault that has an exit code, and let the others pass. -/
def report : Except Fault Int → Action (Except Fault Int)
  | .error (.refused error) => do
      Host.errLine (Style.failure.paint ("Syntax Error: " ++ error.message))
      return .ok 1
  | .error (.file error) => do
      Host.errLine (Style.failure.paint ("Error: " ++ error.message))
      return .ok 1
  | .error .interrupted => return .ok 130
  | result => return result

/-- Carry out a command. -/
def run (settings : Settings) (input : Shell.Input) (args : List String) :
    Action (Except Fault Int) := do
  if Level.isStranger settings.logLevel then
    return .error (.badLevel (Level.capitalized settings.logLevel))
  else report (← dispatch settings input args)

end Command

end SexpScript
