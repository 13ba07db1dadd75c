import SexpScript.Command

/-! # The program

    The outer layer: it looks up the variables and the files that a command may
    need, carries the command out, and shows what the journal says.  It starts
    no other programs, so the shell compiles without evaluating and a run reports its
    program as missing.
-/

namespace SexpScript.Main

/-! ### Looking up -/

/-- The variables that matter, as far as they are set. -/
def lookUpVariables : IO Settings.Variables := do
  let settings := Settings.fields.map Settings.Field.variableName
  let names := settings ++ settings.map String.toLower ++ Execution.keptVariables
  names.filterMapM fun name => do return (← IO.getEnv name).map fun value => (name, value)

/-- The text of the file of variables, if there is one. -/
def lookUpFile : IO String := do
  let path := (← IO.currentDir) / ".env"
  if ← path.pathExists then IO.FS.readFile path else return ""

/-- Add what a path names to a file system. -/
def lookUpPath (fs : FileSystem) (path : String) : IO FileSystem := do
  match fs.walk (fs.origin path) (FileSystem.names path) with
  | .error _ => return fs
  | .ok place =>
      let found := (← IO.currentDir) / path
      if ← found.isDir then return { fs with directories := place :: fs.directories }
      else if ← found.pathExists then return fs.put place (← IO.FS.readBinFile found)
      else return fs

/-- The paths on the way to a path, itself included. -/
def stages (path : String) : List String :=
  let names := FileSystem.names path
  ((List.range names.length).map fun n => "/".intercalate (names.take (n + 1))).filter (· ≠ "")

/-- The file system as far as the arguments name it. -/
def lookUpFiles (args : List String) : IO FileSystem := do
  let here := (FileSystem.names (← IO.currentDir).toString).filter (· ≠ "")
  (args.flatMap stages).foldlM lookUpPath { current := here, directories := [], files := [] }

/-! ### Carrying out -/

/-- Milliseconds with two places. -/
def milliseconds (nanoseconds : Nat) : String :=
  let hundredths := nanoseconds / 10000
  toString (hundredths / 100) ++ "." ++ toString (hundredths / 10 % 10) ++
    toString (hundredths % 10)

/-- Show one entry of a journal. -/
def present (elapsed : String) (threshold : Nat) : Entry → IO Unit
  | .out text => do
      let stdout ← IO.getStdout
      stdout.putStr text
      stdout.flush
  | .err text => IO.eprint text
  | .notice notice => do
      if threshold ≤ notice.level.weight then IO.eprintln (notice.line elapsed)
  | _ => pure ()

/-- Carry out an action, show what it did and write what it wrote. -/
def perform {α : Type} (settings : Settings) (host : Host) (action : Action α) :
    IO (α × Host) := do
  let before ← IO.monoNanosNow
  match action.run { host with journal := [] } with
  | (value, after) =>
      let elapsed := milliseconds ((← IO.monoNanosNow) - before)
      after.journal.forM (present elapsed (Level.threshold settings.logLevel))
      for (place, bytes) in host.files.changes after.files do
        IO.FS.writeBinFile ("/" ++ "/".intercalate place) bytes
      return (value, after)

/-- The shell, on what is typed. -/
partial def shell (settings : Settings) (host : Host) (session : Option Session) :
    IO (Except Fault Int × Host) := do
  let (_, host) ← perform settings host (Host.out settings.prompt)
  let line ← (← IO.getStdin).getLine
  if line.isEmpty then perform settings host (Shell.leave session false)
  else
    match ← perform settings host (Shell.respond settings session line) with
    | (.again session, host) => shell settings host session
    | (.stop session result, host) =>
        let (_, host) ← perform settings host (Shell.endSession session)
        return (result, host)

/-- The exit code of a command.  A fault that has none is shown. -/
def exitCode : Except Fault Int → IO UInt32
  | .ok code => return code.toNat.toUInt32
  | .error fault => do
      IO.eprintln fault.message
      return 1

/-- Carry out a command line. -/
def run (settings : Settings) (host : Host) (args : List String) : IO UInt32 := do
  if Level.isStranger settings.logLevel then
    return ← exitCode (.error (.badLevel (Level.capitalized settings.logLevel)))
  match args with
  | "repl" :: options =>
      let (started, host) ← perform settings host
        (Shell.start settings (!options.contains "--no-exec"))
      let (result, host) ← match started with
        | .error fault => pure (.error fault, host)
        | .ok session => shell settings host session
      let (result, _) ← perform settings host (Command.report result)
      exitCode result
  | args =>
      let (result, _) ← perform settings host (Command.run settings { lines := [] } args)
      exitCode result

end SexpScript.Main

open SexpScript in
/-- The entry point. -/
def main (args : List String) : IO UInt32 := do
  let environment ← Main.lookUpVariables
  match Settings.load environment (Settings.readVariables (← Main.lookUpFile)) with
  | .error defects =>
      for (field, _) in defects do
        IO.eprintln (field.variableName ++ " has a value that cannot be used")
      return 1
  | .ok settings =>
      Main.run settings { environment, files := ← Main.lookUpFiles (args.drop 1) } args
