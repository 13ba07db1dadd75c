import SexpScript.Host.Child
import SexpScript.Json.Reading
import SexpScript.Json.Showing
import SexpScript.Text.Lines

/-! # Sessions

    A session is a child that evaluates code, text after text, and keeps what the
    texts define.  A text is sent as one line of JSON.  The child prints what the
    code prints, then a NUL character and its reply, a JSON object on one line.

    An answer is read line by line, as it is heard.  Everything up to the first NUL is output,
    and the rest of that line is the reply.  When no line is left and no NUL came, the child
    has ended.
-/

namespace SexpScript

/-- A session: the program it runs and, once started, its child. -/
structure Session where
  /-- The program. -/
  binary : String
  /-- The child, while there is one. -/
  child : Option Child := none
  deriving DecidableEq, Repr

namespace Session

/-! ### Answers -/

/-- The character before a reply. -/
def sentinel : Char := Char.ofNat 0

/-- What is heard of the child for one text of code. -/
inductive Answer where
  /-- Output, then a reply. -/
  | reply (output reply : String)
  /-- Output, and no reply. -/
  | silence (output : String)
  deriving DecidableEq, Repr

/-- Take an answer from the lines of a buffer, and leave the rest.  `read` holds the
    lines read so far, last first. -/
def takeAnswerFrom (read : List (List Char)) : List (List Char) → Answer × List Char
  | [] => (.silence (String.ofList read.reverse.flatten), [])
  | line :: lines =>
      match line.dropWhile (· ≠ sentinel) with
      | [] => takeAnswerFrom (line :: read) lines
      | _ :: reply =>
          let output := (line.takeWhile (· ≠ sentinel) :: read).reverse.flatten
          (.reply (String.ofList output) (String.ofList reply), lines.flatten)

/-- Take an answer from a buffer, and leave the rest. -/
def takeAnswer (buffer : List Char) : Answer × List Char :=
  takeAnswerFrom [] (Text.linesFrom [] buffer)

/-- The outcome of one text of code. -/
structure Result where
  /-- What the code printed. -/
  output : String
  /-- Its value, null if it has none. -/
  value : Json := .null
  /-- What went wrong, null if nothing did. -/
  error : Json := .null
  /-- Whether the session has ended. -/
  closed : Bool := false
  deriving Repr, BEq

/-- Whether the code ran without an error. -/
def Result.ok (result : Result) : Bool := result.error.isNull

/-- The error of a reply that gives none. -/
def unknownError : Json := .ofText "unknown error"

/-- The outcome that a reply reports. -/
def Result.ofReply (output reply : String) : Except Fault Result :=
  match Json.read reply with
  | .error obstacle => .error (.unreadReply obstacle)
  | .ok (.object fields) =>
      .ok {
        output
        value := (Json.field? fields "value").getD .null
        error :=
          if ((Json.field? fields "ok").getD .null).truth then .null
          else (Json.field? fields "error").getD unknownError }
  | .ok _ => .error .shapelessReply

/-! ### The life of a session -/

/-- The program that a child of a session runs: it evaluates each line it reads
    and answers with a reply. -/
def script : String :=
  "\nconst readline = require('readline');\n" ++
  "const util = require('util');\n" ++
  "const vm = require('vm');\n\n" ++
  "const rl = readline.createInterface(\x7b input: process.stdin, terminal: false \x7d);\n\n" ++
  "rl.on('line', (line) => \x7b\n" ++
  "  let reply;\n" ++
  "  try \x7b\n" ++
  "    const value = vm.runInThisContext(JSON.parse(line));\n" ++
  "    reply = \x7b ok: true, value: value === undefined ? null : util.inspect(value) \x7d;\n" ++
  "  \x7d catch (err) \x7b\n" ++
  "    reply = \x7b ok: false, error: String(err) \x7d;\n" ++
  "  \x7d\n" ++
  "  process.stdout.write('\\u0000' + JSON.stringify(reply) + '\\n');\n" ++
  "\x7d);\n"

/-- Whether a session has a child that has not ended. -/
def alive (session : Session) : Bool :=
  match session.child with
  | some child => child.alive
  | none => false

/-- Start a session.  When the program is refused the session stays as it was. -/
def start (session : Session) : Action (Except Refusal Session) := do
  Host.notify (.sessionStarting session.binary)
  match ← Child.spawn [session.binary, "-e", script] with
  | .ok child => return .ok { session with child := some child }
  | .error refusal => return .error refusal

/-- The line by which a text of code is sent. -/
def request (code : String) : String := Json.quote code ++ "\n"

/-- Take the answer that was heard of a child. -/
def receive (child : Child) : Action (Except Fault Result × Child) :=
  match takeAnswer child.buffer with
  | (.reply output reply, rest) =>
      pure (Result.ofReply output reply, { child with buffer := rest })
  | (.silence output, rest) =>
      let child := { child with buffer := rest }
      if child.interrupt then pure (.error .interrupted, { child with interrupt := false })
      else do
        let (code, child) ← child.wait none
        Host.notify (.sessionEnded (code.getD 0))
        return (.ok { output, closed := true }, child)

/-- Evaluate a text of code. -/
def execute (session : Session) (code : String) : Action (Except Fault Result × Session) :=
  match session.child with
  | none => pure (.error (.lost .notRunning), session)
  | some child =>
      if !child.alive then pure (.error (.lost .notRunning), session)
      else do
        let (sent, child) ← child.write (request code)
        if !sent then return (.error (.lost .exited), { session with child := some child })
        Host.record (.request .flush)
        let (result, child) ← receive child
        return (result, { session with child := some child })

/-- Seconds that a child is given to end when it is asked to. -/
def grace : Nat := 5

/-- End a child: ask it first, and make it end if it does not. -/
def stop (child : Child) : Action Child := do
  let (code, child) ← (← child.terminate).wait (some grace)
  if code.isSome then return child
  let (_, child) ← (← child.kill).wait none
  return child

/-- End a session. -/
def close (session : Session) : Action Session :=
  match session.child with
  | none => pure session
  | some child => do
      if child.alive then
        let _ ← stop child
      return { session with child := none }

end Session

end SexpScript
