import SexpScript.Error
import SexpScript.Json.Basic
import SexpScript.Text.Quoted

/-! # Faults

    What can go wrong outside the compiler: files that cannot be opened or written, programs
    that cannot be started, a session that is gone, a reply that cannot be understood or
    shown.  A `Fault` is whatever ends a command before its exit code is known.
-/

namespace SexpScript

/-! ### Files and programs -/

/-- Why the operating system refuses a file or a program. -/
inductive Errno where
  | noEntry
  | permissionDenied
  | notDirectory
  | isDirectory
  | noSpace
  | nameTooLong
  /-- Any other cause. -/
  | other (number : Nat) (text : String) (h : number ∉ [2, 13, 20, 21, 28, 36])
  deriving DecidableEq, Repr

namespace Errno

/-- The number of a cause. -/
def number : Errno → Nat
  | noEntry => 2
  | permissionDenied => 13
  | notDirectory => 20
  | isDirectory => 21
  | noSpace => 28
  | nameTooLong => 36
  | other number _ _ => number

/-- The wording of a cause. -/
def text : Errno → String
  | noEntry => "No such file or directory"
  | permissionDenied => "Permission denied"
  | notDirectory => "Not a directory"
  | isDirectory => "Is a directory"
  | noSpace => "No space left on device"
  | nameTooLong => "File name too long"
  | other _ text _ => text

end Errno

/-- A file, or a program, that the operating system refuses. -/
structure FileError where
  /-- The cause. -/
  errno : Errno
  /-- The path as it was given, where one is known. -/
  path : Option String
  deriving DecidableEq, Repr

/-- The diagnostic of a file that is refused. -/
def FileError.message (error : FileError) : String :=
  "[Errno " ++ toString error.errno.number ++ "] " ++ error.errno.text ++
    match error.path with
    | some path => ": " ++ Text.quoted path
    | none => ""

/-! ### Sessions -/

/-- Why a session takes no more code. -/
inductive Loss where
  /-- It was never started, or it has ended. -/
  | notRunning
  /-- It went away while code was sent. -/
  | exited
  deriving DecidableEq, Repr

/-- The diagnostic of a lost session. -/
def Loss.message : Loss → String
  | notRunning => "node session is not running"
  | exited => "node session exited"

/-! ### Faults -/

/-- What ends a command without an exit code. -/
inductive Fault where
  /-- The program is refused. -/
  | refused (error : SyntaxError)
  /-- A file or a program is refused. -/
  | file (error : FileError)
  /-- A path, or a command, holds a NUL character, which none can. -/
  | nulInPath
  /-- The bytes of a file, or of what a program prints, are no UTF-8 text. -/
  | undecodable
  /-- The session is gone. -/
  | lost (loss : Loss)
  /-- A reply is not read as JSON. -/
  | unreadReply (obstacle : Json.Obstacle)
  /-- A reply is JSON, but no object. -/
  | shapelessReply
  /-- What is to be shown has a surrogate without its partner and is no text. -/
  | unencodable
  /-- The log level bears the name of something that is no level. -/
  | badLevel (name : String)
  /-- The time that a program may run is too long to be measured. -/
  | timeTooLong
  /-- The user interrupted. -/
  | interrupted
  deriving DecidableEq, Repr

/-- The diagnostic of a fault. -/
def Fault.message : Fault → String
  | refused error => error.message
  | file error => error.message
  | nulInPath => "embedded null byte"
  | undecodable => "the bytes are no UTF-8 text"
  | lost loss => loss.message
  | unreadReply .malformed => "the reply is no JSON"
  | unreadReply .tooManyDigits => "the reply has a number of too many digits"
  | unreadReply .tooDeep => "the reply is nested too deeply"
  | shapelessReply => "the reply is no JSON object"
  | unencodable => "the text cannot be encoded"
  | badLevel name => "no log level: " ++ name
  | timeTooLong => "the time limit is too long"
  | interrupted => "interrupted"

/-- Why a program cannot be started. -/
inductive Refusal where
  /-- The operating system refuses it. -/
  | system (errno : Errno)
  /-- Its command holds a NUL character. -/
  | nul
  deriving DecidableEq, Repr

/-- The refusal of a program that is missing. -/
def Refusal.missing : Refusal := .system .noEntry

/-- The fault of a program that cannot be started. -/
def Refusal.fault (binary : String) : Refusal → Fault
  | .system errno => .file { errno, path := some binary }
  | .nul => .nulInPath

end SexpScript
