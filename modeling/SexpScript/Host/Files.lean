import SexpScript.Host.Fault
import SexpScript.Text.Lines

/-! # Files

    A tree of directories and files, and how a path finds its way through it.
    A path is walked name by name from the working directory, or from the root when it
    begins with a slash.  Every name but the last must be that of a directory.

    A file is written in two steps.  Opening it makes it empty, and what is written then may come
    to be there only in part (`DiskFault`).  Permissions, links and devices are left out.
-/

namespace SexpScript

/-- A place in the tree: the names on the way from the root. -/
abbrev Place := List String

/-- Directories and files. -/
structure FileSystem where
  /-- The working directory.  It exists, and so do the directories above it. -/
  current : Place
  /-- The other directories. -/
  directories : List Place
  /-- The files with their contents. -/
  files : List (Place × ByteArray)

/-- How a file fails that is open for writing. -/
structure DiskFault where
  /-- The cause. -/
  errno : Errno
  /-- How many bytes are kept of what is written. -/
  kept : Nat
  deriving DecidableEq, Repr

namespace FileSystem

/-! ### Paths -/

/-- Split a path at its slashes. -/
def splitSlash : List Char → List (List Char)
  | [] => [[]]
  | c :: cs =>
      if c = '/' then [] :: splitSlash cs
      else
        match splitSlash cs with
        | [] => [[c]]
        | name :: names => (c :: name) :: names

/-- The names of a path.  An empty name stands before a leading slash, after a
    trailing one, and between two that meet. -/
def names (path : String) : List String := (splitSlash path.toList).map String.ofList

/-- Where the walk of a path begins. -/
def origin (fs : FileSystem) (path : String) : Place :=
  if path.toList.head? = some '/' then [] else fs.current

/-- Whether a directory is at a place. -/
def isDirectory (fs : FileSystem) (place : Place) : Bool :=
  place.isPrefixOf fs.current || fs.directories.contains place

/-- The content of the file at a place. -/
def content? (fs : FileSystem) (place : Place) : Option ByteArray := fs.files.lookup place

/-- Why a walk cannot go on from a place that is no directory. -/
def obstacle (fs : FileSystem) (place : Place) : Errno :=
  if (fs.content? place).isSome then .notDirectory else .noEntry

/-- The bytes that a name may have. -/
def nameLimit : Nat := 255

/-- The bytes that a path may have. -/
def pathLimit : Nat := 4095

/-- Walk from a place by names. -/
def walk (fs : FileSystem) (place : Place) : List String → Except Errno Place
  | [] => .ok place
  | name :: rest =>
      if !fs.isDirectory place then .error (fs.obstacle place)
      else if name = "" ∨ name = "." then fs.walk place rest
      else if name = ".." then fs.walk place.dropLast rest
      else if nameLimit < name.utf8ByteSize then .error .nameTooLong
      else fs.walk (place ++ [name]) rest

/-- Refuse a path that is empty or too long. -/
def checkPath (path : String) : Except Errno Unit :=
  if path = "" then .error .noEntry
  else if pathLimit < path.utf8ByteSize then .error .nameTooLong
  else .ok ()

/-- What comes of opening a path.  A path with a NUL character is not even tried. -/
def opened {α : Type} (path : String) (result : Except Errno α) : Except Fault α :=
  if path.toList.contains (Char.ofNat 0) then .error .nulInPath
  else match result with
    | .ok value => .ok value
    | .error errno => .error (.file { errno, path := some path })

/-! ### Reading -/

/-- The bytes of the file that a path names. -/
def readBytes (fs : FileSystem) (path : String) : Except Errno ByteArray := do
  checkPath path
  let place ← fs.walk (fs.origin path) (names path)
  if fs.isDirectory place then .error .isDirectory
  else match fs.content? place with
    | some bytes => .ok bytes
    | none => .error .noEntry

/-- The text of the file that a path names. -/
def readText (fs : FileSystem) (path : String) : Except Fault String := do
  match String.fromUTF8? (← opened path (fs.readBytes path)) with
  | some text => .ok (Text.unifyNewlines text)
  | none => .error .undecodable

/-! ### Writing -/

/-- Put a file at a place. -/
def put (fs : FileSystem) (place : Place) (bytes : ByteArray) : FileSystem :=
  if (fs.content? place).isSome then
    { fs with files := fs.files.map fun f => if f.1 = place then (place, bytes) else f }
  else { fs with files := fs.files ++ [(place, bytes)] }

/-- The place that a path names for writing.  All names but the last are
    walked.  A path that ends in a slash, or in a step to a directory, names
    no file. -/
def target (fs : FileSystem) (path : String) : Except Errno Place := do
  checkPath path
  let all := names path
  let last := all.getLast?.getD ""
  let place ← fs.walk (fs.origin path) ((all.reverse.dropWhile (· = "")).drop 1).reverse
  if !fs.isDirectory place then .error (fs.obstacle place)
  else if last = "" ∨ last = "." ∨ last = ".." then .error .isDirectory
  else if nameLimit < last.utf8ByteSize then .error .nameTooLong
  else if fs.isDirectory (place ++ [last]) then .error .isDirectory
  else .ok (place ++ [last])

/-- Open the file that a path names for writing.  It is there from then on, and empty. -/
def create (fs : FileSystem) (path : String) : Except Fault (Place × FileSystem) := do
  let place ← opened path (fs.target path)
  return (place, fs.put place .empty)

/-- Write a text to a file that was opened.  Where that fails, the file keeps the beginning. -/
def fill (fs : FileSystem) (place : Place) (text : String) :
    Option DiskFault → Except Fault Unit × FileSystem
  | none => (.ok (), fs.put place text.toUTF8)
  | some fault =>
      (.error (.file { errno := fault.errno, path := none }),
        fs.put place (text.toUTF8.extract 0 fault.kept))

/-- The files that are new, or that have another content than before. -/
def changes (before after : FileSystem) : List (Place × ByteArray) :=
  after.files.filter fun f =>
    match before.content? f.1 with
    | some bytes => bytes.data ≠ f.2.data
    | none => true

end FileSystem

end SexpScript
