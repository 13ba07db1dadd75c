import SexpScript.Token.Basic
import SexpScript.Token.Numeral

/-! # Scanning source text

    The scan walks the source once, character by character.  Its state is the
    region it stands in, the chunk it is reading and the chunks it has read.
    Inside a string or a comment nothing splits a chunk; in code a blank ends
    the chunk and a paren is a chunk of its own.

    `Scan.run_append` says that the scan of a concatenation is the scan of the
    second text from where the first one left off.
-/

namespace SexpScript

/-! ### Regions -/

/-- Where the scan stands. -/
inductive Region where
  /-- Outside strings and comments. -/
  | code
  /-- After an opening double quote. -/
  | string
  /-- After a semicolon, up to the end of the line. -/
  | comment
  deriving DecidableEq, Repr

/-- The region after one more character. -/
def Region.next : Region → Char → Region
  | .code, c => if c = ';' then .comment else if c = '"' then .string else .code
  | .string, c => if c = '"' then .code else .string
  | .comment, c => if c = '\n' then .code else .comment

/-! ### The scan -/

/-- The state of the scan. -/
structure Scan where
  /-- The region after the last character. -/
  region : Region
  /-- The chunk being read, last character first. -/
  pending : List Char
  /-- The chunks read so far, last first. -/
  done : List (List Char)
  deriving DecidableEq, Repr

namespace Scan

/-- The scan before the first character. -/
def start : Scan := { region := .code, pending := [], done := [] }

/-- End the chunk being read, if there is one. -/
def flush (s : Scan) : Scan :=
  if s.pending.isEmpty then s else { s with pending := [], done := s.pending.reverse :: s.done }

/-- Whether a character is a paren. -/
def isParen (c : Char) : Bool := c = '(' || c = ')'

/-- Read one character. -/
def step (s : Scan) (c : Char) : Scan :=
  let region := s.region.next c
  if region = .code ∧ Text.isBlank c then { s.flush with region }
  else if region = .code ∧ isParen c then
    { s.flush with region, done := [c] :: s.flush.done }
  else { s with region, pending := c :: s.pending }

/-- Read a text from state `s`. -/
def run (s : Scan) (cs : List Char) : Scan := cs.foldl step s

/-- The chunks of a scan whose input has ended, in source order. -/
def chunks (s : Scan) : List (List Char) := s.flush.done.reverse

theorem run_append (s : Scan) (cs ds : List Char) : s.run (cs ++ ds) = (s.run cs).run ds :=
  List.foldl_append

end Scan

/-! ### Tokens of a text -/

/-- The chunks of a source text. -/
def chunks (source : String) : List String :=
  (Scan.start.run source.toList).chunks.map String.ofList

/-- The kind of a chunk.  Parens, truth values and keywords are matched as a
    whole, the other kinds by how the chunk begins. -/
def Token.Kind.ofChunk (chunk : String) : Token.Kind :=
  if chunk = "(" then .openParen
  else if chunk = ")" then .closeParen
  else if chunk = "true" ∨ chunk = "false" then .boolean
  else match Token.Kind.keywords.lookup chunk with
    | some kind => kind
    | none =>
      if Token.isNumeral chunk then .number
      else match chunk.toList with
        | '"' :: _ => .string
        | ';' :: _ => .comment
        | _ => .identifier

/-- The token of a chunk. -/
def Token.ofChunk (chunk : String) : Token := { kind := .ofChunk chunk, text := chunk }

/-- The tokens of a source text, comments included. -/
def tokenize (source : String) : List Token := (chunks source).map Token.ofChunk

end SexpScript
