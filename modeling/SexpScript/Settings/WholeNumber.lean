import SexpScript.Text.Blank
import SexpScript.Text.Digit

/-! # Whole numbers

    How a setting writes a whole number.

    - A plain number is an optional minus sign and digits, with no zero in front
      of other digits.
    - A loose number is brought into plain form first: spacing around it, a plus
      sign, zeros in front, a fraction of zeros and single underscores are left
      out.  What is then not plain is no number.

    Zeros in front may have underscores among them, and a minus sign may follow
    them: `0__5` is five and `0-5` is minus five.
-/

namespace SexpScript.WholeNumber

/-- Why a text is no number. -/
inductive Flaw where
  /-- The text does not have the form of a number. -/
  | malformed
  /-- The number has too many digits. -/
  | tooLong
  deriving DecidableEq, Repr

/-- The most digits that a number may have. -/
def digitLimit : Nat := 4300

/-! ### Plain numbers -/

/-- Read digits without a sign.  Too many digits are reported as such whatever
    follows them. -/
def readDigits (cs : List Char) : Except Flaw Nat :=
  let digits := cs.takeWhile Char.isDigit
  if digits.head? = some '0' then if cs = ['0'] then .ok 0 else .error .malformed
  else if digitLimit < digits.length then .error .tooLong
  else if digits.isEmpty || digits.length < cs.length then .error .malformed
  else .ok (Text.digitsValue digits)

/-- Read a plain number. -/
def readPlain : List Char → Except Flaw Int
  | '-' :: cs => (readDigits cs).map fun n => -(n : Int)
  | cs => (readDigits cs).map fun n => (n : Int)

/-! ### Loose numbers -/

/-- Whether a character is a digit from `1` to `9`. -/
def isLeading (c : Char) : Bool := c.isDigit && c ≠ '0'

/-- What is left of a text once a zero in front of it is gone, with all zeros and
    underscores that follow.  `last` is the last character that was passed: it
    stays when the text ends here, and in front of a point. -/
def afterZero (last : Char) : List Char → Option (List Char)
  | [] => some [last]
  | c :: cs =>
      if c = '0' || c = '_' then afterZero c cs
      else if isLeading c || c = '-' then some (c :: cs)
      else if c = '.' then some (last :: c :: cs)
      else none

/-- Leave out zeros in front.  A text that does not start with a digit has no
    such form. -/
def dropZeros : List Char → Option (List Char)
  | [] => none
  | c :: cs =>
      if c = '0' then afterZero c cs
      else if isLeading c then some (c :: cs)
      else none

/-- Leave out a point and the zeros after it, where they end the text. -/
def dropFraction (cs : List Char) : List Char :=
  match cs.dropWhile (· ≠ '.') with
  | _ :: zeros =>
      if !zeros.isEmpty && zeros.all (· = '0') then cs.takeWhile (· ≠ '.') else cs
  | [] => cs

/-- Whether each underscore stands alone between two other characters.  `inside`
    says whether an underscore may come next. -/
def isGrouped (inside : Bool) : List Char → Bool
  | [] => inside
  | c :: cs => if c = '_' then inside && isGrouped false cs else isGrouped true cs

/-- Leave out underscores, where each stands alone. -/
def dropUnderscores (cs : List Char) : List Char :=
  if isGrouped false cs then cs.filter (· ≠ '_') else cs

/-- Leave out all that a number without a sign may have besides its plain
    form. -/
def tidyDigits (cs : List Char) : Option (List Char) :=
  (dropZeros cs).map fun cs => dropUnderscores (dropFraction cs)

/-- The plain form of a loose number. -/
def tidy (cs : List Char) : Option (List Char) :=
  match Text.trimSpacing cs with
  | '+' :: cs => tidyDigits cs
  | '-' :: cs => (tidyDigits cs).map ('-' :: ·)
  | cs => tidyDigits cs

/-! ### Reading -/

/-- Read a number: as it stands, or else in its plain form. -/
def read (text : String) : Except Flaw Int :=
  match readPlain text.toList with
  | .error .malformed =>
      match tidy text.toList with
      | some cs => readPlain cs
      | none => .error .malformed
  | result => result

end SexpScript.WholeNumber
