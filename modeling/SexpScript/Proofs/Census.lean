import SexpScript.Proofs.Operands

/-! # Reading with and without notices

    A compiler in debug mode counts the forms that it has read and logs one line for each
    source.  All else is as without debug mode.

    - The count goes through all parts of the forms (`length_partsAll`).
    - Counting has a limit of its own.  Forms are built from a bounded number of levels of
      groups, and leaves add one more, so everything that is built can be counted
      (`count?_of_ofTokens`).
    - So what is read does not depend on the mode, and in debug mode there is one notice
      about it, whether it is forms or an error (`parse_eq`).
-/

namespace SexpScript

namespace Form

/-! ### Counting -/

mutual

/-- A form has as many parts as it counts for. -/
theorem length_parts : (form : Form) → (parts form).length = size form
  | .empty => rfl
  | .leaf _ => rfl
  | .call _ args => by rw [parts, size, List.length_cons, length_partsAll args]
  | .defconstant _ _ => rfl
  | .defvar _ _ => rfl
  | .defun _ _ body => by rw [parts, size, List.length_cons, length_partsAll body]

/-- So have several forms. -/
theorem length_partsAll : (forms : List Form) → (partsAll forms).length = sizeAll forms
  | [] => rfl
  | form :: forms => by
    rw [partsAll, sizeAll, List.length_append, length_parts form, length_partsAll forms]

end

/-- What is built from tokens can be counted, and the count is that of its parts. -/
theorem count?_of_ofTokens {tokens : List Token} {forms : List Form}
    (h : ofTokens tokens = .ok forms) :
    count? Nesting.census forms = some (partsAll forms).length := by
  have hbuilt : depthAll forms ≤ Nesting.forms + 1 := depthAll_le_of_ofTokens h
  have hroom : Nesting.forms + 1 ≤ Nesting.census := Nesting.forms_lt_census
  rw [count?, if_pos (Nat.le_trans hbuilt hroom), length_partsAll]

end Form

namespace Compiler

/-! ### Notices -/

/-- The notice about what came of reading a source. -/
def noticeOf (source : String) : Except SyntaxError (List Form) → Notice
  | .ok forms => .parsed source.length (Form.partsAll forms).length
  | .error error => .parseFailed source error

/-- A source is read as its tokens are.  There is one notice about it in debug mode, and none
    otherwise. -/
theorem parse_eq (c : Compiler) (source : String) :
    c.parse source =
      (c.forms source, if c.debug then [noticeOf source (c.forms source)] else []) := by
  rw [forms_eq]
  unfold parse
  cases h : Form.ofTokens (tokenize source) with
  | error failure => rfl
  | ok forms =>
    -- Only here something else could come out in debug mode: forms that cannot be counted.
    simp only [Form.count?_of_ofTokens h]
    cases c.debug <;> rfl

/-- The line of the log for what came of a source, where reading took `elapsed`
    milliseconds. -/
inductive IsLogged (source elapsed : String) : Except SyntaxError (List Form) → String → Prop
  /-- The length of the source, and how many forms there are in what was read. -/
  | parsed (forms : List Form) :
      IsLogged source elapsed (.ok forms)
        ("DEBUG:tslisp.parser:" ++
          ("Parsed " ++ toString source.length ++ " bytes in " ++ elapsed ++
            "ms. Nodes: " ++ toString (Form.partsAll forms).length))
  /-- The source, quoted, and its diagnostic. -/
  | failed (error : SyntaxError) :
      IsLogged source elapsed (.error error)
        ("DEBUG:tslisp.parser:" ++
          ("Parse failed for " ++ Text.quoted source ++ ": " ++ error.message))

theorem isLogged_noticeOf (source elapsed : String) (result : Except SyntaxError (List Form)) :
    IsLogged source elapsed result ((noticeOf source result).line elapsed) := by
  have horigin : "DEBUG" ++ ":" ++ "tslisp.parser" ++ ":" = "DEBUG:tslisp.parser:" := by decide
  have hline : (noticeOf source result).line elapsed =
      "DEBUG:tslisp.parser:" ++ (noticeOf source result).message elapsed := by
    cases result with
    | ok forms => exact congrArg (· ++ _) horigin
    | error error => exact congrArg (· ++ _) horigin
  rw [hline]
  cases result with
  | ok forms => exact .parsed forms
  | error error => exact .failed error

/-- Debug mode changes only the log.  However deeply a source is nested, the same comes of it
    in both modes: its forms, or the same error.  A stage that runs out of levels gives an error
    like any other.  Without debug mode nothing is logged, and in debug mode one line is: how
    many forms there are in what was read, or why the source is refused. -/
theorem debug_changes_only_notices (slots source : String) :
    let quiet : Compiler := { slots, debug := false }
    let loud : Compiler := { slots, debug := true }
    ∃ result,
      quiet.parse source = (result, []) ∧
      (∃ notice, loud.parse source = (result, [notice]) ∧
        ∀ elapsed, IsLogged source elapsed result (notice.line elapsed)) ∧
      result = (Form.ofTokens (tokenize source)).mapError Failure.toSyntaxError ∧
      Failure.overflow.toSyntaxError.message = "Expression nested too deeply" := by
  intro quiet loud
  have hsame : loud.forms source = quiet.forms source := by rw [forms_eq, forms_eq]
  refine ⟨quiet.forms source, quiet.parse_eq source, ?_, quiet.forms_eq source, rfl⟩
  refine ⟨noticeOf source (quiet.forms source), ?_, fun elapsed => isLogged_noticeOf _ elapsed _⟩
  rw [← hsame]
  exact loud.parse_eq source

end Compiler

end SexpScript
