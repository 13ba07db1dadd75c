import SexpScript.Proofs.Acceptance

/-! # Programs one after another

    A program that compiles can be put in front of any other, on lines of its own:
    the texts of both come out in order, and what is wrong with the second is said
    as if it stood alone.  The argument goes through the stages.

    - Scanning: an accepted source does not end inside a string, so the newline
      between the two cuts the chunks (`tokenize_append_newline`).
    - Reading: after an accepted program no group is open, and the groups that were
      read only stand in front of those to come (`readFrom_base`).
    - Building and writing go group by group, the first program's all succeed
      (`ofItems_append`, `writeForms_append`).
-/

namespace SexpScript

namespace Reading

/-! ### Reading behind what was read -/

/-- A reading, behind items that were read before. -/
def behind (r : Reading) (before : List Item) : Reading := { r with items := before ++ r.items }

theorem closeAll_base (base current bottom : List Item) (outer : List (List Item)) :
    closeAll current (outer ++ [bottom ++ base]) =
      base.reverse ++ closeAll current (outer ++ [bottom]) := by
  induction outer generalizing current with
  | nil => simp [closeAll]
  | cons items outer ih => exact ih (.group current.reverse :: items)

/-- Items at the bottom of the stack of open groups stay there.  The bottom is the
    last open group, or the current one if no other is open. -/
theorem readFrom_base_aux (limit : Nat) (depth : Int) (base : List Item) (ts : List Token) :
    (∀ current, readFrom limit depth (current ++ base) [] ts =
      (readFrom limit depth current [] ts).map fun r => r.behind base.reverse) ∧
    (∀ current outer bottom, readFrom limit depth current (outer ++ [bottom ++ base]) ts =
      (readFrom limit depth current (outer ++ [bottom]) ts).map fun r =>
        r.behind base.reverse) := by
  -- Both parts at once: a paren leads from one to the other.
  induction ts with
  | nil =>
    refine ⟨fun current => ?_, fun current outer bottom => ?_⟩
    · simp [readFrom, closeAll, Except.map, behind]
    · simp [readFrom, closeAll_base, Except.map, behind]
  | cons t ts ih =>
    obtain ⟨ihBottom, ihOuter⟩ := ih
    rcases t.paren_or_plain with ht | ht | ht
    · refine ⟨fun current => ?_, fun current outer bottom => ?_⟩
      · rw [readFrom_open ht, readFrom_open ht]
        split
        · exact ihOuter [] [] current
        · rfl
      · rw [readFrom_open ht, readFrom_open ht, List.length_append, List.length_append]
        split
        · next h =>
          rw [if_pos (by simpa using h)]
          exact ihOuter [] (current :: outer) bottom
        · next h =>
          rw [if_neg (by simpa using h)]
          rfl
    · refine ⟨fun current => ?_, fun current outer bottom => ?_⟩
      · rw [readFrom_close_nil ht, readFrom_close_nil ht]
        simp [Except.map, behind]
      · cases outer with
        | nil =>
          rw [List.nil_append, List.nil_append, readFrom_close_cons ht, readFrom_close_cons ht]
          exact ihBottom (.group current.reverse :: bottom)
        | cons above outer =>
          rw [List.cons_append, List.cons_append, readFrom_close_cons ht, readFrom_close_cons ht]
          exact ihOuter _ outer bottom
    · refine ⟨fun current => ?_, fun current outer bottom => ?_⟩
      · rw [readFrom_plain ht, readFrom_plain ht]
        split
        · exact ihBottom (.token t :: current)
        · rfl
      · rw [readFrom_plain ht, readFrom_plain ht, List.length_append, List.length_append]
        split
        · next h =>
          rw [if_pos (by simpa using h)]
          exact ihOuter _ outer bottom
        · next h =>
          rw [if_neg (by simpa using h)]
          rfl

/-- A pass that begins behind `base` reads as one that begins with nothing. -/
theorem readFrom_base (limit : Nat) (depth : Int) (base : List Item) (ts : List Token) :
    readFrom limit depth base [] ts =
      (readItems limit depth ts).map fun r => r.behind base.reverse :=
  (readFrom_base_aux limit depth base ts).1 []

end Reading

namespace Form

/-! ### Building -/

theorem mapM_append_of_ok {α β ε : Type} {f : α → Except ε β} {xs xs' : List α} {ys : List β}
    (h : xs.mapM f = .ok ys) : (xs ++ xs').mapM f = (xs'.mapM f).map (ys ++ ·) := by
  rw [List.mapM_append, h]
  cases xs'.mapM f <;> rfl

theorem ofItems_append {items : List Item} {forms : List Form} (h : ofItems items = .ok forms)
    (rest : List Item) : ofItems (items ++ rest) = (ofItems rest).map (forms ++ ·) := by
  rw [ofItems, List.filterMap_append]
  exact mapM_append_of_ok h

/-- Tokens behind an accepted program are read as if alone. -/
theorem ofTokens_append {tokens : List Token} {forms : List Form}
    (h : ofTokens tokens = .ok forms) (more : List Token) :
    ofTokens (tokens ++ more) = (ofTokens more).map (forms ++ ·) := by
  obtain ⟨items, hspells, hgroups, hdepth, hitems⟩ :=
    exists_items_of_isProgram (isProgram_of_ofTokens h) (levelsAll_le_of_ofTokens h)
  -- An accepted program leaves its groups at the bottom and nothing open.
  have hread : readItems Nesting.brackets 0 (withoutComments (tokens ++ more)) =
      (readItems Nesting.brackets 0 (withoutComments more)).map fun r => r.behind items := by
    rw [withoutComments_append, Reading.readItems_append hspells hgroups hdepth,
      Reading.readFrom_base, List.reverse_reverse]
  show (readItems Nesting.brackets 0 (withoutComments (tokens ++ more)) >>= _) = _
  rw [hread]
  show _ = ((readItems Nesting.brackets 0 (withoutComments more)) >>= _).map _
  cases readItems Nesting.brackets 0 (withoutComments more) with
  | error failure => rfl
  | ok r =>
    show (if r.depth > 0 then _ else if r.depth < 0 then _ else ofItems (items ++ r.items)) =
      Except.map _ (if r.depth > 0 then _ else if r.depth < 0 then _ else ofItems r.items)
    rw [ofItems_append hitems]
    split
    · rfl
    · split <;> rfl

end Form

namespace Compiler

/-! ### Compiling -/

/-- The forms of a source behind an accepted one. -/
theorem forms_append_newline {c : Compiler} {a : String} {forms : List Form}
    (h : c.forms a = .ok forms) (b : String) :
    c.forms (a ++ "\n" ++ b) = (c.forms b).map (forms ++ ·) := by
  have htokens := forms_eq_ok.mp h
  rw [forms_eq, tokenize_append_newline b (region_ne_string_of_ofTokens htokens),
    Form.ofTokens_append htokens, forms_eq]
  cases Form.ofTokens (tokenize b) <;> rfl

theorem writeForms_append {c : Compiler} {forms : List Form} {xs : List String}
    (h : c.writeForms forms = .ok xs) (more : List Form) :
    c.writeForms (forms ++ more) = (c.writeForms more).map (xs ++ ·) := by
  unfold writeForms at h ⊢
  rw [List.mapM_append]
  split at h
  · next texts htexts =>
    cases h
    rw [htexts]
    cases more.mapM (Form.write? Nesting.scripts c.slots) <;> rfl
  · cases h

/-- Programs compile one after another.  If `a` compiles, its scan does not end inside a
    string, and behind it on a new line `b` gives the texts or the error it gives alone. -/
theorem program_append_newline {c : Compiler} {a : String} {xs : List String}
    (h : c.program a = .ok xs) (b : String) :
    (Scan.start.run a.toList).region ≠ .string ∧
      (∀ ys, c.program b = .ok ys → c.program (a ++ "\n" ++ b) = .ok (xs ++ ys)) ∧
      (∀ error, c.program b = .error error →
        c.program (a ++ "\n" ++ b) = .error error) := by
  obtain ⟨forms, hforms, hwrite⟩ := bind_eq_ok.mp h
  have hprogram : c.program (a ++ "\n" ++ b) = (c.program b).map (xs ++ ·) := by
    unfold program
    rw [forms_append_newline hforms]
    cases c.forms b with
    | error error => rfl
    | ok more => exact writeForms_append hwrite more
  refine ⟨region_ne_string_of_ofTokens (forms_eq_ok.mp hforms), ?_, ?_⟩
  · intro ys hys
    rw [hprogram, hys]
    rfl
  · intro error herror
    rw [hprogram, herror]
    rfl

/-- The first program ends in a comment, and the comment holds a quote. -/
theorem program_append_newline_comment :
    ({} : Compiler).program "(f 1) ; a \"quote" = .ok ["f(1)"] ∧
      ({} : Compiler).program ("(f 1) ; a \"quote" ++ "\n" ++ "(g)") = .ok ["f(1)", "g()"] ∧
      ({} : Compiler).program ("(f 1) ; a \"quote" ++ "\n" ++ "(g))") = .error .missingOpen := by
  have h : ({} : Compiler).program "(f 1) ; a \"quote" = .ok ["f(1)"] := rfl
  exact ⟨h, (program_append_newline h "(g)").2.1 ["g()"] rfl,
    (program_append_newline h "(g))").2.2 .missingOpen rfl⟩

end Compiler

end SexpScript
