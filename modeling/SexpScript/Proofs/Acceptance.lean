import SexpScript.Compiler
import SexpScript.Proofs.Grammar
import SexpScript.Proofs.Scanning

/-! # What is true of every accepted source

    An accepted source has been built within the limit of levels, and the forms that
    come out are at most one level deeper than their groups.  So an accepted source
    can always be counted, and a compiler in debug mode accepts the same sources as
    one that is not (`forms_eq`).  It can always be written too, whether its first form
    alone or all of them, so a line and a program fail for the same sources
    (`program_of_forms`, `line_of_forms`).

    The last token of an accepted source closes a group.  A source that ends inside a
    string ends with another token, so no accepted source does
    (`region_ne_string_of_ofTokens`).
-/

namespace SexpScript

namespace Form

/-! ### Levels -/

theorem levelsAll_le_of_mapM {limit : Nat} {build : List Item → Except Failure Form}
    (hbuild : ∀ {items form}, build items = .ok form → form.levels ≤ limit)
    {items : List Item} {forms : List Form} (h : items.mapM (ofItem build) = .ok forms) :
    levelsAll forms ≤ limit := by
  induction items generalizing forms with
  | nil =>
    cases h
    exact Nat.zero_le limit
  | cons item items ih =>
    obtain ⟨form, rest, hform, hrest, rfl⟩ := mapM_cons_eq_ok.mp h
    have hlevels : form.levels ≤ limit := by
      cases item with
      | group inner => exact hbuild hform
      | token t =>
        rw [ofItem] at hform
        split at hform
        · cases hform
          exact Nat.zero_le limit
        · cases hform
    have hall := ih hrest
    simp only [levelsAll]
    omega

/-- A form is built within the levels it is given. -/
theorem levels_le_of_ofGroup {limit : Nat} {items : List Item} {form : Form}
    (h : ofGroup limit items = .ok form) : form.levels ≤ limit := by
  induction limit generalizing items form with
  | zero => cases h
  | succ limit ih =>
    cases ofGroup_eq_ok.mp h with
    | empty => exact Nat.succ_le_succ (Nat.zero_le limit)
    | call _ hargs => exact Nat.succ_le_succ (levelsAll_le_of_mapM ih hargs)
    | defconstant => exact Nat.succ_le_succ (Nat.zero_le limit)
    | defvar => exact Nat.succ_le_succ (Nat.zero_le limit)
    | defun _ _ hforms => exact Nat.succ_le_succ (levelsAll_le_of_mapM ih hforms)

theorem levelsAll_le_of_ofItems {items : List Item} {forms : List Form}
    (h : ofItems items = .ok forms) : levelsAll forms ≤ Nesting.forms := by
  induction items generalizing forms with
  | nil =>
    cases h
    exact Nat.zero_le _
  | cons item items ih =>
    cases item with
    | token t => exact ih h
    | group inner =>
      obtain ⟨form, rest, hform, hrest, rfl⟩ := ofItems_group_eq_ok.mp h
      have hlevels := levels_le_of_ofGroup hform
      have hall := ih hrest
      simp only [levelsAll]
      omega

/-- Accepted tokens are nested no deeper than building allows. -/
theorem levelsAll_le_of_ofTokens {tokens : List Token} {forms : List Form}
    (h : ofTokens tokens = .ok forms) : levelsAll forms ≤ Nesting.forms := by
  obtain ⟨r, _, _, hitems⟩ := ofTokens_eq_ok.mp h
  exact levelsAll_le_of_ofItems hitems

mutual

/-- A form is at most one level deeper than its groups: leaves are a level. -/
theorem depth_le_levels : (form : Form) → form.depth ≤ form.levels + 1
  | .empty => by simp [depth, levels]
  | .leaf _ => by simp [depth, levels]
  | .call _ args => by
    have := depthAll_le_levels args
    simp only [depth, levels]
    omega
  | .defconstant _ _ => by simp [depth, levels]
  | .defvar _ _ => by simp [depth, levels]
  | .defun _ _ body => by
    have := depthAll_le_levels body
    simp only [depth, levels]
    omega

theorem depthAll_le_levels : (forms : List Form) → depthAll forms ≤ levelsAll forms + 1
  | [] => by simp [depthAll, levelsAll]
  | form :: forms => by
    have := depth_le_levels form
    have := depthAll_le_levels forms
    simp only [depthAll, levelsAll]
    omega

end

/-- What is built from accepted tokens is one level deeper than building goes, at most. -/
theorem depthAll_le_of_ofTokens {tokens : List Token} {forms : List Form}
    (h : ofTokens tokens = .ok forms) : depthAll forms ≤ Nesting.forms + 1 :=
  Nat.le_trans (depthAll_le_levels forms) (Nat.succ_le_succ (levelsAll_le_of_ofTokens h))

theorem depth_le_depthAll {form : Form} {forms : List Form} (h : form ∈ forms) :
    form.depth ≤ depthAll forms := by
  induction forms with
  | nil => cases h
  | cons form' forms ih =>
    simp only [depthAll]
    rcases List.mem_cons.mp h with rfl | h
    · omega
    · have hle := ih h
      omega

/-- Forms within the limit are written, each of them. -/
theorem mapM_write? {limit : Nat} (slots : String) {forms : List Form}
    (h : depthAll forms ≤ limit) :
    forms.mapM (write? limit slots) = some (forms.map (write slots)) := by
  induction forms with
  | nil => rfl
  | cons form forms ih =>
    simp only [depthAll] at h
    have hform : write? limit slots form = some (write slots form) := if_pos (by omega)
    have hforms := ih (by omega)
    rw [List.mapM_cons, hform, hforms]
    rfl

end Form

/-! ### The end of an accepted source -/

/-- The last token of a form closes it. -/
theorem IsForm.exists_last {ts : List Token} {form : Form} (h : IsForm ts form) :
    ∃ init c, ts = init ++ [c] ∧ c.kind = .closeParen := by
  cases h with
  | @empty o c _ hc => exact ⟨[o], c, rfl, hc⟩
  | call _ _ _ hc => exact ⟨_, _, rfl, hc⟩
  | @defconstant o keyword name value c _ _ _ _ hc => exact ⟨[o, keyword, name, value], c, rfl, hc⟩
  | @defvar o keyword name value c _ _ _ _ hc => exact ⟨[o, keyword, name, value], c, rfl, hc⟩
  | defun _ _ _ _ _ _ _ _ hc => exact ⟨_, _, rfl, hc⟩

theorem IsProgram.kind_last {ts : List Token} {forms : List Form} (h : IsProgram ts forms)
    {init : List Token} {t : Token} (hts : ts = init ++ [t]) : t.kind = .closeParen := by
  induction h generalizing init with
  | nil => simp at hts
  | @cons ts us form forms hform _ ih =>
    -- The last token is that of this form, unless forms follow it.
    rcases us.eq_nil_or_concat with rfl | ⟨us', u, rfl⟩
    · obtain ⟨init', c, rfl, hc⟩ := hform.exists_last
      obtain ⟨_, rfl⟩ : init' = init ∧ c = t := by simpa using hts
      exact hc
    · obtain ⟨_, rfl⟩ : ts ++ us' = init ∧ u = t := by simpa [← List.append_assoc] using hts
      exact ih List.concat_eq_append

/-- An accepted source does not end inside a string. -/
theorem region_ne_string_of_ofTokens {source : String} {forms : List Form}
    (h : Form.ofTokens (tokenize source) = .ok forms) :
    (Scan.start.run source.toList).region ≠ .string := by
  intro hregion
  obtain ⟨init, last, hchunks, _, hclose, hcomment⟩ := chunks_of_region_string hregion
  have htokens : withoutComments (tokenize source) =
      withoutComments (init.map Token.ofChunk) ++ [Token.ofChunk last] := by
    rw [tokenize, hchunks, List.map_append, withoutComments, List.filter_append]
    simp [withoutComments, Token.ofChunk, hcomment]
  exact hclose ((Form.isProgram_of_ofTokens h).kind_last htokens)

namespace Compiler

/-! ### Reading with and without notices -/

/-- The forms of a source are those of its tokens, reported or not. -/
theorem forms_eq (c : Compiler) (source : String) :
    c.forms source = (Form.ofTokens (tokenize source)).mapError Failure.toSyntaxError := by
  unfold forms parse
  cases h : Form.ofTokens (tokenize source) with
  | error failure => rfl
  | ok forms =>
    -- The census has room for all that building lets through.
    have hdepth : Form.depthAll forms ≤ Nesting.census :=
      Nat.le_trans (Form.depthAll_le_of_ofTokens h) Nesting.forms_lt_census
    simp only [Form.count?, if_pos hdepth]
    split <;> rfl

theorem forms_eq_ok {c : Compiler} {source : String} {forms : List Form} :
    c.forms source = .ok forms ↔ Form.ofTokens (tokenize source) = .ok forms := by
  rw [forms_eq]
  cases Form.ofTokens (tokenize source) with
  | error failure => exact ⟨nofun, nofun⟩
  | ok _ => exact Iff.of_eq (by simp [Except.mapError])

/-! ### Lines and programs -/

theorem writeForms_of_depthAll_le (c : Compiler) {forms : List Form}
    (h : Form.depthAll forms ≤ Nesting.scripts) :
    c.writeForms forms = .ok (forms.map (Form.write c.slots)) := by
  unfold writeForms
  rw [Form.mapM_write? c.slots h]

/-- Writing has room for all that building lets through. -/
theorem depthAll_le_of_forms {c : Compiler} {source : String} {forms : List Form}
    (h : c.forms source = .ok forms) : Form.depthAll forms ≤ Nesting.scripts :=
  Nat.le_trans (Form.depthAll_le_of_ofTokens (forms_eq_ok.mp h)) Nesting.forms_lt_scripts

theorem program_of_forms {c : Compiler} {source : String} {forms : List Form}
    (h : c.forms source = .ok forms) :
    c.program source = .ok (forms.map (Form.write c.slots)) := by
  unfold program
  rw [h]
  exact c.writeForms_of_depthAll_le (depthAll_le_of_forms h)

/-- A line is written as its first form is, and the others are no concern of it. -/
theorem line_of_forms {c : Compiler} {source : String} {forms : List Form}
    (h : c.forms source = .ok forms) :
    c.line source = .ok ((forms.map (Form.write c.slots)).headD "") := by
  have hdepth := depthAll_le_of_forms h
  have hfirst : Form.depthAll (forms.take 1) ≤ Nesting.scripts := by
    cases forms with
    | nil => exact hdepth
    | cons form forms =>
      simp only [List.take_succ_cons, List.take_zero, Form.depthAll] at hdepth ⊢
      omega
  unfold line
  rw [h]
  show (c.writeForms (forms.take 1) >>= _) = _
  rw [c.writeForms_of_depthAll_le hfirst]
  cases forms <;> rfl

/-- A line and a program agree.  Where a program has texts the line is the first of them,
    or nothing if there are none.  The one is refused exactly where the other is, for the same
    reason, since no form of an accepted source is too deep to be written. -/
theorem line_agrees_with_program (c : Compiler) (source : String) :
    (∀ texts, c.program source = .ok texts → c.line source = .ok (texts.headD "")) ∧
      (∀ error, c.line source = .error error ↔ c.program source = .error error) ∧
      ∀ forms, c.forms source = .ok forms → ∀ form ∈ forms,
        form.write? Nesting.scripts c.slots = some (form.write c.slots) := by
  cases hforms : c.forms source with
  | error failure =>
    have hprogram : c.program source = .error failure := by
      unfold program
      rw [hforms]
      rfl
    have hline : c.line source = .error failure := by
      unfold line
      rw [hforms]
      rfl
    rw [hprogram, hline]
    refine ⟨nofun, ?_, nofun⟩
    intro error
    simp only [Except.error.injEq]
  | ok forms =>
    rw [program_of_forms hforms, line_of_forms hforms]
    refine ⟨?_, fun _ => ⟨nofun, nofun⟩, ?_⟩
    · intro texts htexts
      cases htexts
      rfl
    · intro forms' hforms' form hform
      cases hforms'
      have hdepth := Form.depth_le_depthAll hform
      exact if_pos (Nat.le_trans hdepth (depthAll_le_of_forms hforms))

end Compiler

end SexpScript
