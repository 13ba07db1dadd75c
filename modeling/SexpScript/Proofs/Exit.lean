import Mathlib.Data.List.Basic
import SexpScript.Proofs.Transcript

/-! # Which lines exit

    A shell that runs nothing has to know by itself when to end.  It compares the text of a
    line with the one that ends the program, whatever form the text comes from.  That is
    enough, because only two forms are written so: `(exit ..)` and `(process.exit 0)`.

    - Whatever is written for a call or a definition has a bracket, a sign or a space in it
      (`exists_telltale_render`).  So `0` is written for the atom alone (`write_eq_zero_iff`).
    - The text that ends the program has one opening paren.  In the text of a call the name
      stands in front of that paren, and the operands behind it (`operands_of_call_eq`).
    - Operators and arrays begin otherwise, no method is named so, and definitions have
      spaces (`eq_of_render_eq_exitText`).
-/

namespace SexpScript

namespace Operation

/-! ### Operations -/

/-- The characters by which calls and definitions are told from atoms. -/
def telltales : List Char := ['(', '[', '!', '-', ' ']

theorem space_mem_define (slots name value : String) : ' ' ∈ (define slots name value).toList := by
  simp [define]

/-- Every operation writes one of them, whatever its operands. -/
theorem exists_telltale_render (slots name : String) (operands : List String) :
    ∃ c ∈ telltales, c ∈ ((ofName name).render slots operands).toList := by
  rcases ofName_cases name with ⟨symbol, _, hop⟩ | ⟨symbol, hmem, hop⟩ | ⟨_, hop⟩ | ⟨_, hop⟩ |
    ⟨_, hop⟩ | ⟨_, hop⟩ | ⟨_, hop⟩ <;> rw [hop]
  · exact ⟨'(', by decide, by simp [render]⟩
  · have hsigns : ∀ entry ∈ unaryOperators, telltales.any (· ∈ entry.2.toList) = true := by decide
    obtain ⟨c, hc, hsymbol⟩ := List.any_eq_true.mp (hsigns _ hmem)
    have hsign : c ∈ symbol.toList := of_decide_eq_true hsymbol
    exact ⟨c, hc, by simp [render, hsign]⟩
  · exact ⟨'[', by decide, by simp [render]⟩
  · exact ⟨'(', by decide, by simp [render]⟩
  · exact ⟨'(', by decide, by simp [render, exitText]⟩
  · exact ⟨' ', by decide, space_mem_define _ _ _⟩
  · exact ⟨'(', by decide, by simp [render]⟩

/-- Operands that are joined to a text without commas are that text alone. -/
theorem eq_singleton_of_intercalate {operands : List String} {text : String}
    (h : ", ".intercalate operands = text) (hne : text ≠ "") (hcomma : ',' ∉ text.toList) :
    operands = [text] := by
  cases operands with
  | nil => exact absurd h.symm hne
  | cons operand operands =>
    cases operands with
    | nil =>
      rw [String.intercalate_singleton] at h
      rw [h]
    | cons next operands =>
      rw [String.intercalate_cons_cons] at h
      exact absurd (by simp [← h]) hcomma

/-- The text that ends the program is a call in one way only. -/
theorem operands_of_call_eq {slots name : String} {operands : List String}
    (h : (call name).render slots operands = exitText) :
    name = "process.exit" ∧ operands = ["0"] := by
  have hchars : "process.exit".toList ++ '(' :: ("0".toList ++ [')']) =
      name.toList ++ '(' :: ((", ".intercalate operands).toList ++ [')']) := by
    have hlist := congrArg String.toList h
    simpa [render, exitText_eq] using hlist.symm
  -- There is no second paren by which the text could be cut.
  obtain ⟨hname, _, hrest⟩ :=
    (List.append_cons_inj_of_notMem (by decide) (by decide)).mp hchars
  have hoperands : ", ".intercalate operands = "0" := by
    rw [← String.toList_inj]
    exact (List.append_cancel_right hrest).symm
  exact ⟨(String.toList_inj.mp hname).symm,
    eq_singleton_of_intercalate hoperands (by decide) (by decide)⟩

/-- The operations that end the program, by their names and operands. -/
theorem eq_of_render_eq_exitText {slots name : String} {operands : List String}
    (h : (ofName name).render slots operands = exitText) :
    name = "exit" ∨ name = "process.exit" ∧ operands = ["0"] := by
  have hhead : ((ofName name).render slots operands).toList.head? = some 'p' := by
    rw [h]
    decide
  rcases ofName_cases name with ⟨symbol, _, hop⟩ | ⟨symbol, hmem, hop⟩ | ⟨_, hop⟩ | ⟨hmem, hop⟩ |
    ⟨hname, _⟩ | ⟨_, hop⟩ | ⟨_, hop⟩
  -- What begins with a paren, a sign or a bracket does not begin with a letter.
  · simp [hop, render] at hhead
  · have hsigns : ∀ entry ∈ unaryOperators,
        entry.2.toList.head? = some '!' ∨ entry.2.toList.head? = some '-' := by decide
    rcases hsigns _ hmem with hsymbol | hsymbol <;>
      simp [hop, render, List.head?_append, hsymbol] at hhead
  · simp [hop, render] at hhead
  -- An array comes before its method, so here the beginning may be any.
  · have hmethods : ∀ method ∈ arrayMethods,
        ¬ ("." ++ method ++ "(").toList <:+: exitText.toList := by decide
    apply absurd _ (hmethods name hmem)
    rw [← h, hop]
    refine ⟨(operand operands 1).toList, (operand operands 0).toList ++ [')'], ?_⟩
    simp [render]
  · exact .inl hname
  · rw [hop] at h
    have hspace : ' ' ∈ exitText.toList := h ▸ space_mem_define _ _ _
    exact absurd hspace (by decide)
  · rw [hop] at h
    exact .inr (operands_of_call_eq h)

end Operation

namespace Form

/-! ### Forms -/

/-- The forms that end the program: a call of `exit`, with any arguments, and the call of
    `process.exit` with the atom `0`. -/
inductive IsExit : Form → Prop
  | exit (args : List Form) : IsExit (.call "exit" args)
  | zero {t : Token} (h : t.text = "0") : IsExit (.call "process.exit" [.leaf t])

/-- A form is empty, an atom or a call, or it is a definition and written with spaces. -/
theorem write_cases (slots : String) (form : Form) :
    form = .empty ∨ (∃ t, form = .leaf t) ∨ (∃ name args, form = .call name args) ∨
      ' ' ∈ (form.write slots).toList := by
  cases form with
  | empty => exact .inl rfl
  | leaf t => exact .inr (.inl ⟨t, rfl⟩)
  | call name args => exact .inr (.inr (.inl ⟨name, args, rfl⟩))
  | defconstant name value =>
    exact .inr (.inr (.inr (Operation.space_mem_define slots name value)))
  | defvar name value =>
    exact .inr (.inr (.inr (Operation.space_mem_define slots name value)))
  | defun name params body =>
    have hdefine := Operation.space_mem_define slots name (arrow params (writeAll slots body))
    refine .inr (.inr (.inr ?_))
    rw [write, String.toList_append]
    exact List.mem_append_left _ hdefine

theorem write_eq_zero_iff {slots : String} {form : Form} :
    form.write slots = "0" ↔ ∃ t, form = .leaf t ∧ t.text = "0" := by
  have htelltales : ∀ c ∈ Operation.telltales, c ∉ "0".toList := by
    intro c hc hzero
    rw [List.mem_singleton.mp hzero] at hc
    exact absurd hc (by decide)
  constructor
  · intro h
    rcases write_cases slots form with rfl | ⟨t, rfl⟩ | ⟨name, args, rfl⟩ | hspace
    · exact absurd h (show "" ≠ "0" by decide)
    · exact ⟨t, rfl, h⟩
    · obtain ⟨c, hc, hmem⟩ := Operation.exists_telltale_render slots name (writeAll slots args)
      rw [write] at h
      exact absurd (h ▸ hmem) (htelltales c hc)
    · exact absurd (h ▸ hspace) (htelltales ' ' (by decide))
  · rintro ⟨t, rfl, ht⟩
    exact ht

/-- The text that ends the program is written for the forms that end it, and otherwise only
    for an atom that is this text itself. -/
theorem write_eq_exitText_iff {slots : String} {form : Form} :
    form.write slots = Operation.exitText ↔
      form.IsExit ∨ ∃ t, form = .leaf t ∧ t.text = Operation.exitText := by
  constructor
  · intro h
    rcases write_cases slots form with rfl | ⟨t, rfl⟩ | ⟨name, args, rfl⟩ | hspace
    · exact absurd h (show "" ≠ Operation.exitText by decide)
    · exact .inr ⟨t, rfl, h⟩
    · rcases Operation.eq_of_render_eq_exitText h with rfl | ⟨rfl, hargs⟩
      · exact .inl (.exit args)
      · -- The operand is written as `0`, so the argument is that atom and no other form.
        rw [writeAll_eq_map, List.map_eq_singleton_iff] at hargs
        obtain ⟨arg, rfl, harg⟩ := hargs
        obtain ⟨t, rfl, ht⟩ := write_eq_zero_iff.mp harg
        exact .inl (.zero ht)
    · exact absurd (h ▸ hspace) (by decide)
  · rintro ((args | ht) | ⟨t, rfl, ht⟩)
    · have hop : Operation.ofName "exit" = .exit := by decide
      rw [write, hop]
      rfl
    · have hop : Operation.ofName "process.exit" = .call "process.exit" := by decide
      rw [write, hop, writeAll, write, ht]
      show "process.exit" ++ "(" ++ ", ".intercalate ["0"] ++ ")" = Operation.exitText
      decide
    · exact ht

end Form

namespace Compiler

/-! ### Lines -/

/-- The forms of a source are in parens, so that none of them is an atom. -/
theorem ne_leaf_of_forms {c : Compiler} {source : String} {form : Form} {rest : List Form}
    (h : c.forms source = .ok (form :: rest)) (t : Token) : form ≠ .leaf t := by
  have hprogram := Form.isProgram_of_ofTokens (forms_eq_ok.mp h)
  rintro rfl
  generalize withoutComments (tokenize source) = tokens at hprogram
  cases hprogram with
  | cons hform _ => cases hform

theorem line_eq_exitText {c : Compiler} {source : String} :
    c.line source = .ok Operation.exitText ↔
      ∃ form rest, c.forms source = .ok (form :: rest) ∧ form.IsExit := by
  constructor
  · intro h
    cases hforms : c.forms source with
    | error error =>
      unfold line at h
      rw [hforms] at h
      cases h
    | ok forms =>
      rw [line_of_forms hforms, Except.ok.injEq] at h
      cases forms with
      | nil => exact absurd h (show "" ≠ Operation.exitText by decide)
      | cons form rest =>
        rcases Form.write_eq_exitText_iff.mp h with hexit | ⟨t, hleaf, _⟩
        · exact ⟨form, rest, rfl, hexit⟩
        · exact absurd hleaf (ne_leaf_of_forms hforms t)
  · rintro ⟨form, rest, hforms, hexit⟩
    rw [line_of_forms hforms]
    exact congrArg Except.ok (Form.write_eq_exitText_iff.mpr (.inl hexit))

/-- Exits are known exactly.  The text of a line is the one that ends the program exactly if its
    first form is a call of `exit` or the call of `process.exit` with the atom `0`, and these are
    the lines at which a shell without a session stops.  No other form is written so, however its
    names and arguments are chosen, but an atom that is the text itself; and no atom is the first
    form of a line. -/
theorem line_exits_iff_isExit (c : Compiler) (source : String) :
    Operation.exitText = "process.exit(0)" ∧
      (c.line source = .ok Operation.exitText ↔
        ∃ form rest, c.forms source = .ok (form :: rest) ∧ form.IsExit) ∧
      (∀ slots form, Form.write slots form = Operation.exitText ↔
        form.IsExit ∨ ∃ t, form = .leaf t ∧ t.text = Operation.exitText) ∧
      (∀ form rest, c.forms source = .ok (form :: rest) → ∀ t, form ≠ .leaf t) ∧
      ∀ settings host, (Shell.respond settings none source host).1 = .stop none (.ok 0) ↔
        ∃ form rest, (Shell.compiler settings).forms source = .ok (form :: rest) ∧
          form.IsExit := by
  refine ⟨rfl, line_eq_exitText, fun _ _ => Form.write_eq_exitText_iff,
    fun _ _ hforms => ne_leaf_of_forms hforms, ?_⟩
  intro settings host
  obtain ⟨_, _, _, hnext, _⟩ := Shell.emits_respond_none settings source host
  rw [← line_eq_exitText, hnext]
  by_cases hexits : Shell.exits settings source = true
  · rw [if_pos hexits]
    exact iff_of_true rfl (of_decide_eq_true hexits)
  · rw [if_neg hexits]
    exact iff_of_false nofun fun hline => hexits (decide_eq_true hline)

end Compiler

end SexpScript
