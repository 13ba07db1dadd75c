import SexpScript.Proofs.Reformatting

/-! # Semicolons in scripts

    Where semicolons stand in what is written, quotes read in pairs.  A function
    definition ends with one and nothing else has any, so they tell where function
    definitions end.

    - `Text.Semicolons` counts them.  Texts that are put together add up
      (`Semicolons.append`, `Semicolons.intercalate`).
    - The text of a form has as many as there are function definitions in it, those in
      operands that are left out not counted (`Form.functions`, `semicolons_write`).
    - The text of a form ends with one if a function definition comes last in it
      (`Form.endsInFunction`, `terminated_write_iff`).  A function definition anywhere else
      leaves its semicolon inside an expression.
-/

namespace SexpScript

/-! ### Counting semicolons -/

namespace Text

/-- A text whose quotes come in pairs, with `n` semicolons outside them. -/
structure Semicolons (n : Nat) (text : String) : Prop where
  closed : Closed text.toList
  count : (bare text.toList).count ';' = n

instance (n : Nat) (text : String) : Decidable (Semicolons n text) :=
  decidable_of_iff (Closed text.toList ∧ (bare text.toList).count ';' = n)
    ⟨fun ⟨hclosed, hcount⟩ => ⟨hclosed, hcount⟩, fun h => ⟨h.closed, h.count⟩⟩

/-- A text that ends with a semicolon. -/
def Terminated (text : String) : Prop := text.toList.getLast? = some ';'

instance (text : String) : Decidable (Terminated text) :=
  inferInstanceAs (Decidable (text.toList.getLast? = some ';'))

namespace Semicolons

variable {m n : Nat} {a b separator text : String} {ns : List Nat} {texts : List String}

theorem append (ha : Semicolons m a) (hb : Semicolons n b) : Semicolons (m + n) (a ++ b) where
  closed := by
    rw [String.toList_append]
    exact ha.closed.append hb.closed
  count := by
    rw [String.toList_append, ha.closed.bare_append, List.count_append, ha.count, hb.count]

/-- Texts with separators between them have the semicolons of the texts, if the separator
    has none. -/
theorem intercalate (hseparator : Semicolons 0 separator) (h : List.Forall₂ Semicolons ns texts) :
    Semicolons ns.sum (separator.intercalate texts) := by
  induction h with
  | nil => exact ⟨Closed.nil, rfl⟩
  | @cons n text ns texts htext hrest ih =>
    cases hrest with
    | nil =>
      rw [String.intercalate_singleton, List.sum_singleton]
      exact htext
    | cons _ _ =>
      rw [String.intercalate_cons_cons, List.sum_cons]
      exact (htext.append hseparator).append ih

/-- Texts without semicolons have none together. -/
theorem intercalate_zero (hseparator : Semicolons 0 separator)
    (h : ∀ text ∈ texts, Semicolons 0 text) : Semicolons 0 (separator.intercalate texts) := by
  have hzeros : List.Forall₂ Semicolons (texts.map fun _ => 0) texts :=
    List.forall₂_map_left_iff.mpr (List.forall₂_same.mpr h)
  have hall := hseparator.intercalate hzeros
  simpa using hall

/-- A text with neither quotes nor semicolons. -/
theorem of_not_mem (hsemicolon : ';' ∉ text.toList) (hquote : '"' ∉ text.toList) :
    Semicolons 0 text where
  closed := by
    unfold Closed
    rw [quotedAfter_eq_self_iff, List.count_eq_zero.mpr hquote]
    exact Even.zero
  count := List.count_eq_zero.mpr fun hmem => hsemicolon ((bareFrom_sublist _ _).subset hmem)

theorem parens (h : Semicolons n text) : Semicolons n ("(" ++ text ++ ")") := by
  have hopen : Semicolons 0 "(" := by decide
  have hclose : Semicolons 0 ")" := by decide
  have hall := (hopen.append h).append hclose
  rwa [Nat.zero_add] at hall

/-- The last character of a text whose quotes come in pairs adds to its semicolons if it is
    one. -/
theorem count_concat (h : Semicolons n text) {cs : List Char} {c : Char}
    (htext : text.toList = cs ++ [c]) :
    n = (bare cs).count ';' + if c = ';' then 1 else 0 := by
  have hclosed := h.closed
  rw [← h.count, htext]
  rw [htext, Closed, quotedAfter_append] at hclosed
  unfold bare
  rw [bareFrom_append, List.count_append, Nat.add_left_cancel_iff]
  by_cases hc : c = ';'
  · -- A semicolon leaves the quotes as they are, so they were closed before it.
    subst hc
    have hquoted : quotedAfter false cs = false := hclosed
    rw [hquoted, if_pos rfl]
    rfl
  · rw [if_neg hc, List.count_eq_zero, ← List.forall_mem_ne', forall_mem_bareFrom_cons]
    exact ⟨fun _ _ => hc, List.forall_mem_nil _⟩

/-- No semicolon stands before the last character exactly if there is none but at the
    end. -/
theorem not_mem_dropLast_iff (h : Semicolons n text) :
    ';' ∉ bare text.toList.dropLast ↔ n = 0 ∨ n = 1 ∧ Terminated text := by
  rw [← List.count_eq_zero]
  rcases text.toList.eq_nil_or_concat with hnil | ⟨cs, c, hconcat⟩
  · have hn := h.count
    rw [hnil] at hn
    rw [hnil, ← hn]
    exact ⟨fun _ => .inl rfl, fun _ => rfl⟩
  · rw [List.concat_eq_append] at hconcat
    have hn := h.count_concat hconcat
    rw [Terminated, hconcat, List.dropLast_concat, List.getLast?_concat, Option.some.injEq]
    by_cases hc : c = ';'
    · rw [if_pos hc] at hn
      rw [eq_true hc, and_true]
      omega
    · rw [if_neg hc] at hn
      rw [eq_false hc, and_false, or_false]
      omega

theorem not_terminated (h : Semicolons 0 text) : ¬ Terminated text := by
  intro hterminated
  obtain ⟨cs, hcs⟩ := List.getLast?_eq_some_iff.mp hterminated
  have hn := h.count_concat hcs
  rw [if_pos rfl] at hn
  omega

end Semicolons

/-- The end of the second of two texts decides, if it has one or the first has no
    semicolon there. -/
theorem terminated_append_iff {a b : String} (h : b ≠ "" ∨ ¬ Terminated a) :
    Terminated (a ++ b) ↔ Terminated b := by
  unfold Terminated at h ⊢
  rw [String.toList_append, List.getLast?_append]
  cases hb : b.toList.getLast? with
  | none =>
    rw [List.getLast?_eq_none_iff, String.toList_eq_nil_iff] at hb
    simpa [hb] using h
  | some c => rfl

/-- A text with a paren at its end. -/
theorem not_terminated_paren (text : String) : ¬ Terminated (text ++ ")") := by
  rw [terminated_append_iff (.inl (by decide))]
  decide

end Text

/-! ### Operands -/

namespace Operation

/-- The operands that are written. -/
def used {α : Type} (operands : List α) : Operation → List α
  | binary _ => operands
  | unary _ => operands.take 1
  | array => operands
  | method _ => operands.take 2
  | exit => []
  | assign => operands.take 2
  | call _ => operands

/-- The operand that is written last, where nothing follows it. -/
def last? {α : Type} (operands : List α) : Operation → Option α
  | unary _ => operands[0]?
  | assign => operands[1]?
  | _ => none

open Text (Semicolons Terminated)

theorem semicolons_word_ofName {name : String} (h : Semicolons 0 name) :
    Semicolons 0 (ofName name).word :=
  word_ofName_of_symbols h (by decide) (by decide) (by decide)

theorem sum_take_one (ns : List Nat) : (ns.take 1).sum = ns.getD 0 0 := by
  cases ns <;> simp

theorem sum_take_two (ns : List Nat) : (ns.take 2).sum = ns.getD 0 0 + ns.getD 1 0 := by
  rcases ns with _ | ⟨_, _ | ⟨_, _⟩⟩ <;> simp

section render
variable {slots : String} {ns : List Nat} {operands : List String}

theorem semicolons_operand (h : List.Forall₂ Semicolons ns operands) (i : Nat) :
    Semicolons (ns.getD i 0) (operand operands i) := by
  have hundefined : Semicolons 0 undefinedText := by decide
  unfold operand
  induction h generalizing i with
  | nil => exact hundefined
  | cons htext _ ih =>
    cases i with
    | zero => exact htext
    | succ i => exact ih i

theorem semicolons_define {name value : String} {m n : Nat} (hslots : Semicolons 0 slots)
    (hname : Semicolons m name) (hvalue : Semicolons n value) :
    Semicolons (m + n) (define slots name value) := by
  have hdot : Semicolons 0 "." := by decide
  have hequals : Semicolons 0 " = " := by decide
  have hall := (((hslots.append hdot).append hname).append hequals).append hvalue
  simpa [define] using hall

/-- An operation has the semicolons of the operands that it writes. -/
theorem semicolons_render (op : Operation) (hword : Semicolons 0 op.word)
    (hslots : Semicolons 0 slots) (h : List.Forall₂ Semicolons ns operands) :
    Semicolons (op.used ns).sum (op.render slots operands) := by
  have hcomma : Semicolons 0 ", " := by decide
  have hspace : Semicolons 0 " " := by decide
  have hdot : Semicolons 0 "." := by decide
  have hlist := hcomma.intercalate h
  cases op with
  | binary symbol =>
    have hseparator := (hspace.append hword).append hspace
    exact (hseparator.intercalate h).parens
  | unary symbol =>
    have hall := hword.append (semicolons_operand h 0)
    rw [Nat.zero_add] at hall
    rw [used, sum_take_one]
    exact hall
  | array =>
    have hopen : Semicolons 0 "[" := by decide
    have hclose : Semicolons 0 "]" := by decide
    have hall := (hopen.append hlist).append hclose
    rw [Nat.zero_add] at hall
    exact hall
  | method name =>
    have hname : Semicolons 0 name := hword
    have happly := (semicolons_operand h 0).parens
    -- The second operand is written first.
    have hall := (((semicolons_operand h 1).append hdot).append hname).append happly
    rw [used, sum_take_two, Nat.add_comm]
    simpa [render, String.append_assoc] using hall
  | exit =>
    show Semicolons 0 exitText
    decide
  | assign =>
    rw [used, sum_take_two]
    exact semicolons_define hslots (semicolons_operand h 0) (semicolons_operand h 1)
  | call name =>
    have hname : Semicolons 0 name := hword
    have hall := hname.append hlist.parens
    rw [Nat.zero_add] at hall
    simpa [used, render, String.append_assoc] using hall

theorem terminated_define_iff {name value : String} :
    Terminated (define slots name value) ↔ Terminated value := by
  have hequals : ¬ Terminated (slots ++ "." ++ name ++ " = ") := by
    rw [Text.terminated_append_iff (.inl (by decide))]
    decide
  exact Text.terminated_append_iff (.inr hequals)

theorem terminated_operand_iff {ends : List Bool}
    (h : List.Forall₂ (fun last text => Terminated text ↔ last = true) ends operands) (i : Nat) :
    Terminated (operand operands i) ↔ ends[i]?.getD false = true := by
  unfold operand
  induction h generalizing i with
  | nil => exact iff_of_false (by show ¬ Terminated undefinedText; decide) (by simp)
  | cons htext _ ih =>
    cases i with
    | zero => exact htext
    | succ i => exact ih i

/-- The end of an operation is that of the operand written last, if nothing follows it. -/
theorem terminated_render_iff (op : Operation) {ends : List Bool} (hword : Semicolons 0 op.word)
    (h : List.Forall₂ (fun last text => Terminated text ↔ last = true) ends operands) :
    Terminated (op.render slots operands) ↔ (op.last? ends).getD false = true := by
  have hnone : ¬ (none : Option Bool).getD false = true := by decide
  -- Only a sign before its operand and a write leave the end to an operand.
  cases op with
  | binary symbol => exact iff_of_false (Text.not_terminated_paren _) hnone
  | unary symbol =>
    have hsymbol : ¬ Terminated symbol := hword.not_terminated
    rw [render, Text.terminated_append_iff (.inr hsymbol)]
    exact terminated_operand_iff h 0
  | array =>
    apply iff_of_false _ hnone
    rw [render, Text.terminated_append_iff (.inl (by decide))]
    decide
  | method name => exact iff_of_false (Text.not_terminated_paren _) hnone
  | exit => exact iff_of_false (by show ¬ Terminated exitText; decide) hnone
  | assign =>
    rw [render, terminated_define_iff]
    exact terminated_operand_iff h 1
  | call name => exact iff_of_false (Text.not_terminated_paren _) hnone

end render

end Operation

/-! ### Forms -/

namespace Form

mutual

/-- The number of function definitions in what is written for a form.  Those in operands
    that are left out do not count. -/
def functions : Form → Nat
  | .call name args => ((Operation.ofName name).used (functionsAll args)).sum
  | .defun _ _ body => (functionsAll body).sum + 1
  | _ => 0

/-- The numbers for several forms. -/
def functionsAll : List Form → List Nat
  | [] => []
  | form :: forms => functions form :: functionsAll forms

end

mutual

/-- Whether a function definition is written last for a form. -/
def endsInFunction : Form → Bool
  | .call name args => ((Operation.ofName name).last? (endInFunctions args)).getD false
  | .defun _ _ _ => true
  | _ => false

/-- The same for several forms, each on its own. -/
def endInFunctions : List Form → List Bool
  | [] => []
  | form :: forms => endsInFunction form :: endInFunctions forms

end

open Text (Semicolons Terminated)

theorem semicolons_orUndefined {n : Nat} {text : String} (h : Semicolons n text) :
    Semicolons n (orUndefined text) := by
  unfold orUndefined
  split
  · next hempty =>
    subst hempty
    have hn : 0 = n := h.count
    subst hn
    decide
  · exact h

/-- An arrow has the semicolons of its statements. -/
theorem semicolons_arrow {params statements : List String} {ns : List Nat}
    (hparams : ∀ param ∈ params, Semicolons 0 param)
    (h : List.Forall₂ Semicolons ns statements) : Semicolons ns.sum (arrow params statements) := by
  have hcomma : Semicolons 0 ", " := by decide
  have harrow : Semicolons 0 " => " := by decide
  have hhead := (hcomma.intercalate_zero hparams).parens
  have hstatements : List.Forall₂ Semicolons ns
      (statements.map fun text => "(" ++ orUndefined text ++ ")") :=
    List.forall₂_map_right_iff.mpr (h.imp fun _ _ htext => (semicolons_orUndefined htext).parens)
  have htail := (semicolons_orUndefined (hcomma.intercalate hstatements)).parens
  have hall := (hhead.append harrow).append htail
  rw [Nat.zero_add] at hall
  rw [arrow_eq]
  exact hall

mutual

/-- The text of a form made from atoms without semicolons has one for each function
    definition in it. -/
theorem semicolons_write {slots : String} (hslots : Semicolons 0 slots) :
    (form : Form) → (∀ a ∈ atoms form, Semicolons 0 a) →
      Semicolons (functions form) (write slots form)
  | .empty, _ => ⟨Text.Closed.nil, rfl⟩
  | .leaf t, h => h t.text List.mem_cons_self
  | .call name args, h => by
    have hname := h name List.mem_cons_self
    have hargs := semicolons_writeAll hslots args fun a ha => h a (List.mem_cons_of_mem _ ha)
    exact Operation.semicolons_render _ (Operation.semicolons_word_ofName hname) hslots hargs
  | .defconstant name value, h =>
    Operation.semicolons_define hslots (h name (by simp [atoms])) (h value (by simp [atoms]))
  | .defvar name value, h =>
    Operation.semicolons_define hslots (h name (by simp [atoms])) (h value (by simp [atoms]))
  | .defun name params body, h => by
    have hname := h name (by simp [atoms])
    have hparams : ∀ param ∈ params, Semicolons 0 param := by
      intro param hparam
      exact h param (by simp [atoms, hparam])
    have hbody := semicolons_writeAll hslots body fun a ha => h a (by simp [atoms, ha])
    have hsemicolon : Semicolons 1 ";" := by decide
    have hdefine := Operation.semicolons_define hslots hname (semicolons_arrow hparams hbody)
    rw [Nat.zero_add] at hdefine
    exact hdefine.append hsemicolon

/-- So have the texts of several. -/
theorem semicolons_writeAll {slots : String} (hslots : Semicolons 0 slots) :
    (forms : List Form) → (∀ a ∈ atomsAll forms, Semicolons 0 a) →
      List.Forall₂ Semicolons (functionsAll forms) (writeAll slots forms)
  | [], _ => .nil
  | form :: forms, h =>
    .cons (semicolons_write hslots form fun a ha => h a (List.mem_append_left _ ha))
      (semicolons_writeAll hslots forms fun a ha => h a (List.mem_append_right _ ha))

end

mutual

/-- The text of such a form ends with a semicolon if a function definition is written last. -/
theorem terminated_write_iff (slots : String) : (form : Form) →
    (∀ a ∈ atoms form, Semicolons 0 a) →
      (Terminated (write slots form) ↔ endsInFunction form = true)
  | .empty, _ => iff_of_false (by show ¬ Terminated ""; decide) Bool.false_ne_true
  | .leaf t, h => iff_of_false (h t.text List.mem_cons_self).not_terminated Bool.false_ne_true
  | .call name args, h => by
    have hname := h name List.mem_cons_self
    have hargs := terminated_writeAll_iff slots args fun a ha => h a (List.mem_cons_of_mem _ ha)
    exact Operation.terminated_render_iff _ (Operation.semicolons_word_ofName hname) hargs
  | .defconstant name value, h => by
    rw [write, Operation.terminated_define_iff]
    exact iff_of_false (h value (by simp [atoms])).not_terminated Bool.false_ne_true
  | .defvar name value, h => by
    rw [write, Operation.terminated_define_iff]
    exact iff_of_false (h value (by simp [atoms])).not_terminated Bool.false_ne_true
  | .defun name params body, _ => by
    rw [write, Text.terminated_append_iff (.inl (by decide))]
    exact iff_of_true (by decide) rfl

/-- So do the texts of several. -/
theorem terminated_writeAll_iff (slots : String) : (forms : List Form) →
    (∀ a ∈ atomsAll forms, Semicolons 0 a) →
      List.Forall₂ (fun last text => Terminated text ↔ last = true) (endInFunctions forms)
        (writeAll slots forms)
  | [], _ => .nil
  | form :: forms, h =>
    .cons (terminated_write_iff slots form fun a ha => h a (List.mem_append_left _ ha))
      (terminated_writeAll_iff slots forms fun a ha => h a (List.mem_append_right _ ha))

end

theorem mem_atomsAll {form : Form} {forms : List Form} (h : form ∈ forms) :
    ∀ a ∈ atoms form, a ∈ atomsAll forms := by
  intro a ha
  induction forms with
  | nil => cases h
  | cons form' forms ih =>
    rcases List.mem_cons.mp h with rfl | h
    · exact List.mem_append_left _ ha
    · exact List.mem_append_right _ (ih h)

/-- The atoms of an accepted source whose comments stand apart have no semicolons. -/
theorem semicolons_of_mem_atoms {source : String} {forms : List Form}
    (h : ofTokens (tokenize source) = .ok forms) (hapart : CommentsApart source) :
    ∀ a ∈ atomsAll forms, Semicolons 0 a := by
  intro a ha
  refine ⟨(unbroken_of_mem_atoms h hapart a ha).closed, List.count_eq_zero.mpr ?_⟩
  obtain ⟨t, ht, _, rfl⟩ := isTextOf_of_isProgram (isProgram_of_ofTokens h) a ha
  obtain ⟨hmem, hkind⟩ := List.mem_filter.mp ht
  exact hapart t hmem (of_decide_eq_true hkind)

end Form

namespace Compiler

/-- Where semicolons stand in a script.  If the slot object has neither semicolons nor quotes
    and the comments of the source stand apart, then the text of a form has one semicolon
    outside quotes for each function definition in it.  None stands before the last
    character exactly if there is no function definition in the text, or a single one that
    ends it. -/
theorem semicolons_of_program {c : Compiler} {source : String} {texts : List String}
    (hslots : ';' ∉ c.slots.toList ∧ '"' ∉ c.slots.toList) (hapart : CommentsApart source)
    (h : c.program source = .ok texts) :
    ∃ forms, c.forms source = .ok forms ∧
      List.Forall₂ (fun form text =>
        (Text.bare text.toList).count ';' = form.functions ∧
          (';' ∉ Text.bare text.toList.dropLast ↔
            form.functions = 0 ∨ form.functions = 1 ∧ form.endsInFunction = true)) forms texts := by
  obtain ⟨forms, hforms, _⟩ := bind_eq_ok.mp h
  refine ⟨forms, hforms, ?_⟩
  have htexts : texts = forms.map (Form.write c.slots) :=
    Except.ok.inj (h.symm.trans (program_of_forms hforms))
  rw [htexts, List.forall₂_map_right_iff, List.forall₂_same]
  intro form hform
  -- All semicolons come from the writer, none from what was read.
  have hatoms : ∀ a ∈ form.atoms, Text.Semicolons 0 a := fun a ha =>
    Form.semicolons_of_mem_atoms (forms_eq_ok.mp hforms) hapart a (Form.mem_atomsAll hform a ha)
  have hwrite := Form.semicolons_write (.of_not_mem hslots.1 hslots.2) form hatoms
  refine ⟨hwrite.count, ?_⟩
  rw [hwrite.not_mem_dropLast_iff, Form.terminated_write_iff c.slots form hatoms]

/-- A function definition as the value of a write, and one in an operand that is left out. -/
theorem semicolons_of_program_assigned :
    (';' ∉ ({} : Compiler).slots.toList ∧ '"' ∉ ({} : Compiler).slots.toList) ∧
      CommentsApart "(set x (defun g (a) \"b;c\")) ;d\n(not y (defun h ()))" ∧
      ({} : Compiler).program "(set x (defun g (a) \"b;c\")) ;d\n(not y (defun h ()))" =
        .ok ["global.x = global.g = (a) => ((\"b;c\"));", "!y"] ∧
      ∃ forms, ({} : Compiler).forms "(set x (defun g (a) \"b;c\")) ;d\n(not y (defun h ()))" =
          .ok forms ∧
        List.Forall₂ (fun form text =>
          (Text.bare text.toList).count ';' = form.functions ∧
            (';' ∉ Text.bare text.toList.dropLast ↔
              form.functions = 0 ∨ form.functions = 1 ∧ form.endsInFunction = true))
          forms ["global.x = global.g = (a) => ((\"b;c\"));", "!y"] := by
  have hslots : ';' ∉ ({} : Compiler).slots.toList ∧ '"' ∉ ({} : Compiler).slots.toList := by decide
  have hapart : CommentsApart "(set x (defun g (a) \"b;c\")) ;d\n(not y (defun h ()))" := by
    decide +kernel
  have h : ({} : Compiler).program "(set x (defun g (a) \"b;c\")) ;d\n(not y (defun h ()))" =
      .ok ["global.x = global.g = (a) => ((\"b;c\"));", "!y"] := by decide +kernel
  exact ⟨hslots, hapart, h, semicolons_of_program hslots hapart h⟩

/-- A function definition as an argument of a call leaves its semicolon inside the call. -/
theorem semicolon_inside_call :
    CommentsApart "(f (defun g () 1))" ∧
      ({} : Compiler).program "(f (defun g () 1))" = .ok ["f(global.g = () => ((1));)"] ∧
      ';' ∈ Text.bare "f(global.g = () => ((1));)".toList.dropLast := by
  decide +kernel

end Compiler

end SexpScript
