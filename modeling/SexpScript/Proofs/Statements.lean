import SexpScript.Proofs.Operands
import SexpScript.Proofs.Sending

/-! # One line for each statement

    A script has as many lines as it has statements, if no string of the source and no name
    of the slot object goes over a line end.

    - A newline outside strings is a blank, so that no chunk holds one
      (`oneLine_of_mem_chunks`).  All else that is written is fixed or the slot object
      (`oneLine_write`).
    - The lines of statements that are joined by newlines are the statements
      (`bareLines_intercalate`).
    - A line of the shell may end in a newline.  In a string it would leave the string open,
      and the line would be refused (`newlinesApart_of_line`).  So the text that the shell
      shows for a line is one line (`emits_respond_echo`).
-/

namespace SexpScript

/-! ### Texts of one line -/

namespace Text

/-- A text without newlines. -/
def OneLine (text : String) : Prop := '\n' ∉ text.toList

instance (text : String) : Decidable (OneLine text) :=
  inferInstanceAs (Decidable ('\n' ∉ text.toList))

namespace OneLine

variable {a b separator : String} {texts : List String}

theorem append (ha : OneLine a) (hb : OneLine b) : OneLine (a ++ b) := by
  unfold OneLine at *
  simp [ha, hb]

theorem intercalate (hseparator : OneLine separator) (h : ∀ text ∈ texts, OneLine text) :
    OneLine (separator.intercalate texts) := by
  induction texts with
  | nil =>
    show OneLine ""
    decide
  | cons text texts ih =>
    have htext := h text List.mem_cons_self
    have hrest := ih fun other hother => h other (List.mem_cons_of_mem text hother)
    cases texts with
    | nil => simpa using htext
    | cons next texts =>
      rw [String.intercalate_cons_cons]
      exact (htext.append hseparator).append hrest

theorem parens (h : OneLine a) : OneLine ("(" ++ a ++ ")") := by
  have hopen : OneLine "(" := by decide
  have hclose : OneLine ")" := by decide
  exact (hopen.append h).append hclose

end OneLine

/-- The lines of a text without the newlines that end them. -/
def bareLines (text : String) : List String :=
  (lines text).map fun line => String.ofList (line.toList.filter (· ≠ '\n'))

/-- What has no newline at all is one line as well, if there is anything. -/
theorem linesFrom_last {cs : List Char} (h : '\n' ∉ cs) (current : List Char)
    (hne : current.reverse ++ cs ≠ []) : linesFrom current cs = [current.reverse ++ cs] := by
  induction cs generalizing current with
  | nil =>
    rw [List.append_nil] at hne ⊢
    have hcurrent : current.isEmpty = false := by simpa using hne
    simp [linesFrom, hcurrent]
  | cons c cs ih =>
    have hc : c ≠ '\n' := fun hc => h (hc ▸ List.mem_cons_self)
    have hcs : '\n' ∉ cs := fun hcs => h (List.mem_cons_of_mem c hcs)
    rw [linesFrom, if_neg hc, ih hcs (c :: current) (by simp)]
    simp

/-- A text of one line with a newline after it is a line. -/
theorem lines_append_newline {text : String} (h : OneLine text) (rest : String) :
    lines (text ++ "\n" ++ rest) = (text ++ "\n") :: lines rest := by
  have hchars : (text ++ "\n" ++ rest).toList = text.toList ++ '\n' :: rest.toList := by simp
  have hline : String.ofList (text.toList ++ ['\n']) = text ++ "\n" := by
    rw [← String.toList_inj]
    simp
  unfold lines
  rw [hchars, linesFrom_line h, List.reverse_nil, List.nil_append, List.map_cons, hline]

theorem OneLine.filter_ne_newline {text : String} (h : OneLine text) :
    text.toList.filter (· ≠ '\n') = text.toList := by
  rw [List.filter_eq_self]
  intro c hc
  exact decide_eq_true fun hnewline => h (hnewline ▸ hc)

/-- The lines of texts that are joined by newlines are the texts. -/
theorem bareLines_intercalate {texts : List String}
    (h : ∀ text ∈ texts, OneLine text ∧ text ≠ "") :
    bareLines ("\n".intercalate texts) = texts := by
  induction texts with
  | nil => rfl
  | cons text texts ih =>
    obtain ⟨htext, hne⟩ := h text List.mem_cons_self
    have hrest := ih fun other hother => h other (List.mem_cons_of_mem text hother)
    have hself := htext.filter_ne_newline
    cases texts with
    | nil =>
      have hchars : ([] : List Char).reverse ++ text.toList ≠ [] := by simpa using hne
      rw [String.intercalate_singleton, bareLines, lines, linesFrom_last htext [] hchars]
      show [String.ofList ((String.ofList text.toList).toList.filter (· ≠ '\n'))] = [text]
      rw [String.ofList_toList, hself, String.ofList_toList]
    | cons next texts =>
      rw [String.intercalate_cons_cons, bareLines, lines_append_newline htext, List.map_cons]
      -- The newline between the two is the only one that is taken away.
      refine congrArg₂ _ ?_ hrest
      rw [String.toList_append, List.filter_append, hself]
      simp

/-- Such texts are found again by splitting at the newlines, if there are any. -/
theorem splitOn_intercalate_newline {texts : List String} (h : ∀ text ∈ texts, OneLine text)
    (hne : texts ≠ []) :
    ("\n".intercalate texts).toList.splitOn '\n' = texts.map String.toList := by
  rw [String.toList_intercalate]
  apply List.splitOn_intercalate
  · intro line hline
    obtain ⟨text, htext, rfl⟩ := List.mem_map.mp hline
    exact h text htext
  · simpa using hne

end Text

open Text (OneLine)

/-! ### Newlines of a source -/

/-- No newline is inside a string of the source.  A comment has none: it ends there. -/
def NewlinesApart (source : String) : Prop :=
  ('\n', true) ∉ source.toList.zip (insideCode source.toList)

instance (source : String) : Decidable (NewlinesApart source) :=
  inferInstanceAs (Decidable (('\n', true) ∉ source.toList.zip (insideCode source.toList)))

theorem zip_zipWith_swap {α β γ : Type} (f : β → α → γ) (bs : List β) (as : List α) :
    as.zip (List.zipWith f bs as) = (as.zip bs).map fun x => (x.1, f x.2 x.1) := by
  induction as generalizing bs with
  | nil => rfl
  | cons a as ih =>
    cases bs with
    | nil => rfl
    | cons b bs => simp [ih]

/-- A newline outside strings is a blank. -/
theorem newline_not_mem_withoutBlanks {source : String} (h : NewlinesApart source) :
    '\n' ∉ withoutBlanks source.toList := by
  intro hmem
  obtain ⟨⟨c, mark⟩, hkept, hc⟩ := List.mem_map.mp hmem
  obtain ⟨hzip, hmark⟩ := List.mem_filter.mp hkept
  -- The mark goes by the character and by where it stands, and a newline is never a paren.
  rw [marks, zip_zipWith_swap] at hzip
  obtain ⟨⟨c', inside⟩, hpair, heq⟩ := List.mem_map.mp hzip
  obtain ⟨rfl, rfl⟩ := Prod.mk.inj heq
  have hnewline : c' = '\n' := hc
  subst hnewline
  cases inside with
  | true => exact h hpair
  | false =>
    have hblank : Mark.of false '\n' = .blank := by decide
    exact of_decide_eq_true hmark hblank

theorem oneLine_of_mem_chunks {source chunk : String} (h : NewlinesApart source)
    (hmem : chunk ∈ chunks source) : OneLine chunk := by
  obtain ⟨cs, hcs, rfl⟩ := List.mem_map.mp hmem
  have hheld : (Scan.start.run source.toList).chunks.flatten = withoutBlanks source.toList :=
    (Scan.flatten_flush_done _).trans (Scan.held_run _)
  intro hnewline
  rw [String.toList_ofList] at hnewline
  apply newline_not_mem_withoutBlanks h
  rw [← hheld]
  exact List.mem_flatten.mpr ⟨cs, hcs, hnewline⟩

theorem Region.eq_string_of_next_newline {r : Region} (h : r.next '\n' ≠ .code) : r = .string := by
  cases r with
  | string => rfl
  | _ => exact absurd rfl h

/-- An accepted line with no newline but its last character has none in a string. -/
theorem newlinesApart_of_line {source : String} {forms : List Form}
    (h : Form.ofTokens (tokenize source) = .ok forms) (hline : '\n' ∉ source.toList.dropLast) :
    NewlinesApart source := by
  have hregion := region_ne_string_of_ofTokens h
  unfold NewlinesApart
  rcases List.eq_nil_or_concat source.toList with hnil | ⟨cs, c, hconcat⟩
  · simp [hnil]
  · rw [List.concat_eq_append] at hconcat
    have hinside := insideFrom_append .code cs c
    have hlength := length_insideFrom .code cs
    simp only [insideFrom] at hinside hlength
    rw [hconcat] at hregion hline ⊢
    rw [List.dropLast_concat] at hline
    rw [hinside, List.zip_append hlength.symm]
    intro hmem
    rcases List.mem_append.mp hmem with hbefore | hlast
    · exact hline (List.of_mem_zip hbefore).1
    · obtain ⟨hc, hnext⟩ := Prod.mk.inj (List.mem_singleton.mp hlast)
      subst hc
      -- The newline is in a string, and then the source ends in it.
      have hstring := Region.eq_string_of_next_newline (of_decide_eq_true hnext.symm)
      apply hregion
      rw [Scan.region_run, List.foldl_append]
      show (cs.foldl Region.next .code).next '\n' = .string
      rw [hstring]
      rfl

/-! ### What is written -/

namespace Operation

section render
variable {slots : String} {operands : List String}

theorem oneLine_word_ofName {name : String} (h : OneLine name) : OneLine (ofName name).word :=
  word_ofName_of_symbols h (by decide) (by decide) (by decide)

theorem oneLine_operand (h : ∀ text ∈ operands, OneLine text) (i : Nat) :
    OneLine (operand operands i) := by
  have hundefined : OneLine undefinedText := by decide
  rw [operand, List.getD_eq_getElem?_getD]
  cases hget : operands[i]? with
  | none => exact hundefined
  | some text => exact h text (List.mem_of_getElem? hget)

theorem oneLine_define {name value : String} (hslots : OneLine slots) (hname : OneLine name)
    (hvalue : OneLine value) : OneLine (define slots name value) := by
  have hdot : OneLine "." := by decide
  have hequals : OneLine " = " := by decide
  exact (((hslots.append hdot).append hname).append hequals).append hvalue

theorem oneLine_render (op : Operation) (hword : OneLine op.word) (hslots : OneLine slots)
    (h : ∀ text ∈ operands, OneLine text) : OneLine (op.render slots operands) := by
  have hcomma : OneLine ", " := by decide
  have hspace : OneLine " " := by decide
  have hdot : OneLine "." := by decide
  have hopen : OneLine "(" := by decide
  have hclose : OneLine ")" := by decide
  have hlist := hcomma.intercalate h
  cases op with
  | binary symbol =>
    have hseparator := (hspace.append hword).append hspace
    exact (hseparator.intercalate h).parens
  | unary symbol =>
    have hsymbol : OneLine symbol := hword
    exact hsymbol.append (oneLine_operand h 0)
  | array =>
    have hsquare : OneLine "[" := by decide
    have hsquare' : OneLine "]" := by decide
    exact (hsquare.append hlist).append hsquare'
  | method name =>
    have hname : OneLine name := hword
    have hreceiver := ((oneLine_operand h 1).append hdot).append hname
    exact ((hreceiver.append hopen).append (oneLine_operand h 0)).append hclose
  | exit =>
    show OneLine exitText
    decide
  | assign => exact oneLine_define hslots (oneLine_operand h 0) (oneLine_operand h 1)
  | call name =>
    have hname : OneLine name := hword
    exact ((hname.append hopen).append hlist).append hclose

end render

end Operation

namespace Form

theorem oneLine_orUndefined {text : String} (h : OneLine text) : OneLine (orUndefined text) := by
  unfold orUndefined
  split
  · decide
  · exact h

theorem oneLine_arrow {params statements : List String} (hparams : ∀ param ∈ params, OneLine param)
    (h : ∀ text ∈ statements, OneLine text) : OneLine (arrow params statements) := by
  have hcomma : OneLine ", " := by decide
  have harrow : OneLine " => " := by decide
  have hbody : ∀ text ∈ statements.map fun text => "(" ++ orUndefined text ++ ")",
      OneLine text := by
    intro text htext
    obtain ⟨statement, hstatement, rfl⟩ := List.mem_map.mp htext
    exact (oneLine_orUndefined (h statement hstatement)).parens
  rw [arrow_eq]
  exact ((hcomma.intercalate hparams).parens.append harrow).append
    (oneLine_orUndefined (hcomma.intercalate hbody)).parens

mutual

/-- A form whose atoms have no newline is written on one line. -/
theorem oneLine_write {slots : String} (hslots : OneLine slots) :
    (form : Form) → (∀ a ∈ atoms form, OneLine a) → OneLine (write slots form)
  | .empty, _ => by
    show OneLine ""
    decide
  | .leaf t, h => h t.text List.mem_cons_self
  | .call name args, h => by
    have hword := Operation.oneLine_word_ofName (h name List.mem_cons_self)
    have hargs := oneLine_writeAll hslots args fun a ha => h a (List.mem_cons_of_mem name ha)
    exact Operation.oneLine_render _ hword hslots hargs
  | .defconstant name value, h =>
    Operation.oneLine_define hslots (h name (by simp [atoms])) (h value (by simp [atoms]))
  | .defvar name value, h =>
    Operation.oneLine_define hslots (h name (by simp [atoms])) (h value (by simp [atoms]))
  | .defun name params body, h => by
    have hname : OneLine name := h name (by simp [atoms])
    have hparams : ∀ param ∈ params, OneLine param := fun param hparam =>
      h param (by simp [atoms, hparam])
    have hbody := oneLine_writeAll hslots body fun a ha => h a (by simp [atoms, ha])
    have hend : OneLine ";" := by decide
    exact (Operation.oneLine_define hslots hname (oneLine_arrow hparams hbody)).append hend

/-- The same for several forms. -/
theorem oneLine_writeAll {slots : String} (hslots : OneLine slots) :
    (forms : List Form) → (∀ a ∈ atomsAll forms, OneLine a) →
      ∀ text ∈ writeAll slots forms, OneLine text
  | [], _, _, htext => absurd htext List.not_mem_nil
  | form :: forms, h, text, htext => by
    rcases List.mem_cons.mp htext with heq | hrest
    · rw [heq]
      exact oneLine_write hslots form fun a ha => h a (List.mem_append_left _ ha)
    · exact oneLine_writeAll hslots forms (fun a ha => h a (List.mem_append_right _ ha)) text hrest

end

end Form

/-! ### The echo of the shell -/

theorem emits_notify (notices : List Notice) :
    Emits (notices.forM Host.notify) fun _ entries => entries = notices.map .notice := by
  induction notices with
  | nil => exact Emits.pure rfl
  | cons notice notices ih =>
    apply Emits.record_bind rfl
    apply ih.mono
    intro _ entries hentries
    rw [hentries]
    rfl

namespace Shell

/-- With echo, the text of a line is shown first of all that goes to standard output. -/
theorem emits_respond_echo {settings : Settings} {line text : String} (hecho : settings.echo = true)
    (hline : (compiler settings).line line = .ok text) (session : Option Session) :
    Emits (respond settings session line) fun _ entries => ∃ rest,
      entries = ((compiler settings).notices line).map .notice ++
        .out ("// " ++ text ++ "\n") :: rest := by
  unfold respond
  apply (emits_notify _).bind
  intro _ notices hnotices
  rw [hline, hnotices]
  show Emits (if settings.echo = true then _ else _) _
  rw [if_pos hecho]
  apply Emits.record_bind rfl
  -- The echo is written by now, and what the session does comes after it.
  cases session with
  | none => exact Emits.pure ⟨[], rfl⟩
  | some session =>
    show Emits (if text = "" then _ else _) _
    by_cases hempty : text = ""
    · rw [if_pos hempty]
      exact Emits.pure ⟨[], rfl⟩
    · rw [if_neg hempty]
      apply (answers_evaluate settings session text).mono
      intro _ entries _
      exact ⟨entries, rfl⟩

end Shell

/-! ### Scripts -/

namespace Compiler

/-- A statement of a text: a semicolon is put after it, unless it ends in one. -/
inductive IsStatement : String → String → Prop
  | terminated {text : String} (h : Text.Terminated text) : IsStatement text text
  | unterminated {text : String} (h : ¬ Text.Terminated text) : IsStatement text (text ++ ";")

theorem isStatement_statement (text : String) : IsStatement text (statement text) := by
  unfold statement
  split
  · next h => exact .terminated h
  · next h => exact .unterminated h

theorem IsStatement.oneLine_and_ne_empty {text statement : String} (h : IsStatement text statement)
    (htext : OneLine text) (hne : text ≠ "") : OneLine statement ∧ statement ≠ "" := by
  cases h with
  | terminated => exact ⟨htext, hne⟩
  | unterminated =>
    have hend : OneLine ";" := by decide
    exact ⟨htext.append hend, by simp⟩

theorem oneLine_of_forms {c : Compiler} {source : String} {forms : List Form}
    (hslots : OneLine c.slots) (hapart : NewlinesApart source)
    (h : c.forms source = .ok forms) :
    ∀ text ∈ forms.map (Form.write c.slots), OneLine text := by
  rw [← Form.writeAll_eq_map]
  apply Form.oneLine_writeAll hslots
  intro a ha
  exact oneLine_of_mem_chunks hapart (Form.mem_chunks_of_mem_atoms (forms_eq_ok.mp h) a ha)

theorem script_of_program {c : Compiler} {source : String} {texts : List String}
    (h : c.program source = .ok texts) :
    c.script source = .ok ("\n".intercalate ((texts.filter (· ≠ "")).map statement)) := by
  unfold script
  rw [h]
  rfl

/-- The statements of texts of one line are such texts too, and none of them is blank. -/
theorem oneLine_statements {texts : List String} (h : ∀ text ∈ texts, OneLine text) :
    ∀ line ∈ (texts.filter (· ≠ "")).map statement, OneLine line ∧ line ≠ "" := by
  intro line hline
  obtain ⟨text, htext, rfl⟩ := List.mem_map.mp hline
  obtain ⟨hmem, hne⟩ := List.mem_filter.mp htext
  exact (isStatement_statement text).oneLine_and_ne_empty (h text hmem) (of_decide_eq_true hne)

/-- The text of a line that has no newline before its end. -/
theorem oneLine_of_line {c : Compiler} {line text : String} (hslots : OneLine c.slots)
    (hline : '\n' ∉ line.toList.dropLast) (h : c.line line = .ok text) : OneLine text := by
  obtain ⟨forms, hforms, _⟩ := bind_eq_ok.mp h
  -- All of the line was read, also the forms that are not written.
  have hapart := newlinesApart_of_line (forms_eq_ok.mp hforms) hline
  have htexts := oneLine_of_forms hslots hapart hforms
  rw [Except.ok.inj (h.symm.trans (line_of_forms hforms))]
  cases forms with
  | nil =>
    show OneLine ""
    decide
  | cons form forms => exact htexts _ List.mem_cons_self

/-- Scripts have one line for each statement.  If neither the slot object nor a string of the
    source has a newline, then no text of a program has one, the script is the statements of
    the texts that are there, joined by newlines, and its lines are those statements.  A line
    of the shell may end in a newline: if it is accepted, its text is one line, and so is the
    comment by which the shell shows it. -/
theorem one_line_for_each_statement {c : Compiler} (hslots : OneLine c.slots) :
    (∀ source texts, NewlinesApart source → c.program source = .ok texts →
      (∀ text ∈ texts, OneLine text) ∧
        ∃ statements script, List.Forall₂ IsStatement (texts.filter (· ≠ "")) statements ∧
          c.script source = .ok script ∧ script = "\n".intercalate statements ∧
          Text.bareLines script = statements ∧
          (statements ≠ [] → script.toList.splitOn '\n' = statements.map String.toList)) ∧
      ∀ line text, '\n' ∉ line.toList.dropLast → c.line line = .ok text →
        OneLine text ∧ Text.lines ("// " ++ text ++ "\n") = ["// " ++ text ++ "\n"] ∧
          ∀ settings session, Shell.compiler settings = c → settings.echo = true →
            Emits (Shell.respond settings session line) fun _ entries => ∃ rest,
              entries = (c.notices line).map .notice ++ .out ("// " ++ text ++ "\n") :: rest := by
  refine ⟨?_, ?_⟩
  · intro source texts hapart h
    obtain ⟨forms, hforms, _⟩ := bind_eq_ok.mp h
    have htexts := oneLine_of_forms hslots hapart hforms
    rw [← Except.ok.inj (h.symm.trans (program_of_forms hforms))] at htexts
    have hstatements := oneLine_statements htexts
    refine ⟨htexts, (texts.filter (· ≠ "")).map statement, _, ?_, script_of_program h, rfl,
      Text.bareLines_intercalate hstatements,
      Text.splitOn_intercalate_newline fun text htext => (hstatements text htext).1⟩
    rw [List.forall₂_map_right_iff, List.forall₂_same]
    exact fun text _ => isStatement_statement text
  · intro line text hline h
    have htext := oneLine_of_line hslots hline h
    have hmark : OneLine "// " := by decide
    refine ⟨htext, ?_, ?_⟩
    · have hlines := Text.lines_append_newline (hmark.append htext) ""
      rwa [String.append_empty] at hlines
    · intro settings session hcompiler hecho
      subst hcompiler
      exact Shell.emits_respond_echo hecho h session

/-- A source with a comment, an empty form and a function, which has its semicolon already, and
    a line that ends in a newline. -/
theorem one_line_for_each_statement_comment :
    OneLine ({} : Compiler).slots ∧ NewlinesApart "(f \"a\") ;b\n()\n(defun g () 1)" ∧
      ({} : Compiler).program "(f \"a\") ;b\n()\n(defun g () 1)" =
        .ok ["f(\"a\")", "", "global.g = () => ((1));"] ∧
      (∃ statements script,
        List.Forall₂ IsStatement ["f(\"a\")", "global.g = () => ((1));"] statements ∧
          ({} : Compiler).script "(f \"a\") ;b\n()\n(defun g () 1)" = .ok script ∧
          script = "\n".intercalate statements ∧ Text.bareLines script = statements ∧
          (statements ≠ [] → script.toList.splitOn '\n' = statements.map String.toList)) ∧
      '\n' ∉ "(f 1)\n".toList.dropLast ∧ ({} : Compiler).line "(f 1)\n" = .ok "f(1)" ∧
      Text.lines ("// " ++ "f(1)" ++ "\n") = ["// " ++ "f(1)" ++ "\n"] ∧
      Shell.compiler {} = {} ∧ ({} : Settings).echo = true ∧
      Emits (Shell.respond {} none "(f 1)\n") fun _ entries => ∃ rest,
        entries = (({} : Compiler).notices "(f 1)\n").map .notice ++
          .out ("// " ++ "f(1)" ++ "\n") :: rest := by
  have hslots : OneLine ({} : Compiler).slots := by decide
  have hapart : NewlinesApart "(f \"a\") ;b\n()\n(defun g () 1)" := by decide +kernel
  have hprogram : ({} : Compiler).program "(f \"a\") ;b\n()\n(defun g () 1)" =
      .ok ["f(\"a\")", "", "global.g = () => ((1));"] := by decide +kernel
  have hbreak : '\n' ∉ "(f 1)\n".toList.dropLast := by decide
  have hline : ({} : Compiler).line "(f 1)\n" = .ok "f(1)" := by decide +kernel
  have h := one_line_for_each_statement hslots
  obtain ⟨_, hlines, hecho⟩ := h.2 _ _ hbreak hline
  exact ⟨hslots, hapart, hprogram, (h.1 _ _ hapart hprogram).2, hbreak, hline, hlines, rfl, rfl,
    hecho {} none rfl rfl⟩

end Compiler

end SexpScript
