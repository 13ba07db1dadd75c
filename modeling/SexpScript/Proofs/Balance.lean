import SexpScript.Proofs.Depth
import SexpScript.Proofs.Regions
import SexpScript.Proofs.RoundTrip

/-! # Balanced scripts

    What is written for an accepted source closes every paren that it opens, quotes
    read in pairs.  The argument follows a text from the source to the script.

    - A chunk that was read as a whole, and has no semicolon outside quotes, has no paren
      and no blank outside quotes either, and its quotes come in pairs
      (`unbroken_of_whole`).
    - Every name, value, parameter and leaf of a form is the text of a token that is no
      paren (`isTextOf_of_isForm`).
    - Each operation and each definition puts balanced texts together so that the whole is
      balanced (`balanced_render`, `balanced_arrow`).
-/

namespace SexpScript

/-! ### Chunks outside quotes -/

/-- A text that nothing splits: its quotes come in pairs, and outside them it has neither
    blanks nor parens. -/
structure Text.Unbroken (cs : List Char) : Prop where
  closed : Text.Closed cs
  bare : ∀ c ∈ Text.bare cs, Text.isBlank c = false ∧ Scan.isParen c = false

/-- The region of a place in a text without comments. -/
def Region.ofQuoted (quoted : Bool) : Region := if quoted then .string else .code

theorem Region.next_ofQuoted {quoted : Bool} {c : Char} (h : quoted = false → c ≠ ';') :
    (Region.ofQuoted quoted).next c = .ofQuoted (Text.quotedNext quoted c) := by
  unfold Text.quotedNext
  by_cases hquote : c = '"'
  · subst hquote
    cases quoted <;> rfl
  · cases quoted with
    | true => simp [ofQuoted, next, hquote]
    | false => simp [ofQuoted, next, hquote, h rfl]

namespace Scan

/-- A step puts at most one character to the chunk being read. -/
theorem length_pending_run_le (s : Scan) (cs : List Char) :
    (s.run cs).pending.length ≤ s.pending.length + cs.length := by
  induction cs generalizing s with
  | nil => exact Nat.le_refl _
  | cons c cs ih =>
    have hrun := ih (s.step c)
    have hstep : (s.step c).pending.length ≤ s.pending.length + 1 := by
      rcases s.step_cases c with ⟨_, _, hs⟩ | ⟨_, _, hs⟩ | ⟨_, hs⟩ <;> rw [hs] <;> simp
    show ((s.step c).run cs).pending.length ≤ s.pending.length + (cs.length + 1)
    omega

/-- Where every character is put to the chunk being read, the first one is, and so are the
    others after it. -/
theorem step_of_kept {s : Scan} {c : Char} {cs : List Char}
    (hkeep : (s.run (c :: cs)).pending.length = s.pending.length + (c :: cs).length) :
    (s.region.next c = .code → Text.isBlank c = false ∧ isParen c = false) ∧
      s.step c = ⟨s.region.next c, c :: s.pending, s.done⟩ ∧
      ((s.step c).run cs).pending.length = (s.step c).pending.length + cs.length := by
  have hrest : ((s.step c).run cs).pending.length = s.pending.length + (cs.length + 1) := hkeep
  have hle := length_pending_run_le (s.step c) cs
  have hlost (hnil : (s.step c).pending = []) : False := by
    rw [hnil] at hle
    simp only [List.length_nil] at hle
    omega
  rcases s.step_cases c with ⟨_, _, hs⟩ | ⟨_, _, hs⟩ | ⟨hplain, hs⟩
  · exact (hlost (by rw [hs])).elim
  · exact (hlost (by rw [hs])).elim
  · have hpending : (s.step c).pending.length = s.pending.length + 1 := by
      rw [hs]
      rfl
    exact ⟨hplain, hs, by omega⟩

/-- Where every character is put to the chunk being read, no bare character splits, and
    the quotes alone tell the region. -/
theorem bare_of_run {quoted : Bool} {s : Scan} {cs : List Char}
    (hregion : s.region = .ofQuoted quoted) (hsemicolon : ';' ∉ Text.bareFrom quoted cs)
    (hkeep : (s.run cs).pending.length = s.pending.length + cs.length) :
    (s.run cs).region = .ofQuoted (Text.quotedAfter quoted cs) ∧
      ∀ c ∈ Text.bareFrom quoted cs, Text.isBlank c = false ∧ isParen c = false := by
  induction cs generalizing quoted s with
  | nil => exact ⟨hregion, nofun⟩
  | cons c cs ih =>
    obtain ⟨hplain, hs, hkeep'⟩ := step_of_kept hkeep
    obtain ⟨hc, hcs⟩ := Text.forall_mem_bareFrom_cons.mp (List.forall_mem_ne'.mpr hsemicolon)
    have hnext : s.region.next c = .ofQuoted (Text.quotedNext quoted c) := by
      rw [hregion]
      apply Region.next_ofQuoted
      rintro hquoted rfl
      exact hc hquoted (by decide) rfl
    have hregion' : (s.step c).region = .ofQuoted (Text.quotedNext quoted c) := by
      rw [hs]
      exact hnext
    obtain ⟨hend, hbare⟩ := ih hregion' (List.forall_mem_ne'.mp hcs) hkeep'
    refine ⟨hend, Text.forall_mem_bareFrom_cons.mpr ⟨?_, hbare⟩⟩
    intro hquoted hquote
    apply hplain
    rw [hnext, hquoted]
    simp [Region.ofQuoted, Text.quotedNext, hquote]

theorem length_held_le (cs : List Char) : (start.run cs).held.length ≤ cs.length := by
  rw [held_run, withoutBlanks, List.length_map]
  have hfilter := List.length_filter_le (fun x => x.2 ≠ Mark.blank) (cs.zip (marks cs))
  rw [List.length_zip, length_marks, Nat.min_self] at hfilter
  exact hfilter

/-- A whole chunk that is no paren is all in the chunk being read. -/
theorem pending_of_whole {chunk : List Char} (h : Whole chunk)
    (hparen : ∀ c, chunk = [c] → isParen c = false) :
    (start.run chunk).pending = chunk.reverse := by
  have hchunks := h.2
  by_cases hp : (start.run chunk).pending = []
  · -- The chunk has ended at its last character, which then is a blank or a paren.
    rcases chunk.eq_nil_or_concat with rfl | ⟨init, c, hconcat⟩
    · rfl
    · rw [List.concat_eq_append] at hconcat
      subst hconcat
      exfalso
      rw [run_append] at hp hchunks
      change ((start.run init).step c).pending = [] at hp
      change ((start.run init).step c).chunks = _ at hchunks
      rcases (start.run init).step_cases c with ⟨_, _, hs⟩ | ⟨_, hc, hs⟩ | ⟨_, hs⟩
      · -- A blank is dropped, so what was held before it is too short for the chunk.
        rw [hs, chunks, flush_of_nil rfl] at hchunks
        have hheld := flatten_flush_done (start.run init)
        rw [show (start.run init).flush.done.reverse = [init ++ [c]] from hchunks] at hheld
        have hle := length_held_le init
        rw [← hheld] at hle
        simp only [List.flatten_cons, List.flatten_nil, List.append_nil, List.length_append,
          List.length_singleton] at hle
        omega
      · rw [hs, chunks, flush_of_nil rfl] at hchunks
        have hlast : [c] = init ++ [c] := by
          have hlast := congrArg List.getLast? hchunks
          simpa using hlast
        rw [hparen c hlast.symm] at hc
        exact Bool.noConfusion hc
      · rw [hs] at hp
        cases hp
  · rw [chunks, flush_of_ne_nil hp, List.reverse_cons, List.append_eq_singleton_iff] at hchunks
    rcases hchunks with ⟨_, hchunk⟩ | ⟨_, hnil⟩
    · have hreverse : (start.run chunk).pending.reverse = chunk := by simpa using hchunk
      exact List.reverse_eq_iff.mp hreverse
    · cases hnil

/-- A whole chunk that is no paren and has no semicolon outside quotes is unbroken. -/
theorem unbroken_of_whole {chunk : List Char} (h : Whole chunk)
    (hparen : ∀ c, chunk = [c] → isParen c = false) (hsemicolon : ';' ∉ Text.bare chunk) :
    Text.Unbroken chunk := by
  have hkeep : (start.run chunk).pending.length = start.pending.length + chunk.length := by
    rw [pending_of_whole h hparen, List.length_reverse]
    exact (Nat.zero_add _).symm
  have hcode : start.region = .ofQuoted false := rfl
  obtain ⟨hregion, hbare⟩ := bare_of_run hcode hsemicolon hkeep
  refine ⟨?_, hbare⟩
  cases hquoted : Text.quotedAfter false chunk with
  | true =>
    rw [hquoted] at hregion
    exact absurd hregion h.1
  | false => exact hquoted

end Scan

namespace Text

theorem Unbroken.balanced {cs : List Char} (h : Unbroken cs) : Balanced round cs := by
  apply Balanced.of_bare h.closed
  intro c hc
  have hparen := (h.bare c hc).2
  simp only [Scan.isParen, Bool.or_eq_false_iff, decide_eq_false_iff_not] at hparen
  simp [round, hparen]

end Text

/-! ### Atoms -/

namespace Form

mutual

/-- The texts from which a form is made: its names, values, parameters and leaves. -/
def atoms : Form → List String
  | .empty => []
  | .leaf t => [t.text]
  | .call name args => name :: atomsAll args
  | .defconstant name value => [name, value]
  | .defvar name value => [name, value]
  | .defun name params body => name :: params ++ atomsAll body

/-- The texts from which several forms are made. -/
def atomsAll : List Form → List String
  | [] => []
  | form :: forms => atoms form ++ atomsAll forms

end

/-- The text of one of the tokens, and of none of the parens among them. -/
def IsTextOf (ts : List Token) (text : String) : Prop := ∃ t ∈ ts, t.Plain ∧ t.text = text

theorem IsTextOf.mono {ts us : List Token} {text : String} (h : IsTextOf ts text)
    (hsub : ∀ t ∈ ts, t ∈ us) : IsTextOf us text := by
  obtain ⟨t, ht, hplain, htext⟩ := h
  exact ⟨t, hsub t ht, hplain, htext⟩

mutual

/-- The atoms of a form are texts of the tokens from which it is derived. -/
theorem isTextOf_of_isForm {ts : List Token} {form : Form} :
    IsForm ts form → ∀ a ∈ atoms form, IsTextOf ts a
  | .empty _ _, a, ha => by cases ha
  | @IsForm.call _ name _ _ _ _ hname helements _, a, ha => by
    have hplain : name.Plain := Token.plain_of_isLeaf (by rw [hname]; decide)
    rcases List.mem_cons.mp ha with rfl | ha
    · exact ⟨name, by simp, hplain, rfl⟩
    · apply (isTextOf_of_areElements helements a ha).mono
      intro t ht
      simp [ht]
  | @IsForm.defconstant _ _ name value _ _ _ hname hvalue _, a, ha => by
    simp only [atoms, List.mem_cons, List.not_mem_nil, or_false] at ha
    rcases ha with rfl | rfl
    · exact ⟨name, by simp, hname, rfl⟩
    · exact ⟨value, by simp, hvalue, rfl⟩
  | @IsForm.defvar _ _ name value _ _ _ hname hvalue _, a, ha => by
    simp only [atoms, List.mem_cons, List.not_mem_nil, or_false] at ha
    rcases ha with rfl | rfl
    · exact ⟨name, by simp, hname, rfl⟩
    · exact ⟨value, by simp, hvalue, rfl⟩
  | @IsForm.defun _ _ name _ _ _ _ _ _ _ _ hname _ hparams _ _ helements _, a, ha => by
    simp only [atoms, List.mem_append, List.mem_cons] at ha
    rcases ha with (rfl | ha) | ha
    · exact ⟨name, by simp, hname, rfl⟩
    · obtain ⟨param, hparam, rfl⟩ := List.mem_map.mp ha
      exact ⟨param, by simp [hparam], hparams param hparam, rfl⟩
    · apply (isTextOf_of_areElements helements a ha).mono
      intro t ht
      simp [ht]

/-- So are those of an element. -/
theorem isTextOf_of_isElement {ts : List Token} {form : Form} :
    IsElement ts form → ∀ a ∈ atoms form, IsTextOf ts a
  | .form hform, a, ha => isTextOf_of_isForm hform a ha
  | @IsElement.leaf t hleaf, a, ha => by
    have hplain := Token.plain_of_isLeaf (Token.Kind.isLeaf_iff.mpr hleaf)
    rw [atoms, List.mem_singleton] at ha
    exact ⟨t, List.mem_singleton_self t, hplain, ha.symm⟩

/-- And so are those of several elements. -/
theorem isTextOf_of_areElements {ts : List Token} {forms : List Form} :
    AreElements ts forms → ∀ a ∈ atomsAll forms, IsTextOf ts a
  | .nil, a, ha => by cases ha
  | .cons helement helements, a, ha => by
    rcases List.mem_append.mp ha with ha | ha
    · exact (isTextOf_of_isElement helement a ha).mono fun t ht => List.mem_append_left _ ht
    · exact (isTextOf_of_areElements helements a ha).mono fun t ht => List.mem_append_right _ ht

end

theorem isTextOf_of_isProgram {ts : List Token} {forms : List Form} (h : IsProgram ts forms) :
    ∀ a ∈ atomsAll forms, IsTextOf ts a := by
  induction h with
  | nil =>
    intro a ha
    cases ha
  | cons hform _ ih =>
    intro a ha
    rcases List.mem_append.mp ha with ha | ha
    · exact (isTextOf_of_isForm hform a ha).mono fun t ht => List.mem_append_left _ ht
    · exact (ih a ha).mono fun t ht => List.mem_append_right _ ht

/-- The atoms of an accepted source are unbroken, if no token but comments has a semicolon
    outside quotes. -/
theorem unbroken_of_mem_atoms {source : String} {forms : List Form}
    (h : ofTokens (tokenize source) = .ok forms)
    (hsemicolon : ∀ t ∈ tokenize source, t.kind ≠ .comment → ';' ∉ Text.bare t.text.toList) :
    ∀ a ∈ atomsAll forms, Text.Unbroken a.toList := by
  intro a ha
  obtain ⟨t, ht, hplain, rfl⟩ := isTextOf_of_isProgram (isProgram_of_ofTokens h) a ha
  have hscanned := scanned_of_ofTokens h t ht
  have hatom := hscanned.isAtom hplain
  apply Scan.unbroken_of_whole hscanned.whole
  · intro c hc
    -- An atom of one character is not that of a paren.
    have htext : t.text = String.ofList [c] := by rw [← hc, String.ofList_toList]
    rw [← Bool.not_eq_true]
    intro hparen
    rcases Scan.isParen_iff.mp hparen with rfl | rfl
    · exact hatom.not_open htext
    · exact hatom.not_close htext
  · exact hsemicolon t (List.mem_of_mem_filter ht) hscanned.not_comment

end Form

/-! ### Operations -/

namespace Operation

open Text (Balanced Weighs)

variable {weight : Char → Int} [Weighs weight]

theorem ofName_of_mem_binary {name symbol : String} (h : (name, symbol) ∈ binaryOperators) :
    ofName name = .binary symbol := by
  have hall : ∀ entry ∈ binaryOperators, ofName entry.1 = .binary entry.2 := by decide
  exact hall _ h

theorem ofName_of_mem_unary {name symbol : String} (h : (name, symbol) ∈ unaryOperators) :
    ofName name = .unary symbol := by
  have hall : ∀ entry ∈ unaryOperators, ofName entry.1 = .unary entry.2 := by decide
  exact hall _ h

theorem ofName_of_mem_methods {name : String} (h : name ∈ arrayMethods) :
    ofName name = .method name := by
  have hall : ∀ method ∈ arrayMethods, ofName method = .method method := by decide
  exact hall name h

/-- A name that no table holds is called as it is. -/
theorem ofName_of_not_mem {name : String} (h : ∀ family ∈ Family.tables, name ∉ family.names) :
    ofName name = .call name := by
  have hbinary := h .binary (by decide)
  have hunary := h .unary (by decide)
  have harray := h .array (by decide)
  have hspecial := h .special (by decide)
  simp [ofName, Family.ofName, Family.tables, Family.operation?, hbinary, hunary, harray, hspecial]

/-- All that a name can be, by the tables: an operator, a name about arrays, a special name,
    or a name that no table holds. -/
theorem ofName_cases (name : String) :
    (∃ symbol, (name, symbol) ∈ binaryOperators ∧ ofName name = .binary symbol) ∨
    (∃ symbol, (name, symbol) ∈ unaryOperators ∧ ofName name = .unary symbol) ∨
    (name = "list" ∧ ofName name = .array) ∨
    (name ∈ arrayMethods ∧ ofName name = .method name) ∨
    (name = "exit" ∧ ofName name = .exit) ∨
    (name = "set" ∧ ofName name = .assign) ∨
    ((∀ family ∈ Family.tables, name ∉ family.names) ∧ ofName name = .call name) := by
  by_cases hnone : ∀ family ∈ Family.tables, name ∉ family.names
  · exact .inr (.inr (.inr (.inr (.inr (.inr ⟨hnone, ofName_of_not_mem hnone⟩)))))
  · have hsome : ∃ family ∈ Family.tables, name ∈ family.names := by simpa using hnone
    obtain ⟨family, _, hmem⟩ := hsome
    cases family with
    | binary =>
      obtain ⟨⟨_, symbol⟩, hentry, rfl⟩ := List.mem_map.mp hmem
      exact .inl ⟨symbol, hentry, ofName_of_mem_binary hentry⟩
    | unary =>
      obtain ⟨⟨_, symbol⟩, hentry, rfl⟩ := List.mem_map.mp hmem
      exact .inr (.inl ⟨symbol, hentry, ofName_of_mem_unary hentry⟩)
    | array =>
      rcases List.mem_cons.mp hmem with rfl | hmethod
      · exact .inr (.inr (.inl ⟨rfl, by decide⟩))
      · exact .inr (.inr (.inr (.inl ⟨hmethod, ofName_of_mem_methods hmethod⟩)))
    | special =>
      simp only [Family.names, specialNames, List.mem_cons, List.not_mem_nil, or_false] at hmem
      rcases hmem with rfl | rfl
      · exact .inr (.inr (.inr (.inr (.inl ⟨rfl, by decide⟩))))
      · exact .inr (.inr (.inr (.inr (.inr (.inl ⟨rfl, by decide⟩)))))
    | call => cases hmem

/-- The word that an operation writes of its own. -/
def word : Operation → String
  | binary symbol => symbol
  | unary symbol => symbol
  | method name => name
  | call name => name
  | array => ""
  | exit => ""
  | assign => ""

/-- What holds of the name of a call, of the symbols in the tables and of the empty text holds
    of the word of its operation. -/
theorem word_ofName_of_symbols {p : String → Prop} {name : String} (hname : p name)
    (hempty : p "") (hbinary : ∀ entry ∈ binaryOperators, p entry.2)
    (hunary : ∀ entry ∈ unaryOperators, p entry.2) : p (ofName name).word := by
  rcases ofName_cases name with ⟨symbol, hmem, hop⟩ | ⟨symbol, hmem, hop⟩ | ⟨_, hop⟩ | ⟨_, hop⟩ |
    ⟨_, hop⟩ | ⟨_, hop⟩ | ⟨_, hop⟩ <;> rw [hop]
  · exact hbinary _ hmem
  · exact hunary _ hmem
  · exact hempty
  · exact hname
  · exact hempty
  · exact hempty
  · exact hname

theorem balanced_word_ofName {name : String} (h : Balanced weight name.toList) :
    Balanced weight (ofName name).word.toList := by
  have hbinary : ∀ entry ∈ binaryOperators, entry.2.toList.all Text.isPlain = true := by decide
  have hunary : ∀ entry ∈ unaryOperators, entry.2.toList.all Text.isPlain = true := by decide
  apply word_ofName_of_symbols (p := fun text => Balanced weight text.toList) h Balanced.nil
  · exact fun entry hmem => Balanced.plain (hbinary entry hmem)
  · exact fun entry hmem => Balanced.plain (hunary entry hmem)

section render
variable {slots : String} {operands : List String}

theorem balanced_undefined : Balanced weight undefinedText.toList := Balanced.plain (by decide)

/-- The text that ends the program is a call. -/
theorem exitText_eq : exitText = "process.exit" ++ ("(" ++ "0" ++ ")") := by decide

theorem balanced_operand (h : ∀ text ∈ operands, Balanced weight text.toList) (i : Nat) :
    Balanced weight (operand operands i).toList := by
  unfold operand
  rw [List.getD_eq_getElem?_getD]
  cases hi : operands[i]? with
  | none => exact balanced_undefined
  | some text => exact h text (List.mem_of_getElem? hi)

theorem balanced_define {name value : String} (hslots : Balanced weight slots.toList)
    (hname : Balanced weight name.toList) (hvalue : Balanced weight value.toList) :
    Balanced weight (define slots name value).toList := by
  have hdot : Balanced weight ".".toList := Balanced.plain (by decide)
  have hequals : Balanced weight " = ".toList := Balanced.plain (by decide)
  exact (((hslots.append_text hdot).append_text hname).append_text hequals).append_text hvalue

/-- An operation on balanced operands is balanced, whichever of them it uses. -/
theorem balanced_render (op : Operation) (hword : Balanced weight op.word.toList)
    (hslots : Balanced weight slots.toList) (h : ∀ text ∈ operands, Balanced weight text.toList) :
    Balanced weight (op.render slots operands).toList := by
  have hcomma : Balanced weight ", ".toList := Balanced.plain (by decide)
  have hspace : Balanced weight " ".toList := Balanced.plain (by decide)
  have hdot : Balanced weight ".".toList := Balanced.plain (by decide)
  have hlist : Balanced weight (", ".intercalate operands).toList := hcomma.intercalate_text h
  cases op with
  | binary symbol =>
    have hseparator := (hspace.append_text hword).append_text hspace
    exact (hseparator.intercalate_text h).parens
  | unary symbol => exact hword.append_text (balanced_operand h 0)
  | array => exact hlist.squares
  | method name =>
    have hname : Balanced weight name.toList := hword
    have happly := (balanced_operand h 0).parens
    have hcall := (((balanced_operand h 1).append_text hdot).append_text hname).append_text happly
    simpa [render, String.append_assoc] using hcall
  | exit =>
    have hname : Balanced weight "process.exit".toList := Balanced.plain (by decide)
    have hzero : Balanced weight "0".toList := Balanced.plain (by decide)
    rw [render, exitText_eq]
    exact hname.append_text hzero.parens
  | assign => exact balanced_define hslots (balanced_operand h 0) (balanced_operand h 1)
  | call name =>
    have hname : Balanced weight name.toList := hword
    have hcall := hname.append_text hlist.parens
    simpa [render, String.append_assoc] using hcall

end render

end Operation

/-! ### Forms -/

namespace Form

open Text (Balanced Weighs)

theorem balanced_orUndefined {weight : Char → Int} [Weighs weight] {text : String}
    (h : Balanced weight text.toList) : Balanced weight (orUndefined text).toList := by
  unfold orUndefined
  split
  · exact Operation.balanced_undefined
  · exact h

/-- An arrow is its parameters and its body, each between parens. -/
theorem arrow_eq (params statements : List String) :
    arrow params statements =
      "(" ++ ", ".intercalate params ++ ")" ++ " => " ++
        ("(" ++ orUndefined (", ".intercalate
          (statements.map fun text => "(" ++ orUndefined text ++ ")")) ++ ")") := by
  rw [arrow, ← String.toList_inj]
  simp

/-- An arrow over balanced statements is balanced. -/
theorem balanced_arrow {weight : Char → Int} [Weighs weight] {params statements : List String}
    (hparams : ∀ param ∈ params, Balanced weight param.toList)
    (h : ∀ text ∈ statements, Balanced weight text.toList) :
    Balanced weight (arrow params statements).toList := by
  have hcomma : Balanced weight ", ".toList := Balanced.plain (by decide)
  have harrow : Balanced weight " => ".toList := Balanced.plain (by decide)
  have hhead := (hcomma.intercalate_text hparams).parens
  have hbody : Balanced weight
      (", ".intercalate (statements.map fun text => "(" ++ orUndefined text ++ ")")).toList := by
    apply hcomma.intercalate_text
    intro statement hstatement
    obtain ⟨text, htext, rfl⟩ := List.mem_map.mp hstatement
    exact (balanced_orUndefined (h text htext)).parens
  have htail := (balanced_orUndefined hbody).parens
  rw [arrow_eq]
  exact (hhead.append_text harrow).append_text htail

mutual

/-- A form made from balanced atoms is written as a balanced text. -/
theorem balanced_write {weight : Char → Int} [Weighs weight] {slots : String}
    (hslots : Balanced weight slots.toList) :
    (form : Form) → (∀ a ∈ atoms form, Balanced weight a.toList) →
      Balanced weight (write slots form).toList
  | .empty, _ => Balanced.nil
  | .leaf t, h => h t.text List.mem_cons_self
  | .call name args, h => by
    have hname := h name List.mem_cons_self
    have hargs := balanced_writeAll hslots args fun a ha => h a (List.mem_cons_of_mem _ ha)
    exact Operation.balanced_render _ (Operation.balanced_word_ofName hname) hslots hargs
  | .defconstant name value, h =>
    Operation.balanced_define hslots (h name (by simp [atoms])) (h value (by simp [atoms]))
  | .defvar name value, h =>
    Operation.balanced_define hslots (h name (by simp [atoms])) (h value (by simp [atoms]))
  | .defun name params body, h => by
    have hname := h name (by simp [atoms])
    have hparams : ∀ param ∈ params, Balanced weight param.toList := by
      intro param hparam
      exact h param (by simp [atoms, hparam])
    have hbody := balanced_writeAll hslots body fun a ha => h a (by simp [atoms, ha])
    have hsemicolon : Balanced weight ";".toList := Balanced.plain (by decide)
    have hdefine := Operation.balanced_define hslots hname (balanced_arrow hparams hbody)
    exact hdefine.append_text hsemicolon

/-- So are several forms. -/
theorem balanced_writeAll {weight : Char → Int} [Weighs weight] {slots : String}
    (hslots : Balanced weight slots.toList) :
    (forms : List Form) → (∀ a ∈ atomsAll forms, Balanced weight a.toList) →
      ∀ text ∈ writeAll slots forms, Balanced weight text.toList
  | [], _, text, htext => by cases htext
  | form :: forms, h, text, htext => by
    rcases List.mem_cons.mp htext with rfl | htext
    · exact balanced_write hslots form fun a ha => h a (List.mem_append_left _ ha)
    · exact balanced_writeAll hslots forms (fun a ha => h a (List.mem_append_right _ ha)) text htext

end

theorem writeAll_of_mapM {limit : Nat} {slots : String} {forms : List Form} {texts : List String}
    (h : forms.mapM (write? limit slots) = some texts) : texts = writeAll slots forms := by
  induction forms generalizing texts with
  | nil =>
    cases h
    rfl
  | cons form forms ih =>
    rw [List.mapM_cons] at h
    obtain ⟨text, htext, h⟩ := Option.bind_eq_some_iff.mp h
    obtain ⟨rest, hrest, h⟩ := Option.bind_eq_some_iff.mp h
    cases h
    have hform : write slots form = text := by
      unfold write? at htext
      split at htext
      · exact Option.some.inj htext
      · cases htext
    rw [writeAll, hform, ih hrest]

end Form

namespace Compiler

open Text (Balanced round)

/-- The texts that are written are those of the forms. -/
theorem writeForms_eq_ok {c : Compiler} {forms : List Form} {texts : List String}
    (h : c.writeForms forms = .ok texts) : texts = Form.writeAll c.slots forms := by
  unfold writeForms at h
  split at h
  · next hwritten =>
    cases h
    exact Form.writeAll_of_mapM hwritten
  · cases h

/-- Scripts are balanced.  If the slot object is balanced and no token but comments has a
    semicolon outside quotes, then in every text of an accepted source, read from left to
    right outside quotes, no paren is closed that was not opened, and none stays open. -/
theorem balanced_of_program {c : Compiler} {source : String} {texts : List String}
    (hslots : Balanced round c.slots.toList)
    (hsemicolon : ∀ t ∈ tokenize source, t.kind ≠ .comment → ';' ∉ Text.bare t.text.toList)
    (h : c.program source = .ok texts) : ∀ text ∈ texts, Balanced round text.toList := by
  obtain ⟨forms, hforms, hwrite⟩ := bind_eq_ok.mp h
  have hatoms := Form.unbroken_of_mem_atoms (forms_eq_ok.mp hforms) hsemicolon
  rw [writeForms_eq_ok hwrite]
  apply Form.balanced_writeAll hslots
  intro a ha
  exact (hatoms a ha).balanced

/-- A string with an open paren is stuck to a name, a comment holds a paren, and the method
    call leaves operands out. -/
theorem balanced_of_program_glued_string :
    Balanced round ({} : Compiler).slots.toList ∧
      ({} : Compiler).program "(defun f (a) (map a\"b (c\"d (list 1 ()) 2)) ; :(" =
        .ok ["global.f = (a) => (([1, ].map(a\"b (c\"d)));"] ∧
      Balanced round "global.f = (a) => (([1, ].map(a\"b (c\"d)));".toList := by
  have hslots : Balanced round ({} : Compiler).slots.toList := by decide
  have h : ({} : Compiler).program "(defun f (a) (map a\"b (c\"d (list 1 ()) 2)) ; :(" =
      .ok ["global.f = (a) => (([1, ].map(a\"b (c\"d)));"] := by decide +kernel
  exact ⟨hslots, h, balanced_of_program hslots (by decide +kernel) h _ List.mem_cons_self⟩

end Compiler

end SexpScript
