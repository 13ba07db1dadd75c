import SexpScript.Form.Printing
import SexpScript.Proofs.Acceptance

/-! # Reading what was printed

    `WellFormed` says which forms can be printed and read again: every text in them is
    an atom, that is one chunk on a line of its own, and has the kind that its place
    asks for.  Reading gives well-formed forms only, and well-formed forms are read
    from what they are printed as.  Both go through the grammar.

    - A derivation from scanned tokens ends in well-formed forms
      (`wellFormed_of_isElement`).
    - The words of well-formed forms are whole chunks (`readable_of_mem_wordsAll`), and the
      forms are derived from them (`isElement_words`).
-/

namespace SexpScript

/-! ### Well-formed forms -/

/-- A text that can stand for itself: alone on a line it is one chunk, and this is
    neither a paren nor a comment. -/
structure IsAtom (text : String) : Prop where
  alone : chunks (text ++ "\n") = [text]
  not_open : text ≠ "("
  not_close : text ≠ ")"
  not_comment : Token.Kind.ofChunk text ≠ .comment

namespace Form

mutual

/-- Every text of the form is an atom of the kind that its place asks for, and no
    parameter repeats another. -/
def WellFormed : Form → Prop
  | .empty => True
  | .leaf t => IsAtom t.text ∧ t.kind = .ofChunk t.text ∧ t.kind.isLeaf = true
  | .call name args => IsAtom name ∧ Token.Kind.ofChunk name = .identifier ∧ WellFormedAll args
  | .defconstant name value => IsAtom name ∧ IsAtom value
  | .defvar name value => IsAtom name ∧ IsAtom value
  | .defun name params body =>
      IsAtom name ∧ (∀ param ∈ params, IsAtom param) ∧ params.Nodup ∧ WellFormedAll body

/-- Several forms, each well-formed. -/
def WellFormedAll : List Form → Prop
  | [] => True
  | form :: forms => WellFormed form ∧ WellFormedAll forms

end

/-- Forms that can be a program: well-formed, and no leaf outside all groups. -/
structure WellFormedProgram (forms : List Form) : Prop where
  all : WellFormedAll forms
  no_leaf : ∀ t, Form.leaf t ∉ forms

end Form

/-! ### Forms that are read -/

/-- A token as the scan of an accepted source gives it, comments left out. -/
structure Token.Scanned (t : Token) : Prop where
  kind_eq : t.kind = .ofChunk t.text
  whole : Scan.Whole t.text.toList
  not_comment : t.kind ≠ .comment

theorem Token.Scanned.isAtom {t : Token} (h : t.Scanned) (hplain : t.Plain) : IsAtom t.text := by
  obtain ⟨hopen, hclose⟩ := hplain
  have hcomment := h.not_comment
  rw [h.kind_eq] at hopen hclose hcomment
  refine ⟨chunks_newline_eq_singleton.mpr h.whole, ?_, ?_, hcomment⟩
  · intro htext
    exact hopen (Token.Kind.ofChunk_eq_openParen.mpr htext)
  · intro htext
    exact hclose (Token.Kind.ofChunk_eq_closeParen.mpr htext)

/-- The tokens of an accepted source are scanned tokens. -/
theorem scanned_of_ofTokens {source : String} {forms : List Form}
    (h : Form.ofTokens (tokenize source) = .ok forms) :
    ∀ t ∈ withoutComments (tokenize source), t.Scanned := by
  intro t ht
  obtain ⟨hmem, hcomment⟩ := List.mem_filter.mp ht
  obtain ⟨chunk, hchunk, rfl⟩ := List.mem_map.mp hmem
  exact ⟨rfl, whole_of_mem_chunks (region_ne_string_of_ofTokens h) hchunk,
    of_decide_eq_true hcomment⟩

namespace Form

mutual

/-- A form that is derived from scanned tokens is well-formed. -/
theorem wellFormed_of_isForm {ts : List Token} {form : Form} :
    IsForm ts form → (∀ t ∈ ts, t.Scanned) → form.WellFormed
  | .empty _ _, _ => trivial
  | @IsForm.call _ name _ _ _ _ hname helements _, hscanned => by
    have hplain : name.Plain := Token.plain_of_isLeaf (by rw [hname]; decide)
    have hname' := hscanned name (by simp)
    refine ⟨hname'.isAtom hplain, ?_, ?_⟩
    · rw [← hname'.kind_eq]
      exact hname
    · exact wellFormedAll_of_areElements helements fun t ht => hscanned t (by simp [ht])
  | .defconstant _ _ hname hvalue _, hscanned =>
    ⟨(hscanned _ (by simp)).isAtom hname, (hscanned _ (by simp)).isAtom hvalue⟩
  | .defvar _ _ hname hvalue _, hscanned =>
    ⟨(hscanned _ (by simp)).isAtom hname, (hscanned _ (by simp)).isAtom hvalue⟩
  | .defun _ _ hname _ hparams hnodup _ helements _, hscanned => by
    refine ⟨(hscanned _ (by simp)).isAtom hname, ?_, hnodup, ?_⟩
    · intro param hparam
      obtain ⟨t, ht, rfl⟩ := List.mem_map.mp hparam
      exact (hscanned t (by simp [ht])).isAtom (hparams t ht)
    · exact wellFormedAll_of_areElements helements fun t ht => hscanned t (by simp [ht])

/-- So is an element. -/
theorem wellFormed_of_isElement {ts : List Token} {form : Form} :
    IsElement ts form → (∀ t ∈ ts, t.Scanned) → form.WellFormed
  | .form hform, hscanned => wellFormed_of_isForm hform hscanned
  | .leaf hleaf, hscanned => by
    have hleaf := Token.Kind.isLeaf_iff.mpr hleaf
    have ht := hscanned _ List.mem_cons_self
    exact ⟨ht.isAtom (Token.plain_of_isLeaf hleaf), ht.kind_eq, hleaf⟩

/-- And so are several elements. -/
theorem wellFormedAll_of_areElements {ts : List Token} {forms : List Form} :
    AreElements ts forms → (∀ t ∈ ts, t.Scanned) → WellFormedAll forms
  | .nil, _ => trivial
  | .cons helement helements, hscanned =>
    ⟨wellFormed_of_isElement helement fun t ht => hscanned t (List.mem_append_left _ ht),
      wellFormedAll_of_areElements helements fun t ht => hscanned t (List.mem_append_right _ ht)⟩

end

/-- A program that is derived from scanned tokens is well-formed. -/
theorem wellFormedProgram_of_isProgram {ts : List Token} {forms : List Form}
    (h : IsProgram ts forms) (hscanned : ∀ t ∈ ts, t.Scanned) : WellFormedProgram forms := by
  induction h with
  | nil => exact ⟨trivial, fun _ => List.not_mem_nil⟩
  | @cons ts us form forms hform _ ih =>
    obtain ⟨hall, hno_leaf⟩ := ih fun t ht => hscanned t (List.mem_append_right _ ht)
    have hwell := wellFormed_of_isForm hform fun t ht => hscanned t (List.mem_append_left _ ht)
    refine ⟨⟨hwell, hall⟩, fun t ht => ?_⟩
    rcases List.mem_cons.mp ht with heq | ht
    · rw [← heq] at hform
      cases hform
    · exact hno_leaf t ht

/-! ### Forms that are printed -/

theorem whole_of_isAtom {text : String} (h : IsAtom text) : Scan.Whole text.toList :=
  chunks_newline_eq_singleton.mp h.alone

/-- What a word must be to be read again: a whole chunk, and no comment. -/
def Readable (word : String) : Prop :=
  Scan.Whole word.toList ∧ Token.Kind.ofChunk word ≠ .comment

theorem readable_of_isAtom {text : String} (h : IsAtom text) : Readable text :=
  ⟨whole_of_isAtom h, h.not_comment⟩

/-- The words that printing adds of its own are readable. -/
theorem readable_fixed :
    Readable "(" ∧ Readable ")" ∧ Readable "defconstant" ∧ Readable "defvar" ∧
      Readable "defun" := by
  unfold Readable Scan.Whole
  decide

mutual

/-- The words of a well-formed form are readable. -/
theorem readable_of_mem_words : (form : Form) → form.WellFormed → ∀ word ∈ words form, Readable word
  | .empty, _, word, hmem => by
    obtain ⟨hopen, hclose, _⟩ := readable_fixed
    simp only [words, List.mem_cons, List.not_mem_nil, or_false] at hmem
    rcases hmem with rfl | rfl
    · exact hopen
    · exact hclose
  | .leaf t, hwell, word, hmem => by
    rw [words, List.mem_singleton] at hmem
    rw [hmem]
    exact readable_of_isAtom hwell.1
  | .call name args, ⟨hname, _, hargs⟩, word, hmem => by
    obtain ⟨hopen, hclose, _⟩ := readable_fixed
    simp only [words, List.mem_append, List.mem_cons, List.not_mem_nil, or_false] at hmem
    rcases hmem with (rfl | rfl | hmem) | rfl
    · exact hopen
    · exact readable_of_isAtom hname
    · exact readable_of_mem_wordsAll args hargs word hmem
    · exact hclose
  | .defconstant name value, ⟨hname, hvalue⟩, word, hmem => by
    obtain ⟨hopen, hclose, hkeyword, _⟩ := readable_fixed
    simp only [words, List.mem_cons, List.not_mem_nil, or_false] at hmem
    rcases hmem with rfl | rfl | rfl | rfl | rfl
    · exact hopen
    · exact hkeyword
    · exact readable_of_isAtom hname
    · exact readable_of_isAtom hvalue
    · exact hclose
  | .defvar name value, ⟨hname, hvalue⟩, word, hmem => by
    obtain ⟨hopen, hclose, _, hkeyword, _⟩ := readable_fixed
    simp only [words, List.mem_cons, List.not_mem_nil, or_false] at hmem
    rcases hmem with rfl | rfl | rfl | rfl | rfl
    · exact hopen
    · exact hkeyword
    · exact readable_of_isAtom hname
    · exact readable_of_isAtom hvalue
    · exact hclose
  | .defun name params body, ⟨hname, hparams, _, hbody⟩, word, hmem => by
    obtain ⟨hopen, hclose, _, _, hkeyword⟩ := readable_fixed
    simp only [words, List.mem_append, List.mem_cons, List.not_mem_nil, or_false] at hmem
    rcases hmem with ((rfl | rfl | rfl | rfl | hmem) | rfl | hmem) | rfl
    · exact hopen
    · exact hkeyword
    · exact readable_of_isAtom hname
    · exact hopen
    · exact readable_of_isAtom (hparams word hmem)
    · exact hclose
    · exact readable_of_mem_wordsAll body hbody word hmem
    · exact hclose

/-- So are the words of several. -/
theorem readable_of_mem_wordsAll :
    (forms : List Form) → WellFormedAll forms → ∀ word ∈ wordsAll forms, Readable word
  | [], _, _, hmem => by cases hmem
  | form :: forms, ⟨hform, hforms⟩, word, hmem => by
    rcases List.mem_append.mp hmem with hmem | hmem
    · exact readable_of_mem_words form hform word hmem
    · exact readable_of_mem_wordsAll forms hforms word hmem

end

theorem plain_ofChunk {text : String} (h : IsAtom text) : (Token.ofChunk text).Plain :=
  ⟨fun hk => h.not_open (Token.Kind.ofChunk_eq_openParen.mp hk),
    fun hk => h.not_close (Token.Kind.ofChunk_eq_closeParen.mp hk)⟩

mutual

/-- A well-formed form is derived from its words. -/
theorem isElement_words :
    (form : Form) → form.WellFormed → IsElement ((words form).map Token.ofChunk) form
  | .empty, _ => .form (.empty rfl rfl)
  | .leaf t, ⟨_, hkind, hleaf⟩ => by
    have htoken : Token.ofChunk t.text = t := by rw [Token.ofChunk, ← hkind]
    have helement := IsElement.leaf (Token.Kind.isLeaf_iff.mp hleaf)
    rw [words, List.map_singleton, htoken]
    exact helement
  | .call name args, ⟨_, hkind, hargs⟩ => by
    have hname : (Token.ofChunk name).kind = .identifier := hkind
    have hform := IsForm.call (o := Token.ofChunk "(") (c := Token.ofChunk ")") rfl hname
      (areElements_words args hargs) rfl
    simpa [words] using IsElement.form hform
  | .defconstant name value, ⟨hname, hvalue⟩ =>
    .form (.defconstant rfl rfl (plain_ofChunk hname) (plain_ofChunk hvalue) rfl)
  | .defvar name value, ⟨hname, hvalue⟩ =>
    .form (.defvar rfl rfl (plain_ofChunk hname) (plain_ofChunk hvalue) rfl)
  | .defun name params body, ⟨hname, hparams, hnodup, hbody⟩ => by
    have htexts : (params.map Token.ofChunk).map Token.text = params := by
      rw [List.map_map]
      exact List.map_id params
    have hplain : ∀ t ∈ params.map Token.ofChunk, t.Plain := by
      intro t ht
      obtain ⟨param, hparam, rfl⟩ := List.mem_map.mp ht
      exact plain_ofChunk (hparams param hparam)
    rw [← htexts] at hnodup
    have hform := IsForm.defun (o := Token.ofChunk "(") (c := Token.ofChunk ")") rfl
      (show (Token.ofChunk "defun").kind = .defun from rfl) (plain_ofChunk hname)
      (show (Token.ofChunk "(").kind = .openParen from rfl) hplain hnodup
      (show (Token.ofChunk ")").kind = .closeParen from rfl) (areElements_words body hbody) rfl
    rw [htexts] at hform
    simpa [words] using IsElement.form hform

/-- Several well-formed forms are derived from their words. -/
theorem areElements_words : (forms : List Form) → WellFormedAll forms →
    AreElements ((wordsAll forms).map Token.ofChunk) forms
  | [], _ => .nil
  | form :: forms, ⟨hform, hforms⟩ => by
    rw [wordsAll, List.map_append]
    exact .cons (isElement_words form hform) (areElements_words forms hforms)

end

/-- A well-formed program is derived from its words. -/
theorem isProgram_words {forms : List Form} (h : WellFormedProgram forms) :
    IsProgram ((wordsAll forms).map Token.ofChunk) forms := by
  induction forms with
  | nil => exact .nil
  | cons form forms ih =>
    obtain ⟨⟨hform, hforms⟩, hno_leaf⟩ := h
    rw [wordsAll, List.map_append]
    refine .cons ?_ (ih ⟨hforms, fun t ht => hno_leaf t (List.mem_cons_of_mem _ ht)⟩)
    -- An element that is no leaf is a form.
    cases form with
    | leaf t => exact absurd List.mem_cons_self (hno_leaf t)
    | _ =>
      cases isElement_words _ hform with
      | form hform => exact hform

/-- The tokens of what is printed are its words. -/
theorem tokenize_print {forms : List Form} (h : WellFormedAll forms) :
    tokenize (print forms) = (wordsAll forms).map Token.ofChunk := by
  have hwhole : ∀ word ∈ wordsAll forms, Scan.Whole word.toList :=
    fun word hmem => (readable_of_mem_wordsAll forms h word hmem).1
  rw [tokenize, print, chunks_intercalate hwhole]

/-- Well-formed programs are read from what they are printed as. -/
theorem ofTokens_print {forms : List Form} (h : WellFormedProgram forms)
    (hlimit : levelsAll forms ≤ Nesting.forms) : ofTokens (tokenize (print forms)) = .ok forms := by
  have hcomments : withoutComments ((wordsAll forms).map Token.ofChunk) =
      (wordsAll forms).map Token.ofChunk := by
    refine List.filter_eq_self.mpr fun t ht => ?_
    obtain ⟨word, hword, rfl⟩ := List.mem_map.mp ht
    exact decide_eq_true (readable_of_mem_wordsAll forms h.all word hword).2
  rw [tokenize_print h.all]
  refine ofTokens_of_isProgram ?_ hlimit
  rw [hcomments]
  exact isProgram_words h

end Form

namespace Compiler

/-- Reading undoes printing.  What is read is well-formed, what is well-formed and
    nested within the limit is read from its print, and so whatever is read can be
    printed and read again. -/
theorem forms_print (c : Compiler) :
    (∀ source forms, c.forms source = .ok forms → Form.WellFormedProgram forms) ∧
      (∀ forms, Form.WellFormedProgram forms → Form.levelsAll forms ≤ Nesting.forms →
        c.forms (Form.print forms) = .ok forms) ∧
      (∀ source forms, c.forms source = .ok forms → c.forms (Form.print forms) = .ok forms) := by
  have hwell : ∀ source forms, c.forms source = .ok forms → Form.WellFormedProgram forms := by
    intro source forms h
    have htokens := forms_eq_ok.mp h
    exact Form.wellFormedProgram_of_isProgram (Form.isProgram_of_ofTokens htokens)
      (scanned_of_ofTokens htokens)
  have hprint : ∀ forms, Form.WellFormedProgram forms →
      Form.levelsAll forms ≤ Nesting.forms → c.forms (Form.print forms) = .ok forms := by
    intro forms h hlimit
    exact forms_eq_ok.mpr (Form.ofTokens_print h hlimit)
  refine ⟨hwell, hprint, ?_⟩
  intro source forms h
  exact hprint forms (hwell source forms h) (Form.levelsAll_le_of_ofTokens (forms_eq_ok.mp h))

/-- A comment that is stuck to an atom, and a string over two lines. -/
theorem forms_print_glued_comment :
    ({} : Compiler).forms "(f a;b\n\"c\nd\" ())" =
        .ok [.call "f" [.leaf ⟨.identifier, "a;b"⟩, .leaf ⟨.string, "\"c\nd\""⟩, .empty]] ∧
      ({} : Compiler).forms (Form.print
          [.call "f" [.leaf ⟨.identifier, "a;b"⟩, .leaf ⟨.string, "\"c\nd\""⟩, .empty]]) =
        .ok [.call "f" [.leaf ⟨.identifier, "a;b"⟩, .leaf ⟨.string, "\"c\nd\""⟩, .empty]] :=
  ⟨rfl, (forms_print {}).2.2 "(f a;b\n\"c\nd\" ())" _ rfl⟩

end Compiler

end SexpScript
