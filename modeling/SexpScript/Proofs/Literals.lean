import SexpScript.Proofs.Reformatting

/-! # String literals

    A call with a string literal as its argument, and when the literal is written as it
    was read.

    The scan takes every double quote for the end of a string or the beginning of one, a
    quote behind a backslash too.  So it leaves the literal at each escaped quote and comes
    back at the next.  What stands in between is code to it.

    - A text is scanned as one chunk, and the scan ends in code, exactly if the text is
      `Sealed` (`Scan.run_eq_iff_sealed`).
    - Otherwise the first chunk of the text ends before a blank or a paren, or what
      follows the text is swallowed (`Scan.run_cases`).  In the first case a comma or the
      end of the call is written where the blank or the paren was, in the second the call
      is never closed.
-/

namespace SexpScript

/-! ### Literals -/

/-- A piece of a string literal as it is written: a character that stands for itself, or
    one behind a backslash. -/
inductive Piece where
  | plain (c : Char) (h : c ≠ '"' ∧ c ≠ '\\' ∧ c ≠ '\n')
  | escaped (c : Char) (h : c ≠ '\n')

/-- The characters of a piece. -/
def Piece.chars : Piece → List Char
  | .plain c _ => [c]
  | .escaped c _ => ['\\', c]

/-- An escaped quote. -/
def Piece.isQuote : Piece → Bool
  | .plain _ _ => false
  | .escaped c _ => c = '"'

/-- The literal made of pieces. -/
def literal (pieces : List Piece) : String :=
  String.ofList ('"' :: pieces.flatMap Piece.chars ++ ['"'])

/-- A text that the scan takes for one chunk and leaves in code: its quotes come in pairs,
    and outside them it has neither blanks nor parens nor semicolons. -/
structure Text.Sealed (cs : List Char) : Prop where
  closed : Text.Closed cs
  bare : ∀ c ∈ Text.bare cs, Text.isBlank c = false ∧ Scan.isParen c = false ∧ c ≠ ';'

/-! ### The scan of a sealed text -/

namespace Scan

/-- Without harmful characters outside quotes, all is put to the chunk being read. -/
theorem run_of_bare {quoted : Bool} {s : Scan} {cs : List Char}
    (hregion : s.region = .ofQuoted quoted)
    (h : ∀ c ∈ Text.bareFrom quoted cs,
      Text.isBlank c = false ∧ isParen c = false ∧ c ≠ ';') :
    s.run cs = ⟨.ofQuoted (Text.quotedAfter quoted cs), cs.reverse ++ s.pending, s.done⟩ := by
  induction cs generalizing quoted s with
  | nil =>
    show s = ⟨.ofQuoted quoted, s.pending, s.done⟩
    rw [← hregion]
  | cons c cs ih =>
    obtain ⟨hc, hcs⟩ := Text.forall_mem_bareFrom_cons.mp h
    have hnext : s.region.next c = .ofQuoted (Text.quotedNext quoted c) := by
      rw [hregion]
      apply Region.next_ofQuoted
      rintro hquoted rfl
      exact (hc hquoted (by decide)).2.2 rfl
    have hkeep : s.region.next c = .code → Text.isBlank c = false ∧ isParen c = false := by
      intro hcode
      by_cases hquote : c = '"'
      · subst hquote
        decide
      · have hquoted : quoted = false := by
          rw [hnext, Text.quotedNext, if_neg hquote] at hcode
          cases quoted with
          | true => cases hcode
          | false => rfl
        obtain ⟨hblank, hparen, _⟩ := hc hquoted hquote
        exact ⟨hblank, hparen⟩
    show (s.step c).run cs = _
    rw [step_of_keep hkeep, hnext, ih rfl hcs, List.reverse_cons, List.append_assoc]
    rfl

theorem region_run_comment {s : Scan} {cs : List Char} (hr : s.region = .comment)
    (h : '\n' ∉ cs) : (s.run cs).region = .comment := by
  induction cs generalizing s with
  | nil => exact hr
  | cons c cs ih =>
    have hc : c ≠ '\n' := fun hc => h (hc ▸ List.mem_cons_self)
    apply ih (s := s.step c)
    · rw [region_step, hr]
      simp [Region.next, hc]
    · exact fun hmem => h (List.mem_cons_of_mem _ hmem)

/-- A semicolon outside quotes begins a comment, and where all is put to the chunk being
    read the comment does not end. -/
theorem semicolon_not_mem_bareFrom {quoted : Bool} {s : Scan} {cs : List Char}
    (hregion : s.region = .ofQuoted quoted)
    (hkeep : (s.run cs).pending.length = s.pending.length + cs.length)
    (hend : (s.run cs).region ≠ .comment) : ';' ∉ Text.bareFrom quoted cs := by
  induction cs generalizing quoted s with
  | nil => exact List.not_mem_nil
  | cons c cs ih =>
    obtain ⟨_, hs, hkeep'⟩ := step_of_kept hkeep
    -- Only a newline leads out of a comment, and it would end the chunk as well.
    have hc : quoted = false → c ≠ ';' := by
      rintro rfl rfl
      have hcomment : (s.step ';').region = .comment := by
        rw [region_step, hregion]
        rfl
      have hnewline : '\n' ∉ cs := newline_not_mem hcomment hkeep'
      exact hend (region_run_comment (s := s.step ';') hcomment hnewline)
    have hregion' : (s.step c).region = .ofQuoted (Text.quotedNext quoted c) := by
      rw [region_step, hregion, Region.next_ofQuoted hc]
    rw [← List.forall_mem_ne', Text.forall_mem_bareFrom_cons, List.forall_mem_ne']
    exact ⟨fun hquoted _ => hc hquoted, ih hregion' hkeep' hend⟩

/-- A text is one chunk and leaves the scan in code exactly if it is sealed. -/
theorem run_eq_iff_sealed {cs : List Char} :
    start.run cs = ⟨.code, cs.reverse, []⟩ ↔ Text.Sealed cs := by
  have hstart : start.region = .ofQuoted false := rfl
  constructor
  · intro h
    have hkeep : (start.run cs).pending.length = start.pending.length + cs.length := by
      rw [h, List.length_reverse]
      exact (Nat.zero_add _).symm
    have hsemicolon := semicolon_not_mem_bareFrom hstart hkeep (by rw [h]; nofun)
    obtain ⟨hregion, hbare⟩ := bare_of_run hstart hsemicolon hkeep
    refine ⟨?_, ?_⟩
    · rw [h] at hregion
      unfold Text.Closed
      cases hquoted : Text.quotedAfter false cs with
      | true =>
        rw [hquoted] at hregion
        cases hregion
      | false => rfl
    · intro c hc
      obtain ⟨hblank, hparen⟩ := hbare c hc
      exact ⟨hblank, hparen, fun heq => hsemicolon (heq ▸ hc)⟩
  · intro h
    have hclosed : Text.quotedAfter false cs = false := h.closed
    rw [run_of_bare hstart h.bare, hclosed]
    simp [start, Region.ofQuoted]

/-! ### The first chunk of a text -/

/-- A text is all in the chunk being read, or that chunk ends before a blank or a paren. -/
theorem run_cases (cs : List Char) :
    (∃ r, start.run cs = ⟨r, cs.reverse, []⟩) ∨
      ∃ w r d rest, cs = w ++ d :: rest ∧ start.run w = ⟨r, w.reverse, []⟩ ∧
        r.next d = .code ∧ (Text.isBlank d = true ∨ isParen d = true) := by
  -- On the text from its end, since the scan appends.
  induction cs using List.reverseRecOn with
  | nil => exact .inl ⟨.code, rfl⟩
  | append_singleton cs c ih =>
    rcases ih with ⟨r, hrun⟩ | ⟨w, r, d, rest, rfl, hrun, hcode, hsplits⟩
    · have hcases := (start.run cs).step_cases c
      rw [hrun] at hcases
      rcases hcases with ⟨hcode, hblank, _⟩ | ⟨hcode, hparen, _⟩ | ⟨_, hs⟩
      · exact .inr ⟨cs, r, c, [], rfl, hrun, hcode, .inl hblank⟩
      · exact .inr ⟨cs, r, c, [], rfl, hrun, hcode, .inr hparen⟩
      · refine .inl ⟨r.next c, ?_⟩
        rw [run_append, hrun, List.reverse_append]
        exact hs
    · exact .inr ⟨w, r, d, rest ++ [c], by simp, hrun, hcode, hsplits⟩

/-- A chunk that ends before a blank or a paren is the first chunk of the text. -/
theorem exists_chunks_of_split {w : List Char} {r : Region} {d : Char} (hne : w ≠ [])
    (hrun : start.run w = ⟨r, w.reverse, []⟩) (hcode : r.next d = .code)
    (hsplits : Text.isBlank d = true ∨ isParen d = true) (rest : List Char) :
    ∃ more, (start.run (w ++ d :: rest)).chunks = w :: more := by
  have hflush : (⟨r, w.reverse, []⟩ : Scan).flush.done = [w] := by
    rw [flush_of_ne_nil (by simpa using hne), List.reverse_reverse]
  obtain ⟨before, hstep⟩ : ∃ before, (start.run w).step d = start.onto (before ++ [w]) := by
    have hcases := (start.run w).step_cases d
    rw [hrun, hflush] at hcases
    rw [hrun]
    rcases hcases with ⟨_, _, hs⟩ | ⟨_, _, hs⟩ | ⟨hkeep, _⟩
    · exact ⟨[], hs⟩
    · exact ⟨[[d]], hs⟩
    · obtain ⟨hblank, hparen⟩ := hkeep hcode
      rw [hblank, hparen] at hsplits
      simp at hsplits
  refine ⟨before.reverse ++ (start.run rest).chunks, ?_⟩
  rw [run_append]
  show (((start.run w).step d).run rest).chunks = _
  rw [hstep, run_onto, chunks_onto]
  simp

end Scan

/-! ### A call with one argument -/

/-- The chunks of a call are its paren, its name and those of what follows. -/
theorem chunks_call (text : String) :
    chunks ("(f " ++ text ++ ")") =
      "(" :: "f" :: (Scan.start.run (text.toList ++ [')'])).chunks.map String.ofList := by
  have hlist : ("(f " ++ text ++ ")").toList = "(f ".toList ++ (text.toList ++ [')']) := by simp
  have hhead : Scan.start.run "(f ".toList = Scan.start.onto [['f'], ['(']] := rfl
  rw [chunks, hlist, Scan.run_append, hhead, Scan.run_onto, Scan.chunks_onto]
  rfl

/-- So are its tokens. -/
theorem tokens_call (text : String) :
    withoutComments (tokenize ("(f " ++ text ++ ")")) =
      Token.ofChunk "(" :: Token.ofChunk "f" ::
        withoutComments ((Scan.start.run (text.toList ++ [')'])).chunks.map fun cs =>
          Token.ofChunk (String.ofList cs)) := by
  rw [tokenize, chunks_call, List.map_cons, List.map_cons, List.map_map]
  rfl

/-- The first token of a form opens it. -/
theorem IsForm.exists_first {ts : List Token} {form : Form} (h : IsForm ts form) :
    ∃ o rest, ts = o :: rest ∧ o.kind = .openParen := by
  cases h with
  | empty ho => exact ⟨_, _, rfl, ho⟩
  | call ho => exact ⟨_, _, rfl, ho⟩
  | defconstant ho => exact ⟨_, _, rfl, ho⟩
  | defvar ho => exact ⟨_, _, rfl, ho⟩
  | defun ho => exact ⟨_, _, rfl, ho⟩

/-- A program that begins with a call and a leaf has the leaf as the first argument of its
    first call. -/
theorem IsProgram.exists_call {o name t : Token} {ts : List Token} {forms : List Form}
    (h : IsProgram (o :: name :: t :: ts) forms) (hname : name.kind = .identifier)
    (ht : t.kind.isLeaf = true) :
    ∃ args rest, forms = .call name.text (.leaf t :: args) :: rest := by
  obtain ⟨hopen, hclose⟩ := Token.plain_of_isLeaf ht
  generalize htokens : o :: name :: t :: ts = tokens at h
  cases h with
  | nil => cases htokens
  | cons hform _ =>
    cases hform with
    | empty _ hc =>
      obtain ⟨_, rfl, _⟩ : _ ∧ _ ∧ _ := by simpa using htokens
      rw [hname] at hc
      cases hc
    | call _ _ helements hc =>
      cases helements with
      | nil =>
        obtain ⟨_, _, rfl, _⟩ : _ ∧ _ ∧ _ ∧ _ := by simpa using htokens
        exact absurd hc hclose
      | cons helement _ =>
        cases helement with
        | form hform =>
          obtain ⟨o', _, rfl, ho'⟩ := hform.exists_first
          obtain ⟨_, _, rfl, _⟩ : _ ∧ _ ∧ _ ∧ _ := by simpa using htokens
          exact absurd ho' hopen
        | leaf _ =>
          obtain ⟨_, rfl, rfl, _⟩ : _ ∧ _ ∧ _ ∧ _ := by simpa using htokens
          exact ⟨_, _, rfl⟩
    | defconstant _ hkeyword =>
      obtain ⟨_, rfl, _⟩ : _ ∧ _ ∧ _ := by simpa using htokens
      rw [hname] at hkeyword
      cases hkeyword
    | defvar _ hkeyword =>
      obtain ⟨_, rfl, _⟩ : _ ∧ _ ∧ _ := by simpa using htokens
      rw [hname] at hkeyword
      cases hkeyword
    | defun _ hkeyword =>
      obtain ⟨_, rfl, _⟩ : _ ∧ _ ∧ _ := by simpa using htokens
      rw [hname] at hkeyword
      cases hkeyword

theorem Token.Kind.ofChunk_of_quote {chunk : String} {cs : List Char}
    (h : chunk.toList = '"' :: cs) : ofChunk chunk = .string := by
  have hkind := ofChunk_cons_of_region (.inr rfl) cs
  rw [← h, String.ofList_toList] at hkind
  exact hkind

namespace Form

/-- What is written for a call of `f`. -/
theorem write_call_f (slots : String) (args : List Form) :
    write slots (.call "f" args) = "f(" ++ ", ".intercalate (writeAll slots args) ++ ")" := by
  have hname : Operation.ofName "f" = .call "f" := by decide
  rw [write, hname, Operation.render, ← String.toList_inj]
  simp

end Form

namespace Compiler

section call
variable {text : String} {cs : List Char} (c : Compiler)

/-- A sealed literal is written as it was read. -/
theorem line_of_sealed (htext : text.toList = '"' :: cs) (h : Text.Sealed text.toList) :
    c.line ("(f " ++ text ++ ")") = .ok ("f(" ++ text ++ ")") := by
  have hkind : (Token.ofChunk text).kind = .string := Token.Kind.ofChunk_of_quote htext
  have hchunks : (Scan.start.run (text.toList ++ [')'])).chunks = [text.toList, [')']] := by
    have hne : text.toList ≠ [] := by simp [htext]
    rw [Scan.run_append, Scan.run_eq_iff_sealed.mpr h]
    show (Scan.step ⟨.code, text.toList.reverse, []⟩ ')').chunks = _
    simp [Scan.step, Scan.chunks, Scan.flush, Scan.isParen, Region.next, Text.isBlank, hne]
  have htokens : withoutComments (tokenize ("(f " ++ text ++ ")")) =
      [Token.ofChunk "(", Token.ofChunk "f", Token.ofChunk text, Token.ofChunk ")"] := by
    rw [tokens_call, hchunks, List.map_cons, String.ofList_toList,
      withoutComments_cons (by rw [hkind]; decide)]
    rfl
  have hcall : IsForm [Token.ofChunk "(", Token.ofChunk "f", Token.ofChunk text, Token.ofChunk ")"]
      (.call "f" [.leaf (Token.ofChunk text)]) := by
    have hopen : (Token.ofChunk "(").kind = .openParen := rfl
    have hname : (Token.ofChunk "f").kind = .identifier := rfl
    have hclose : (Token.ofChunk ")").kind = .closeParen := rfl
    exact .call hopen hname (.cons (.leaf (.inr (.inl hkind))) .nil) hclose
  have hforms : c.forms ("(f " ++ text ++ ")") = .ok [.call "f" [.leaf (Token.ofChunk text)]] := by
    rw [forms_eq_ok]
    apply Form.ofTokens_of_isProgram
    · rw [htokens]
      exact .cons hcall .nil
    · simp [Form.levelsAll, Form.levels, Nesting.forms, Nesting.levels, Nesting.calls,
        Nesting.reserve]
  rw [line_of_forms hforms, List.map_singleton, Form.write_call_f]
  simp [Form.writeAll, Form.write]

/-- Where the scan of the literal does not end in code, the call is never closed. -/
theorem line_of_open {r : Region} (htext : text.toList = '"' :: cs)
    (hrun : Scan.start.run text.toList = ⟨r, text.toList.reverse, []⟩) (hr : r ≠ .code)
    (result : String) : c.line ("(f " ++ text ++ ")") ≠ .ok result := by
  intro hline
  obtain ⟨forms, hforms, _⟩ := bind_eq_ok.mp hline
  have hnext : r.next ')' = r := by
    cases r with
    | code => exact absurd rfl hr
    | string => rfl
    | comment => rfl
  -- The paren at the end goes into the chunk of the literal, which is the last token then.
  have hchunks : (Scan.start.run (text.toList ++ [')'])).chunks = [text.toList ++ [')']] := by
    rw [Scan.run_append, hrun]
    show (Scan.step ⟨r, text.toList.reverse, []⟩ ')').chunks = _
    rw [Scan.step_of_keep fun hcode => absurd (hnext.symm.trans hcode) hr, Scan.chunks,
      Scan.flush_of_ne_nil (List.cons_ne_nil _ _)]
    simp
  have hquote : (String.ofList (text.toList ++ [')'])).toList = '"' :: (cs ++ [')']) := by
    simp [htext]
  have hkind : (Token.ofChunk (String.ofList (text.toList ++ [')']))).kind = .string :=
    Token.Kind.ofChunk_of_quote hquote
  have htokens : withoutComments (tokenize ("(f " ++ text ++ ")")) =
      [Token.ofChunk "(", Token.ofChunk "f"] ++
        [Token.ofChunk (String.ofList (text.toList ++ [')']))] := by
    rw [tokens_call, hchunks, List.map_singleton, withoutComments_cons (by rw [hkind]; decide)]
    rfl
  have hlast := (Form.isProgram_of_ofTokens (forms_eq_ok.mp hforms)).kind_last htokens
  rw [hkind] at hlast
  cases hlast

/-- Where the literal is split, the first chunk of it is an argument, and something else
    is written than what stood behind it. -/
theorem line_of_split {w rest : List Char} {r : Region} {d : Char}
    (htext : text.toList = '"' :: cs) (hsplit : text.toList = w ++ d :: rest)
    (hrun : Scan.start.run w = ⟨r, w.reverse, []⟩) (hcode : r.next d = .code)
    (hsplits : Text.isBlank d = true ∨ Scan.isParen d = true) :
    c.line ("(f " ++ text ++ ")") ≠ .ok ("f(" ++ text ++ ")") := by
  intro hline
  obtain ⟨forms, hforms, _⟩ := bind_eq_ok.mp hline
  obtain ⟨w', rfl⟩ : ∃ w', w = '"' :: w' := by
    cases w with
    | nil =>
      obtain ⟨rfl, _⟩ := List.cons.inj (htext.symm.trans hsplit)
      exact absurd hsplits (by decide)
    | cons e w' =>
      obtain ⟨rfl, _⟩ := List.cons.inj (htext.symm.trans hsplit)
      exact ⟨w', rfl⟩
  obtain ⟨more, hmore⟩ := Scan.exists_chunks_of_split (List.cons_ne_nil _ _) hrun hcode hsplits
    (rest ++ [')'])
  have hkind : (Token.ofChunk (String.ofList ('"' :: w'))).kind = .string :=
    Token.Kind.ofChunk_of_quote String.toList_ofList
  have htokens : withoutComments (tokenize ("(f " ++ text ++ ")")) =
      Token.ofChunk "(" :: Token.ofChunk "f" :: Token.ofChunk (String.ofList ('"' :: w')) ::
        withoutComments (more.map fun cs => Token.ofChunk (String.ofList cs)) := by
    have hlist : text.toList ++ [')'] = '"' :: w' ++ d :: (rest ++ [')']) := by simp [hsplit]
    rw [tokens_call, hlist, hmore, List.map_cons, withoutComments_cons (by rw [hkind]; decide)]
  have hprogram := Form.isProgram_of_ofTokens (forms_eq_ok.mp hforms)
  rw [htokens] at hprogram
  obtain ⟨args, others, rfl⟩ := hprogram.exists_call rfl (by rw [hkind]; decide)
  have hresult :
      "f(" ++ ", ".intercalate (String.ofList ('"' :: w') :: Form.writeAll c.slots args) ++ ")" =
        "f(" ++ text ++ ")" := by
    rw [line_of_forms hforms, List.map_cons, List.headD_cons, Token.ofChunk_text,
      Form.write_call_f] at hline
    exact Except.ok.inj hline
  rw [← String.toList_inj] at hresult
  -- Without more arguments too little is written.  With them a comma stands where the
  -- literal was split, and a comma splits nothing.
  cases harguments : Form.writeAll c.slots args with
  | nil => simp [harguments, hsplit] at hresult
  | cons next texts =>
    obtain ⟨rfl, _⟩ : ',' = d ∧ _ := by
      simpa [harguments, hsplit, String.intercalate_cons_cons] using hresult
    exact absurd hsplits (by decide)

/-- A text that begins with a quote is written as it was read exactly if it is sealed. -/
theorem line_eq_iff_sealed (htext : text.toList = '"' :: cs) :
    c.line ("(f " ++ text ++ ")") = .ok ("f(" ++ text ++ ")") ↔ Text.Sealed text.toList := by
  refine ⟨?_, c.line_of_sealed htext⟩
  intro hline
  rcases Scan.run_cases text.toList with ⟨r, hrun⟩ | ⟨w, r, d, rest, hsplit, hrun, hcode, hsplits⟩
  · by_cases hr : r = .code
    · rw [hr] at hrun
      exact Scan.run_eq_iff_sealed.mp hrun
    · exact absurd hline (c.line_of_open htext hrun hr _)
  · exact absurd hline (c.line_of_split htext hsplit hrun hcode hsplits)

end call

end Compiler

/-! ### Escaped quotes -/

theorem Piece.count_quote (piece : Piece) :
    piece.chars.count '"' = if piece.isQuote then 1 else 0 := by
  cases piece with
  | plain c h => simp [chars, isQuote, h.1]
  | escaped c h => simp [chars, isQuote, List.count_cons]

theorem count_quote_pieces (pieces : List Piece) :
    (pieces.flatMap Piece.chars).count '"' = pieces.countP Piece.isQuote := by
  induction pieces with
  | nil => rfl
  | cons piece pieces ih =>
    rw [List.flatMap_cons, List.count_append, ih, piece.count_quote, List.countP_cons, Nat.add_comm]

theorem toList_literal (pieces : List Piece) :
    (literal pieces).toList = '"' :: (pieces.flatMap Piece.chars ++ ['"']) := by
  simp [literal]

/-- A literal ends outside quotes exactly if the number of escaped quotes is even. -/
theorem closed_literal_iff {pieces : List Piece} :
    Text.Closed (literal pieces).toList ↔ Even (pieces.countP Piece.isQuote) := by
  have hcount : (literal pieces).toList.count '"' = pieces.countP Piece.isQuote + 2 := by
    simp [toList_literal, count_quote_pieces]
  unfold Text.Closed
  rw [Text.quotedAfter_eq_self_iff, hcount, Nat.even_add, iff_true_right even_two]

/-- Behind the opening quote a place is outside quotes exactly if the number of escaped
    quotes before it is odd. -/
theorem quotedAfter_pieces_iff {pieces : List Piece} :
    Text.quotedAfter true (pieces.flatMap Piece.chars) = false ↔
      Odd (pieces.countP Piece.isQuote) := by
  have hinside : Text.quotedAfter true (pieces.flatMap Piece.chars) = true ↔
      Even (pieces.countP Piece.isQuote) := by
    rw [Text.quotedAfter_eq_self_iff, count_quote_pieces]
  rw [← Nat.not_even_iff_odd, ← hinside, Bool.not_eq_true]

/-- The characters of a piece are all outside quotes or all inside, but for an escaped
    quote. -/
theorem Piece.forall_mem_bareFrom_iff {quoted : Bool} {P : Char → Prop} (hquote : P '"')
    (piece : Piece) :
    (∀ d ∈ Text.bareFrom quoted piece.chars, P d) ↔ (quoted = false → ∀ d ∈ piece.chars, P d) := by
  have hP (d : Char) : (d ≠ '"' → P d) ↔ P d := by
    by_cases hd : d = '"'
    · simp [hd, hquote]
    · simp [hd]
  cases piece with
  | plain c h =>
    rw [chars, Text.forall_mem_bareFrom_cons, hP, List.forall_mem_singleton]
    exact and_iff_left nofun
  | escaped c h =>
    have hbackslash : Text.quotedNext quoted '\\' = quoted := rfl
    rw [chars, Text.forall_mem_bareFrom_cons, Text.forall_mem_bareFrom_cons, hP, hP, hbackslash,
      List.forall_mem_cons, List.forall_mem_singleton, imp_and]
    exact and_congr_right fun _ => and_iff_left nofun

/-- What stands outside quotes are the pieces at places outside quotes. -/
theorem forall_mem_bareFrom_pieces {quoted : Bool} {P : Char → Prop} (hquote : P '"')
    {pieces : List Piece} :
    (∀ d ∈ Text.bareFrom quoted (pieces.flatMap Piece.chars), P d) ↔
      ∀ i piece, pieces[i]? = some piece →
        Text.quotedAfter quoted ((pieces.take i).flatMap Piece.chars) = false →
          ∀ d ∈ piece.chars, P d := by
  -- Each piece hands the side of the quotes on to the next.
  induction pieces generalizing quoted with
  | nil => simp [Text.bareFrom]
  | cons piece pieces ih =>
    rw [List.flatMap_cons, Text.bareFrom_append, List.forall_mem_append, ih,
      piece.forall_mem_bareFrom_iff hquote]
    constructor
    · rintro ⟨hfirst, hrest⟩ i piece' hi hquoted
      cases i with
      | zero =>
        cases hi
        exact hfirst hquoted
      | succ i =>
        rw [List.take_succ_cons, List.flatMap_cons, Text.quotedAfter_append] at hquoted
        exact hrest i piece' hi hquoted
    · intro h
      refine ⟨h 0 piece rfl, fun i piece' hi hquoted => h (i + 1) piece' hi ?_⟩
      rw [List.take_succ_cons, List.flatMap_cons, Text.quotedAfter_append]
      exact hquoted

namespace Compiler

/-- When a literal is written as it was read: exactly if the number of escaped quotes in it is
    even, and no blank, paren or semicolon stands behind an odd number of them.  So every
    literal without escaped quotes is. -/
theorem line_literal_iff (c : Compiler) (pieces : List Piece) :
    c.line ("(f " ++ literal pieces ++ ")") = .ok ("f(" ++ literal pieces ++ ")") ↔
      Even (pieces.countP Piece.isQuote) ∧
        ∀ i piece, pieces[i]? = some piece → Odd ((pieces.take i).countP Piece.isQuote) →
          ∀ d ∈ piece.chars, Text.isBlank d = false ∧ Scan.isParen d = false ∧ d ≠ ';' := by
  have hsealed : Text.Sealed (literal pieces).toList ↔
      Text.Closed (literal pieces).toList ∧ ∀ d ∈ Text.bare (literal pieces).toList,
        Text.isBlank d = false ∧ Scan.isParen d = false ∧ d ≠ ';' :=
    ⟨fun h => ⟨h.closed, h.bare⟩, fun ⟨hclosed, hbare⟩ => ⟨hclosed, hbare⟩⟩
  have hbare : Text.bare (literal pieces).toList =
      Text.bareFrom true (pieces.flatMap Piece.chars) := by
    rw [toList_literal]
    show Text.bareFrom true (pieces.flatMap Piece.chars ++ ['"']) = _
    rw [Text.bareFrom_append]
    exact List.append_nil _
  rw [line_eq_iff_sealed c (toList_literal pieces), hsealed, closed_literal_iff, hbare,
    forall_mem_bareFrom_pieces (by decide)]
  simp only [quotedAfter_pieces_iff]

/-- Two escaped quotes with a word between them. -/
example : ({} : Compiler).line "(f \"a \\\"b\\\"\")" = .ok "f(\"a \\\"b\\\"\")" := by
  decide +kernel

/-- With a single escaped quote the literal does not end before the call does, and with a
    blank between two it is read as two arguments. -/
theorem line_literal_escaped_quote :
    literal [.plain 'a' (by decide), .escaped '"' (by decide), .plain 'b' (by decide)] =
        "\"a\\\"b\"" ∧
      ({} : Compiler).line "(f \"a\\\"b\")" = .error .missingClose ∧
      literal [.escaped '"' (by decide), .plain ' ' (by decide), .escaped '"' (by decide)] =
        "\"\\\" \\\"\"" ∧
      ({} : Compiler).line "(f \"\\\" \\\"\")" = .ok "f(\"\\\", \\\"\")" := by
  decide +kernel

end Compiler

end SexpScript
