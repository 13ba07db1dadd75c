import SexpScript.Proofs.Balance

/-! # Reformatting a source

    What may be done to a source without another program coming out.

    - Each chunk may be put on a line of its own.  Every chunk begins outside strings and
      comments and, but for the last one, ends there too once a newline follows, so the
      lines are scanned one by one (`chunks_intercalate_concat`).
    - Comments may be deleted where they stand apart.  The scan of the source without its
      comments keeps step with the scan of the source: it stands where that one would
      stand if its chunks had no comments (`Scan.uncommented`, `Scan.step_uncommented`).  So
      deleting the comments of a source is deleting them chunk by chunk (`chunks_uncomment`).
      A comment that is stuck to an atom is part of the atom, and deleting it gives
      another atom.
-/

namespace SexpScript

/-! ### A line for each chunk -/

/-- The source with each chunk on a line of its own. -/
def reformat (source : String) : String := "\n".intercalate (chunks source)

namespace Scan

/-- The chunk being read is the only chunk of itself, even within a string. -/
theorem Tidy.chunks_pending {s : Scan} (h : Tidy s) (hp : s.pending ≠ []) :
    (Scan.start.run s.pending.reverse).chunks = [s.pending.reverse] := by
  rw [h.pending, chunks, flush_of_ne_nil (s := ⟨s.region, s.pending, []⟩) hp]
  rfl

end Scan

/-- A source with a line for each of its chunks has the chunks of the source, and so its
    tokens. -/
theorem tokenize_reformat (source : String) :
    chunks (reformat source) = chunks source ∧ tokenize (reformat source) = tokenize source := by
  have hchunks : chunks (reformat source) = chunks source := by
    have htidy := Scan.tidy_run source.toList
    have hsource : chunks source =
        (Scan.start.run source.toList).chunks.map String.ofList := rfl
    unfold reformat
    rw [hsource]
    generalize Scan.start.run source.toList = s at htidy
    have hdone : ∀ word ∈ s.done.reverse.map String.ofList, Scan.Whole word.toList := by
      intro word hword
      obtain ⟨cs, hcs, rfl⟩ := List.mem_map.mp hword
      rw [String.toList_ofList]
      exact htidy.done cs (List.mem_reverse.mp hcs)
    -- Only the chunk still being read may end within a string, and it is on the last line.
    by_cases hp : s.pending = []
    · rw [Scan.chunks, Scan.flush_of_nil hp]
      exact chunks_intercalate hdone
    · rw [Scan.chunks, Scan.flush_of_ne_nil hp, List.reverse_cons, List.map_append,
        List.map_singleton, chunks_intercalate_concat _ hdone, chunks, String.toList_ofList,
        htidy.chunks_pending hp, List.map_singleton]
  refine ⟨hchunks, ?_⟩
  rw [tokenize, hchunks]
  rfl

/-- A comment stuck to an atom, a string over two lines and one that does not end. -/
example : chunks "(f;a)\n\"b\nc\" ;d\n)\"e (" = ["(", "f;a)", "\"b\nc\"", ";d", ")", "\"e ("] := by
  decide

/-! ### A source without its comments -/

mutual

/-- The text without its comments, from a place in code.  A comment begins with a
    semicolon. -/
def uncommentCode : List Char → List Char
  | [] => []
  | c :: cs =>
      if c = ';' then uncommentComment cs
      else if c = '"' then c :: uncommentString cs
      else c :: uncommentCode cs

/-- The same from within a string. -/
def uncommentString : List Char → List Char
  | [] => []
  | c :: cs => if c = '"' then c :: uncommentCode cs else c :: uncommentString cs

/-- The same from within a comment.  The newline that ends it is kept. -/
def uncommentComment : List Char → List Char
  | [] => []
  | c :: cs => if c = '\n' then c :: uncommentCode cs else uncommentComment cs

end

/-- The source without its comments. -/
def uncomment (source : String) : String := String.ofList (uncommentCode source.toList)

/-- The text without its comments, by the region at first. -/
def uncommentFrom : Region → List Char → List Char
  | .code => uncommentCode
  | .string => uncommentString
  | .comment => uncommentComment

@[simp] theorem uncommentFrom_nil (r : Region) : uncommentFrom r [] = [] := by
  cases r <;> rfl

/-- A character is deleted if it leads into a comment or goes on with one. -/
theorem uncommentFrom_cons (r : Region) (c : Char) (cs : List Char) :
    uncommentFrom r (c :: cs) =
      if r.next c = .comment then uncommentFrom .comment cs
      else c :: uncommentFrom (r.next c) cs := by
  cases r with
  | code =>
    by_cases hsemicolon : c = ';'
    · subst hsemicolon
      rfl
    · by_cases hquote : c = '"'
      · subst hquote
        rfl
      · simp [uncommentFrom, uncommentCode, Region.next, hsemicolon, hquote]
  | string =>
    by_cases hquote : c = '"'
    · subst hquote
      rfl
    · simp [uncommentFrom, uncommentString, Region.next, hquote]
  | comment =>
    by_cases hnewline : c = '\n'
    · subst hnewline
      rfl
    · simp [uncommentFrom, uncommentComment, Region.next, hnewline]

theorem uncommentFrom_append (r : Region) (cs ds : List Char) :
    uncommentFrom r (cs ++ ds) =
      uncommentFrom r cs ++ uncommentFrom (cs.foldl Region.next r) ds := by
  induction cs generalizing r with
  | nil => rw [uncommentFrom_nil, List.nil_append, List.nil_append, List.foldl_nil]
  | cons c cs ih =>
    rw [List.cons_append, uncommentFrom_cons, uncommentFrom_cons, List.foldl_cons]
    by_cases hcomment : r.next c = .comment
    · rw [if_pos hcomment, if_pos hcomment, hcomment, ih]
    · rw [if_neg hcomment, if_neg hcomment, ih, List.cons_append]

theorem length_uncommentFrom_le (r : Region) (cs : List Char) :
    (uncommentFrom r cs).length ≤ cs.length := by
  induction cs generalizing r with
  | nil => rw [uncommentFrom_nil]
  | cons c cs ih =>
    rw [uncommentFrom_cons]
    split
    · exact Nat.le_succ_of_le (ih .comment)
    · exact Nat.succ_le_succ (ih _)

/-- Nothing is left of a comment within its line. -/
theorem uncommentComment_eq_nil {cs : List Char} (h : '\n' ∉ cs) : uncommentComment cs = [] := by
  induction cs with
  | nil => rfl
  | cons c cs ih =>
    have hc : c ≠ '\n' := fun hc => h (hc ▸ List.mem_cons_self)
    rw [uncommentComment, if_neg hc]
    exact ih fun hmem => h (List.mem_cons_of_mem _ hmem)

/-- A text has nothing to delete exactly if no semicolon stands outside its quotes. -/
theorem uncommentFrom_eq_self_iff {quoted : Bool} {cs : List Char} :
    uncommentFrom (.ofQuoted quoted) cs = cs ↔ ';' ∉ Text.bareFrom quoted cs := by
  induction cs generalizing quoted with
  | nil =>
    rw [uncommentFrom_nil]
    exact ⟨fun _ => List.not_mem_nil, fun _ => rfl⟩
  | cons c cs ih =>
    rw [uncommentFrom_cons]
    by_cases hc : quoted = false → c ≠ ';'
    · -- The character stays, and the quotes alone tell where the rest begins.
      have hne (b : Bool) : Region.ofQuoted b ≠ .comment := by cases b <;> decide
      rw [Region.next_ofQuoted hc, if_neg (hne _), List.cons.injEq, and_iff_right rfl, ih,
        ← List.forall_mem_ne', ← List.forall_mem_ne', Text.forall_mem_bareFrom_cons,
        and_iff_right fun hquoted _ => hc hquoted]
    · -- A comment begins, and at least its semicolon is lost.
      obtain ⟨rfl, rfl⟩ : quoted = false ∧ c = ';' := by simpa using hc
      constructor
      · intro h
        have hle := length_uncommentFrom_le .comment cs
        rw [if_pos (by decide)] at h
        rw [h, List.length_cons] at hle
        omega
      · intro h
        exact absurd List.mem_cons_self h

/-! ### The scan without comments -/

/-- The region with comments read as code. -/
def Region.uncommented : Region → Region
  | .code => .code
  | .string => .string
  | .comment => .code

theorem Region.uncommented_of_ne_string {r : Region} (h : r ≠ .string) : r.uncommented = .code := by
  cases r with
  | code => rfl
  | string => exact absurd rfl h
  | comment => rfl

theorem Region.uncommented_of_ne_comment {r : Region} (h : r ≠ .comment) : r.uncommented = r := by
  cases r with
  | code => rfl
  | string => rfl
  | comment => exact absurd rfl h

/-- No comment begins within a string. -/
theorem Region.ne_string_of_next_comment {r : Region} {c : Char} (h : r.next c = .comment) :
    r ≠ .string := by
  rintro rfl
  simp only [next] at h
  split at h <;> cases h

/-- In code a blank or a paren stays in code. -/
theorem Region.next_code_of_splits {c : Char}
    (h : Text.isBlank c = true ∨ Scan.isParen c = true) : Region.code.next c = .code := by
  have hsemicolon : c ≠ ';' := by
    rintro rfl
    revert h
    decide
  have hquote : c ≠ '"' := by
    rintro rfl
    revert h
    decide
  simp [next, hsemicolon, hquote]

namespace Scan

/-- The scan as it would stand if its chunks had no comments.  Chunks of which nothing is
    left are dropped. -/
def uncommented (s : Scan) : Scan where
  region := s.region.uncommented
  pending := (uncommentCode s.pending.reverse).reverse
  done := (s.done.map uncommentCode).filter fun chunk => chunk ≠ []

theorem flush_uncommented (s : Scan) : s.uncommented.flush = s.flush.uncommented := by
  by_cases hp : s.pending = []
  · rw [flush_of_nil hp, flush_of_nil (by simp [uncommented, hp, uncommentCode])]
  · rw [flush_of_ne_nil hp]
    by_cases hleft : uncommentCode s.pending.reverse = []
    · rw [flush_of_nil (by simp [uncommented, hleft])]
      simp [uncommented, hleft, uncommentCode]
    · rw [flush_of_ne_nil (by simp [uncommented, hleft])]
      simp [uncommented, hleft, uncommentCode]

/-- The chunk being read ends in the region of the scan. -/
theorem Tidy.region_pending {s : Scan} (h : Tidy s) :
    s.pending.reverse.foldl Region.next .code = s.region := by
  have hregion := region_run Scan.start s.pending.reverse
  rw [h.pending] at hregion
  exact hregion.symm

/-- One more character of the chunk being read is deleted or kept. -/
theorem Tidy.uncommentCode_pending {s : Scan} (h : Tidy s) (c : Char) :
    uncommentCode (c :: s.pending).reverse =
      uncommentCode s.pending.reverse ++ if s.region.next c = .comment then [] else [c] := by
  have happend := uncommentFrom_append .code s.pending.reverse [c]
  rw [h.region_pending, uncommentFrom_cons, uncommentFrom_nil, uncommentFrom_nil] at happend
  rw [List.reverse_cons]
  exact happend

/-- A character that the scan puts to its chunk ends no comment. -/
theorem region_ne_comment {s : Scan} {c : Char} (hnext : s.region.next c ≠ .comment)
    (hkeep : s.region.next c = .code → Text.isBlank c = false ∧ isParen c = false) :
    s.region ≠ .comment := by
  intro hr
  rw [hr] at hnext hkeep
  by_cases hc : c = '\n'
  · subst hc
    exact absurd (hkeep rfl).1 (by decide)
  · exact hnext (by simp [Region.next, hc])

/-- A step of the scan is a step of the scan without comments, or none if the character
    belongs to a comment. -/
theorem step_uncommented {s : Scan} (h : Tidy s) (c : Char) :
    (s.step c).uncommented =
      if s.region.next c = .comment then s.uncommented else s.uncommented.step c := by
  have hflush := congrArg Scan.done (flush_uncommented s)
  rcases s.step_cases c with ⟨hcode, hblank, hs⟩ | ⟨hcode, hparen, hs⟩ | ⟨hkeep, hs⟩
  · -- The blank may be the newline behind a comment.  It is in code without the comment, too.
    have hregion : s.uncommented.region = .code :=
      Region.uncommented_of_ne_string (region_ne_string hcode (ne_quote_of_isBlank hblank))
    have hnext := Region.next_code_of_splits (.inl hblank)
    rw [hs, hcode, if_neg (by decide), step, hregion, hnext, if_pos ⟨rfl, hblank⟩]
    simp only [flush_pending, hflush]
    rfl
  · have hregion : s.uncommented.region = .code :=
      Region.uncommented_of_ne_string (region_ne_string hcode (ne_quote_of_isParen hparen))
    have hnext := Region.next_code_of_splits (.inr hparen)
    have hblank : ¬ Text.isBlank c = true := by simp [isBlank_of_isParen hparen]
    have hleft : uncommentCode [c] = [c] := by
      rcases isParen_iff.mp hparen with rfl | rfl <;> rfl
    rw [hs, hcode, if_neg (by decide), step, hregion, hnext, if_neg (fun h => hblank h.2),
      if_pos ⟨rfl, hparen⟩]
    simp only [flush_pending, hflush]
    have hnil : uncommentCode [] = [] := rfl
    simp [uncommented, hleft, hnil, Region.uncommented]
  · -- Whether the character is deleted from its chunk depends on the chunk before it alone.
    have hpending := h.uncommentCode_pending c
    rw [hs]
    by_cases hcomment : s.region.next c = .comment
    · rw [if_pos hcomment, List.append_nil] at hpending
      have hregion := Region.uncommented_of_ne_string (Region.ne_string_of_next_comment hcomment)
      rw [if_pos hcomment]
      simp only [uncommented, hpending, hcomment, hregion]
      rfl
    · rw [if_neg hcomment] at hpending
      have hregion : s.uncommented.region = s.region :=
        Region.uncommented_of_ne_comment (region_ne_comment hcomment hkeep)
      rw [if_neg hcomment, step_of_keep (by rw [hregion]; exact hkeep), hregion]
      simp only [uncommented, hpending, Region.uncommented_of_ne_comment hcomment,
        List.reverse_append]
      rfl

/-- The scan of a text without its comments stands where the scan of the text would stand
    if its chunks had none. -/
theorem run_uncommented {s : Scan} (h : Tidy s) (cs : List Char) :
    (s.run cs).uncommented = s.uncommented.run (uncommentFrom s.region cs) := by
  induction cs generalizing s with
  | nil =>
    rw [uncommentFrom_nil]
    rfl
  | cons c cs ih =>
    show ((s.step c).run cs).uncommented = _
    rw [ih (h.step c), step_uncommented h, region_step, uncommentFrom_cons]
    by_cases hcomment : s.region.next c = .comment
    · rw [if_pos hcomment, if_pos hcomment, hcomment]
    · rw [if_neg hcomment, if_neg hcomment]
      rfl

theorem chunks_uncommented (s : Scan) :
    s.uncommented.chunks = (s.chunks.map uncommentCode).filter fun chunk => chunk ≠ [] := by
  rw [chunks, flush_uncommented, chunks, List.map_reverse, List.filter_reverse]
  rfl

end Scan

/-- Deleting the comments of a source is deleting them chunk by chunk.  A chunk of which
    nothing is left is none. -/
theorem chunks_uncomment (source : String) :
    chunks (uncomment source) = ((chunks source).map uncomment).filter fun chunk => chunk ≠ "" := by
  have hrun : (Scan.start.run source.toList).uncommented =
      Scan.start.run (uncommentCode source.toList) := Scan.run_uncommented Scan.Tidy.start _
  have hmap (css : List (List Char)) :
      (css.map String.ofList).map uncomment = (css.map uncommentCode).map String.ofList := by
    rw [List.map_map, List.map_map]
    apply List.map_congr_left
    intro cs _
    simp [uncomment]
  unfold chunks
  rw [hmap, List.filter_map, uncomment, String.toList_ofList, ← hrun, Scan.chunks_uncommented]
  congr 1
  apply List.filter_congr
  intro cs _
  simp

/-! ### Tokens without their comments -/

namespace Scan

/-- A comment that is all in the chunk being read has no newline. -/
theorem newline_not_mem {s : Scan} {cs : List Char} (hr : s.region = .comment)
    (hkeep : (s.run cs).pending.length = s.pending.length + cs.length) : '\n' ∉ cs := by
  induction cs generalizing s with
  | nil => exact List.not_mem_nil
  | cons c cs ih =>
    obtain ⟨hplain, hs, hkeep'⟩ := step_of_kept hkeep
    have hc : c ≠ '\n' := by
      rintro rfl
      rw [hr] at hplain
      exact absurd (hplain rfl).1 (by decide)
    have hr' : (s.step c).region = .comment := by simp [hs, hr, Region.next, hc]
    exact List.not_mem_cons_of_ne_of_not_mem (Ne.symm hc) (ih hr' hkeep')

/-- A chunk of a text that is no paren is all in the chunk being read when it is scanned
    alone. -/
theorem pending_of_mem_chunks {cs chunk : List Char} (hmem : chunk ∈ (start.run cs).chunks)
    (hparen : ∀ c, chunk = [c] → isParen c = false) :
    (start.run chunk).pending = chunk.reverse := by
  have htidy := tidy_run cs
  unfold chunks at hmem
  generalize start.run cs = s at hmem htidy
  rw [List.mem_reverse] at hmem
  -- The last chunk need not be whole, but it is what the scan was reading.
  by_cases hp : s.pending = []
  · rw [flush_of_nil hp] at hmem
    exact pending_of_whole (htidy.done chunk hmem) hparen
  · rw [flush_of_ne_nil hp, List.mem_cons] at hmem
    rcases hmem with rfl | hmem
    · rw [htidy.pending, List.reverse_reverse]
    · exact pending_of_whole (htidy.done chunk hmem) hparen

theorem ne_nil_of_mem_chunks {cs chunk : List Char} (hmem : chunk ∈ (start.run cs).chunks) :
    chunk ≠ [] := by
  obtain ⟨spans, _, hspans, hchunks⟩ := exists_spans cs
  rw [hchunks] at hmem
  obtain ⟨⟨i, j⟩, hspan, rfl⟩ := List.mem_map.mp hmem
  exact slice_ne_nil ((hspans i j).mp hspan)

end Scan

/-- Nothing is left of a chunk that is a comment. -/
theorem uncomment_of_comment {source chunk : String} (hmem : chunk ∈ chunks source)
    (h : Token.Kind.ofChunk chunk = .comment) : uncomment chunk = "" := by
  obtain ⟨cs, hcs⟩ : ∃ cs, chunk.toList = ';' :: cs := by
    have hfits := Token.Kind.fits_ofChunk chunk
    rwa [h] at hfits
  obtain ⟨ds, hds, rfl⟩ := List.mem_map.mp hmem
  rw [String.toList_ofList] at hcs
  subst hcs
  have hpending := Scan.pending_of_mem_chunks hds (by rintro c hc; cases hc; rfl)
  -- A newline would have ended the comment and the chunk with it.
  have hnewline : '\n' ∉ cs := by
    apply Scan.newline_not_mem (s := Scan.start.step ';') rfl
    show (Scan.start.run (';' :: cs)).pending.length = 1 + cs.length
    rw [hpending, List.length_reverse, List.length_cons, Nat.add_comm]
  have hnil : uncommentCode (';' :: cs) = [] := uncommentComment_eq_nil hnewline
  rw [uncomment, String.toList_ofList, hnil, String.ofList_nil]

/-- Of any other chunk something is left, and this is no comment either. -/
theorem uncomment_of_not_comment {chunk : String} (hne : chunk ≠ "")
    (h : Token.Kind.ofChunk chunk ≠ .comment) :
    uncomment chunk ≠ "" ∧ Token.Kind.ofChunk (uncomment chunk) ≠ .comment := by
  obtain ⟨c, cs, hcs⟩ : ∃ c cs, chunk.toList = c :: cs :=
    List.exists_cons_of_ne_nil fun hnil => hne (String.toList_eq_nil_iff.mp hnil)
  have hc : c ≠ ';' := by
    rintro rfl
    apply h
    have hkind := Token.Kind.ofChunk_cons_of_region (.inl rfl) cs
    rwa [← hcs, String.ofList_toList] at hkind
  obtain ⟨ds, hds⟩ : ∃ ds, (uncomment chunk).toList = c :: ds := by
    rw [uncomment, String.toList_ofList, hcs, uncommentCode, if_neg hc]
    split
    · exact ⟨_, rfl⟩
    · exact ⟨_, rfl⟩
  refine ⟨?_, ?_⟩
  · intro hempty
    rw [hempty] at hds
    cases hds
  · intro hkind
    have hfits := Token.Kind.fits_ofChunk (uncomment chunk)
    rw [hkind] at hfits
    obtain ⟨es, hes⟩ := hfits
    rw [hds] at hes
    exact hc (List.cons.inj hes).1

/-- The token of what is left of a token when its comment is deleted. -/
def Token.uncommented (t : Token) : Token := Token.ofChunk (uncomment t.text)

/-- The tokens of a source without its comments are those of the source, each without its
    comment.  The tokens that are comments are gone. -/
theorem withoutComments_tokenize_uncomment (source : String) :
    withoutComments (tokenize (uncomment source)) =
      (withoutComments (tokenize source)).map Token.uncommented := by
  have hchunks : ∀ chunk ∈ chunks source,
      chunk ≠ "" ∧ (Token.Kind.ofChunk chunk = .comment → uncomment chunk = "") := by
    intro chunk hmem
    refine ⟨?_, uncomment_of_comment hmem⟩
    rintro rfl
    obtain ⟨cs, hcs, hempty⟩ := List.mem_map.mp hmem
    have hnil := congrArg String.toList hempty
    rw [String.toList_ofList] at hnil
    exact Scan.ne_nil_of_mem_chunks hcs hnil
  unfold tokenize
  rw [chunks_uncomment]
  revert hchunks
  generalize chunks source = words
  intro hchunks
  induction words with
  | nil => rfl
  | cons word words ih =>
    obtain ⟨⟨hne, hcomment⟩, hwords⟩ := List.forall_mem_cons.mp hchunks
    have hrest := ih hwords
    by_cases hkind : Token.Kind.ofChunk word = .comment
    · simpa [withoutComments, Token.ofChunk, hkind, hcomment hkind] using hrest
    · obtain ⟨hleft, hleftKind⟩ := uncomment_of_not_comment hne hkind
      simpa [withoutComments, Token.ofChunk, Token.uncommented, hkind, hleft, hleftKind] using hrest

/-! ### Comments that stand apart -/

/-- Every comment of the source is a token of its own: no other token has a semicolon
    outside quotes. -/
def CommentsApart (source : String) : Prop :=
  ∀ t ∈ tokenize source, t.kind ≠ .comment → ';' ∉ Text.bare t.text.toList

instance (source : String) : Decidable (CommentsApart source) :=
  inferInstanceAs (Decidable (∀ t ∈ tokenize source, t.kind ≠ .comment → _))

theorem uncomment_eq_self_iff {text : String} :
    uncomment text = text ↔ ';' ∉ Text.bare text.toList := by
  have hself : uncommentCode text.toList = text.toList ↔ ';' ∉ Text.bare text.toList :=
    @uncommentFrom_eq_self_iff false _
  rw [← hself, uncomment, ← String.toList_inj, String.toList_ofList]

/-- Comments stand apart exactly if deleting them leaves the text of every other token. -/
theorem commentsApart_iff {source : String} :
    CommentsApart source ↔ ∀ t ∈ withoutComments (tokenize source), uncomment t.text = t.text := by
  constructor
  · intro h t ht
    obtain ⟨hmem, hkind⟩ := List.mem_filter.mp ht
    exact uncomment_eq_self_iff.mpr (h t hmem (of_decide_eq_true hkind))
  · intro h t hmem hkind
    exact uncomment_eq_self_iff.mp (h t (List.mem_filter.mpr ⟨hmem, decide_eq_true hkind⟩))

/-- A scanned token fits its kind. -/
theorem Token.Scanned.fits {t : Token} {kind : Token.Kind} (h : t.Scanned) (hkind : t.kind = kind) :
    kind.Fits t.text := by
  rw [← hkind, h.kind_eq]
  exact Token.Kind.fits_ofChunk t.text

namespace Form

mutual

/-- The words of a form are the texts of the tokens from which it is derived. -/
theorem map_text_of_isForm {ts : List Token} {form : Form} :
    IsForm ts form → (∀ t ∈ ts, t.Scanned) → ts.map Token.text = words form
  | @IsForm.empty o c ho hc, h => by
    have hopen : o.text = "(" := (h o (by simp)).fits ho
    have hclose : c.text = ")" := (h c (by simp)).fits hc
    simp [words, hopen, hclose]
  | @IsForm.call o _ c _ _ ho _ helements hc, h => by
    have hopen : o.text = "(" := (h o (by simp)).fits ho
    have hclose : c.text = ")" := (h c (by simp)).fits hc
    have hargs := map_text_of_areElements helements fun t ht => h t (by simp [ht])
    simp [words, hopen, hclose, hargs]
  | @IsForm.defconstant o keyword _ _ c ho hkeyword _ _ hc, h => by
    have hopen : o.text = "(" := (h o (by simp)).fits ho
    have hword : keyword.text = "defconstant" := (h keyword (by simp)).fits hkeyword
    have hclose : c.text = ")" := (h c (by simp)).fits hc
    simp [words, hopen, hword, hclose]
  | @IsForm.defvar o keyword _ _ c ho hkeyword _ _ hc, h => by
    have hopen : o.text = "(" := (h o (by simp)).fits ho
    have hword : keyword.text = "defvar" := (h keyword (by simp)).fits hkeyword
    have hclose : c.text = ")" := (h c (by simp)).fits hc
    simp [words, hopen, hword, hclose]
  | @IsForm.defun o keyword _ o' c' c _ _ _ ho hkeyword _ ho' _ _ hc' helements hc, h => by
    have hopen : o.text = "(" := (h o (by simp)).fits ho
    have hword : keyword.text = "defun" := (h keyword (by simp)).fits hkeyword
    have hopen' : o'.text = "(" := (h o' (by simp)).fits ho'
    have hclose' : c'.text = ")" := (h c' (by simp)).fits hc'
    have hclose : c.text = ")" := (h c (by simp)).fits hc
    have hbody := map_text_of_areElements helements fun t ht => h t (by simp [ht])
    simp [words, hopen, hword, hopen', hclose', hclose, hbody]

/-- So are those of an element. -/
theorem map_text_of_isElement {ts : List Token} {form : Form} :
    IsElement ts form → (∀ t ∈ ts, t.Scanned) → ts.map Token.text = words form
  | .form hform, h => map_text_of_isForm hform h
  | .leaf _, _ => rfl

/-- And so are those of several elements. -/
theorem map_text_of_areElements {ts : List Token} {forms : List Form} :
    AreElements ts forms → (∀ t ∈ ts, t.Scanned) → ts.map Token.text = wordsAll forms
  | .nil, _ => rfl
  | .cons helement helements, h => by
    rw [List.map_append, wordsAll,
      map_text_of_isElement helement fun t ht => h t (List.mem_append_left _ ht),
      map_text_of_areElements helements fun t ht => h t (List.mem_append_right _ ht)]

end

theorem map_text_of_isProgram {ts : List Token} {forms : List Form} (h : IsProgram ts forms)
    (hscanned : ∀ t ∈ ts, t.Scanned) : ts.map Token.text = wordsAll forms := by
  induction h with
  | nil => rfl
  | cons hform _ ih =>
    rw [List.map_append, wordsAll,
      map_text_of_isForm hform fun t ht => hscanned t (List.mem_append_left _ ht),
      ih fun t ht => hscanned t (List.mem_append_right _ ht)]

/-- The words of what is read from a source are the texts of its tokens, comments left
    out. -/
theorem map_text_of_ofTokens {source : String} {forms : List Form}
    (h : ofTokens (tokenize source) = .ok forms) :
    (withoutComments (tokenize source)).map Token.text = wordsAll forms :=
  map_text_of_isProgram (isProgram_of_ofTokens h) (scanned_of_ofTokens h)

/-- Only the tokens that are no comments are read. -/
theorem ofTokens_congr {ts us : List Token} (h : withoutComments ts = withoutComments us) :
    ofTokens ts = ofTokens us := by
  unfold withoutComments at h
  unfold ofTokens
  rw [h]

/-- What deleting the comments of a source does to its meaning.  It deletes the comment of
    every token.  If every comment stands apart, the source is read as before, be it accepted
    or refused.  If a comment is stuck to an atom, an accepted source is never read as
    before. -/
theorem ofTokens_uncomment (source : String) :
    withoutComments (tokenize (uncomment source)) =
        (withoutComments (tokenize source)).map Token.uncommented ∧
      (CommentsApart source →
        ofTokens (tokenize (uncomment source)) = ofTokens (tokenize source)) ∧
      ∀ forms, ofTokens (tokenize source) = .ok forms →
        (ofTokens (tokenize (uncomment source)) = .ok forms ↔ CommentsApart source) := by
  have htokens := withoutComments_tokenize_uncomment source
  have hapart (h : CommentsApart source) :
      ofTokens (tokenize (uncomment source)) = ofTokens (tokenize source) := by
    apply ofTokens_congr
    rw [htokens]
    calc (withoutComments (tokenize source)).map Token.uncommented
        = (withoutComments (tokenize source)).map id := by
          apply List.map_congr_left
          intro t ht
          obtain ⟨chunk, _, rfl⟩ := List.mem_map.mp (List.mem_of_mem_filter ht)
          exact congrArg Token.ofChunk (commentsApart_iff.mp h _ ht)
      _ = withoutComments (tokenize source) := List.map_id _
  refine ⟨htokens, hapart, ?_⟩
  intro forms hforms
  constructor
  · -- What is read determines the texts of the tokens, so none of them had a comment.
    intro hleft
    have hwords := map_text_of_ofTokens hleft
    rw [htokens, ← map_text_of_ofTokens hforms, List.map_map] at hwords
    rw [commentsApart_iff]
    intro t ht
    exact List.map_eq_map_iff.mp hwords t ht
  · intro h
    rw [hapart h, hforms]

/-- Comments before a form, within it and after it, with a quote and a paren in them. -/
theorem ofTokens_uncomment_apart :
    let source := "; a\n(f \"b;c\" ;d (\n e);\"g"
    let forms := [call "f" [leaf ⟨.string, "\"b;c\""⟩, leaf ⟨.identifier, "e"⟩]]
    CommentsApart source ∧ uncomment source = "\n(f \"b;c\" \n e)" ∧
      ofTokens (tokenize source) = .ok forms ∧
      ofTokens (tokenize (uncomment source)) = ofTokens (tokenize source) ∧
      (ofTokens (tokenize (uncomment source)) = .ok forms ↔ CommentsApart source) := by
  intro source forms
  have hapart : CommentsApart source := by decide +kernel
  have huncomment : uncomment source = "\n(f \"b;c\" \n e)" := by decide +kernel
  have htokens : tokenize source = [⟨.comment, "; a"⟩, ⟨.openParen, "("⟩, ⟨.identifier, "f"⟩,
      ⟨.string, "\"b;c\""⟩, ⟨.comment, ";d ("⟩, ⟨.identifier, "e"⟩, ⟨.closeParen, ")"⟩,
      ⟨.comment, ";\"g"⟩] := by decide +kernel
  have hforms : ofTokens (tokenize source) = .ok forms := by
    rw [htokens]
    rfl
  obtain ⟨_, hsame, hexact⟩ := ofTokens_uncomment source
  exact ⟨hapart, huncomment, hforms, hsame hapart, hexact forms hforms⟩

/-- A comment that is stuck to an atom is read as part of it. -/
theorem ofTokens_uncomment_stuck :
    ofTokens (tokenize "(f a;b\n)") = .ok [.call "f" [.leaf ⟨.identifier, "a;b"⟩]] ∧
      ofTokens (tokenize (uncomment "(f a;b\n)")) = .ok [.call "f" [.leaf ⟨.identifier, "a"⟩]] ∧
      ofTokens (tokenize (uncomment "(f a;b\n)")) ≠ ofTokens (tokenize "(f a;b\n)") := by
  have hstuck :
      ofTokens (tokenize "(f a;b\n)") = .ok [.call "f" [.leaf ⟨.identifier, "a;b"⟩]] := rfl
  have hdeleted :
      ofTokens (tokenize (uncomment "(f a;b\n)")) =
        .ok [.call "f" [.leaf ⟨.identifier, "a"⟩]] := rfl
  refine ⟨hstuck, hdeleted, ?_⟩
  rw [hstuck, hdeleted]
  simp

end Form

end SexpScript
