import SexpScript.Token.Scan

/-! # What the scan keeps

    Facts about the scan that hold after every text.  The key ideas:

    - Chunks that were read are never touched again (`run_onto`), so a text is
      scanned as if from a clean start and put behind what came before it.
    - The chunk being read would be read in the same way alone, and every chunk
      that was read is one chunk alone, too (`Tidy`).
    - A newline outside strings cuts the source in two: the chunks of the whole are
      those of the two parts (`chunks_append_newline`).
-/

namespace SexpScript

namespace Scan

/-! ### One step -/

@[simp] theorem flush_pending (s : Scan) : s.flush.pending = [] := by
  unfold flush
  split
  · next h => exact List.isEmpty_iff.mp h
  · rfl

theorem flush_of_nil {s : Scan} (h : s.pending = []) : s.flush = s := by
  simp [flush, h]

theorem flush_of_ne_nil {s : Scan} (h : s.pending ≠ []) :
    s.flush = { s with pending := [], done := s.pending.reverse :: s.done } := by
  simp [flush, h]

theorem isParen_iff {c : Char} : isParen c = true ↔ c = '(' ∨ c = ')' := by
  simp [isParen]

theorem isBlank_of_isParen {c : Char} (h : isParen c = true) : Text.isBlank c = false := by
  rcases isParen_iff.mp h with rfl | rfl <;> decide

/-- A character that splits nothing is put to the chunk being read. -/
theorem step_of_keep {s : Scan} {c : Char}
    (h : s.region.next c = .code → Text.isBlank c = false ∧ isParen c = false) :
    s.step c = { region := s.region.next c, pending := c :: s.pending, done := s.done } := by
  unfold step
  by_cases hcode : s.region.next c = .code
  · obtain ⟨hblank, hparen⟩ := h hcode
    simp [hblank, hparen]
  · simp [hcode]

/-- All that one character can do: a blank in code ends the chunk being read, a
    paren in code is a chunk of its own, and anything else belongs to the chunk. -/
theorem step_cases (s : Scan) (c : Char) :
    (s.region.next c = .code ∧ Text.isBlank c = true ∧
      s.step c = { region := .code, pending := [], done := s.flush.done }) ∨
    (s.region.next c = .code ∧ isParen c = true ∧
      s.step c = { region := .code, pending := [], done := [c] :: s.flush.done }) ∨
    ((s.region.next c = .code → Text.isBlank c = false ∧ isParen c = false) ∧
      s.step c = { region := s.region.next c, pending := c :: s.pending, done := s.done }) := by
  by_cases hcode : s.region.next c = .code
  · by_cases hblank : Text.isBlank c = true
    · exact .inl ⟨hcode, hblank, by simp [step, hcode, hblank]⟩
    · by_cases hparen : isParen c = true
      · exact .inr (.inl ⟨hcode, hparen, by simp [step, hcode, hblank, hparen]⟩)
      · have hkeep : s.region.next c = .code → Text.isBlank c = false ∧ isParen c = false :=
          fun _ => ⟨by simpa using hblank, by simpa using hparen⟩
        exact .inr (.inr ⟨hkeep, step_of_keep hkeep⟩)
  · have hkeep : s.region.next c = .code → Text.isBlank c = false ∧ isParen c = false :=
      fun h => absurd h hcode
    exact .inr (.inr ⟨hkeep, step_of_keep hkeep⟩)

/-- Only a quote leads out of a string. -/
theorem region_ne_string {r : Region} {c : Char} (hcode : r.next c = .code) (hc : c ≠ '"') :
    r ≠ .string := by
  intro hr
  subst hr
  simp [Region.next, hc] at hcode

theorem ne_quote_of_isBlank {c : Char} (h : Text.isBlank c = true) : c ≠ '"' := by
  rintro rfl
  exact absurd h (by decide)

theorem ne_quote_of_isParen {c : Char} (h : isParen c = true) : c ≠ '"' := by
  rintro rfl
  exact absurd h (by decide)

/-- Outside strings a newline ends the chunk being read, comment or not. -/
theorem step_newline {s : Scan} (h : s.region ≠ .string) :
    s.step '\n' = { region := .code, pending := [], done := s.flush.done } := by
  have hblank : Text.isBlank '\n' = true := by decide
  have hcode : s.region.next '\n' = .code := by
    cases hr : s.region with
    | code => rfl
    | string => exact absurd hr h
    | comment => rfl
  simp [step, hcode, hblank]

/-! ### Chunks that were read stay as they are -/

/-- The scan `s`, put behind chunks that were read before. -/
def onto (s : Scan) (before : List (List Char)) : Scan := { s with done := s.done ++ before }

theorem flush_onto (s : Scan) (before : List (List Char)) :
    (s.onto before).flush = s.flush.onto before := by
  by_cases h : s.pending = []
  · rw [flush_of_nil h, flush_of_nil (s := s.onto before) h]
  · rw [flush_of_ne_nil h, flush_of_ne_nil (s := s.onto before) h]
    rfl

theorem step_onto (s : Scan) (before : List (List Char)) (c : Char) :
    (s.onto before).step c = (s.step c).onto before := by
  have hflush := congrArg Scan.done (flush_onto s before)
  rcases step_cases s c with ⟨hcode, hblank, hs⟩ | ⟨hcode, hparen, hs⟩ | ⟨hkeep, hs⟩
  · rw [hs]
    simp [step, onto, hcode, hblank] at hflush ⊢
    exact hflush
  · have hblank := isBlank_of_isParen hparen
    rw [hs]
    simp [step, onto, hcode, hblank, hparen] at hflush ⊢
    exact hflush
  · rw [hs, step_of_keep (s := s.onto before) hkeep]
    rfl

theorem run_onto (s : Scan) (before : List (List Char)) (cs : List Char) :
    (s.onto before).run cs = (s.run cs).onto before := by
  induction cs generalizing s with
  | nil => rfl
  | cons c cs ih =>
    show ((s.onto before).step c).run cs = ((s.step c).run cs).onto before
    rw [step_onto, ih]

theorem chunks_onto (s : Scan) (before : List (List Char)) :
    (s.onto before).chunks = before.reverse ++ s.chunks := by
  rw [chunks, flush_onto, chunks]
  simp [onto]

/-- The chunks at a place outside strings where a newline follows. -/
theorem chunks_run_newline {cs : List Char} (ds : List Char)
    (h : (start.run cs).region ≠ .string) :
    (start.run (cs ++ '\n' :: ds)).chunks = (start.run cs).chunks ++ (start.run ds).chunks := by
  have hstep : (start.run cs).step '\n' = start.onto (start.run cs).flush.done := by
    rw [step_newline h]
    rfl
  calc (start.run (cs ++ '\n' :: ds)).chunks
      = (((start.run cs).step '\n').run ds).chunks := by rw [run_append]; rfl
    _ = ((start.run ds).onto (start.run cs).flush.done).chunks := by rw [hstep, run_onto]
    _ = (start.run cs).chunks ++ (start.run ds).chunks := by rw [chunks_onto]; rfl

/-! ### Chunks alone -/

/-- A text that is one chunk, and is still one when a newline follows. -/
def Whole (chunk : List Char) : Prop :=
  (start.run chunk).region ≠ .string ∧ (start.run chunk).chunks = [chunk]

/-- What is true of the scan after every text. -/
structure Tidy (s : Scan) : Prop where
  /-- The chunk being read would be read in the same way alone. -/
  pending : start.run s.pending.reverse = { region := s.region, pending := s.pending, done := [] }
  /-- The chunk being read does not begin with a paren, and if it begins as a
      comment it still is one. -/
  first : ∀ c ∈ s.pending.getLast?, isParen c = false ∧ (c = ';' → s.region = .comment)
  /-- The chunks that were read are whole. -/
  done : ∀ chunk ∈ s.done, Whole chunk

theorem Tidy.start : Tidy Scan.start where
  pending := rfl
  first := by simp [Scan.start]
  done := by simp [Scan.start]

/-- Outside strings the chunk being read is whole as well. -/
theorem Tidy.whole_of_mem_flush {s : Scan} (h : Tidy s) (hr : s.region ≠ .string)
    {chunk : List Char} (hmem : chunk ∈ s.flush.done) : Whole chunk := by
  by_cases hp : s.pending = []
  · rw [flush_of_nil hp] at hmem
    exact h.done chunk hmem
  · rw [flush_of_ne_nil hp, List.mem_cons] at hmem
    rcases hmem with rfl | hmem
    · have hrun := h.pending
      refine ⟨by rw [hrun]; exact hr, ?_⟩
      rw [hrun, chunks, flush_of_ne_nil (s := ⟨s.region, s.pending, []⟩) hp]
      rfl
    · exact h.done chunk hmem

theorem whole_of_isParen {c : Char} (h : isParen c = true) : Whole [c] := by
  unfold Whole
  rcases isParen_iff.mp h with rfl | rfl <;> decide

theorem Tidy.step {s : Scan} (h : Tidy s) (c : Char) : Tidy (s.step c) := by
  rcases step_cases s c with ⟨hcode, hblank, hs⟩ | ⟨hcode, hparen, hs⟩ | ⟨hkeep, hs⟩
  · have hr := region_ne_string hcode (ne_quote_of_isBlank hblank)
    rw [hs]
    exact ⟨rfl, by simp, fun chunk hmem => h.whole_of_mem_flush hr hmem⟩
  · have hr := region_ne_string hcode (ne_quote_of_isParen hparen)
    rw [hs]
    refine ⟨rfl, by simp, fun chunk hmem => ?_⟩
    rcases List.mem_cons.mp hmem with rfl | hmem
    · exact whole_of_isParen hparen
    · exact h.whole_of_mem_flush hr hmem
  · rw [hs]
    refine ⟨?_, ?_, h.done⟩
    · show Scan.start.run (c :: s.pending).reverse = _
      rw [List.reverse_cons, run_append, h.pending]
      exact step_of_keep (s := ⟨s.region, s.pending, []⟩) hkeep
    · show ∀ d ∈ (c :: s.pending).getLast?,
        isParen d = false ∧ (d = ';' → s.region.next c = .comment)
      cases hp : s.pending with
      | nil =>
        -- A chunk begins: nothing is pending only in code.
        have hr : s.region = .code := by
          have hrun := congrArg Scan.region h.pending
          rw [hp] at hrun
          exact hrun.symm
        intro d hd
        obtain rfl : c = d := by simpa using hd
        rw [hr] at hkeep ⊢
        refine ⟨?_, ?_⟩
        · by_cases hcode : Region.code.next c = .code
          · exact (hkeep hcode).2
          · rw [← Bool.not_eq_true]
            intro hparen
            rcases isParen_iff.mp hparen with rfl | rfl <;> exact hcode (by decide)
        · rintro rfl
          rfl
      | cons p ps =>
        -- A chunk goes on: a comment ends only at a newline, which is a blank.
        intro d hd
        obtain ⟨hparen, hcomment⟩ := h.first d (by rw [hp]; simpa using hd)
        refine ⟨hparen, fun hd' => ?_⟩
        have hr := hcomment hd'
        rw [hr] at hkeep ⊢
        by_cases hc : c = '\n'
        · subst hc
          exact absurd (hkeep rfl).1 (by decide)
        · simp [Region.next, hc]

theorem Tidy.run {s : Scan} (h : Tidy s) (cs : List Char) : Tidy (s.run cs) := by
  induction cs generalizing s with
  | nil => exact h
  | cons c cs ih => exact ih (h.step c)

/-- The scan of a text from the start is tidy. -/
theorem tidy_run (cs : List Char) : Tidy (start.run cs) := Tidy.start.run cs

/-- A chunk is whole exactly if it is the only chunk of itself and a newline. -/
theorem whole_iff {chunk : List Char} :
    Whole chunk ↔ (start.run (chunk ++ ['\n'])).chunks = [chunk] := by
  constructor
  · rintro ⟨hr, hchunks⟩
    rw [chunks_run_newline [] hr, hchunks]
    rfl
  · intro h
    by_cases hr : (start.run chunk).region = .string
    · -- The newline belongs to the string.  The chunk being read is then `chunk`, and
      -- read alone it must be one newline longer than itself.
      exfalso
      have hstep : start.run (chunk ++ ['\n']) =
          { start.run chunk with pending := '\n' :: (start.run chunk).pending } := by
        rw [run_append]
        show (start.run chunk).step '\n' = _
        rw [step_of_keep (by rw [hr]; decide), hr]
        simp [Region.next, hr]
      have htidy := (tidy_run (chunk ++ ['\n'])).pending
      rw [hstep] at h htidy
      rw [chunks, flush_of_ne_nil (by simp)] at h
      simp only [List.reverse_cons, List.append_eq_singleton_iff] at h
      rcases h with ⟨_, h⟩ | ⟨_, h⟩
      · have hchunk : (start.run chunk).pending.reverse ++ ['\n'] = chunk := by simpa using h
        simp only [List.reverse_cons, hchunk] at htidy
        have hlen := congrArg (fun s => s.pending.length) htidy
        simp at hlen
      · simp at h
    · refine ⟨hr, ?_⟩
      rw [chunks_run_newline [] hr] at h
      simpa [start, run, chunks, flush] using h

end Scan

/-! ### Kinds of chunks -/

@[simp] theorem Token.ofChunk_text (chunk : String) : (Token.ofChunk chunk).text = chunk := rfl

namespace Token.Kind

/-- What the kind of a chunk says about its text. -/
def Fits : Kind → String → Prop
  | .openParen, chunk => chunk = "("
  | .closeParen, chunk => chunk = ")"
  | .boolean, chunk => chunk = "true" ∨ chunk = "false"
  | .number, chunk => Token.isNumeral chunk = true
  | .string, chunk => ∃ cs, chunk.toList = '"' :: cs
  | .comment, chunk => ∃ cs, chunk.toList = ';' :: cs
  | .identifier, chunk => Token.isNumeral chunk = false
  | kind, chunk => chunk = kind.label

theorem fits_of_lookup {chunk : String} {kind : Kind} (h : keywords.lookup chunk = some kind) :
    kind.Fits chunk := by
  simp only [keywords, List.lookup_cons, List.lookup_nil] at h
  split at h
  · next hc => cases h; exact eq_of_beq hc
  · split at h
    · next hc => cases h; exact eq_of_beq hc
    · split at h
      · next hc => cases h; exact eq_of_beq hc
      · cases h

/-- Every chunk fits its kind. -/
theorem fits_ofChunk (chunk : String) : (ofChunk chunk).Fits chunk := by
  unfold ofChunk
  split
  · next h => exact h
  split
  · next h => exact h
  split
  · next h => exact h
  split
  · next h => exact fits_of_lookup h
  split
  · next h => exact h
  · next hnumeral =>
    split
    · next cs h => exact ⟨cs, h⟩
    · next cs h => exact ⟨cs, h⟩
    · exact eq_false_of_ne_true hnumeral

theorem ofChunk_eq_openParen {chunk : String} : ofChunk chunk = .openParen ↔ chunk = "(" := by
  constructor
  · intro h
    have hfits := fits_ofChunk chunk
    rwa [h] at hfits
  · rintro rfl
    rfl

theorem ofChunk_eq_closeParen {chunk : String} : ofChunk chunk = .closeParen ↔ chunk = ")" := by
  constructor
  · intro h
    have hfits := fits_ofChunk chunk
    rwa [h] at hfits
  · rintro rfl
    rfl

/-- A chunk that begins with neither a paren nor a semicolon is neither a paren
    nor a comment. -/
theorem ofChunk_cons {c : Char} {cs : List Char} (hparen : Scan.isParen c = false)
    (hc : c ≠ ';') :
    ofChunk (String.ofList (c :: cs)) ≠ .openParen ∧
      ofChunk (String.ofList (c :: cs)) ≠ .closeParen ∧
      ofChunk (String.ofList (c :: cs)) ≠ .comment := by
  simp only [Scan.isParen, Bool.or_eq_false_iff, decide_eq_false_iff_not] at hparen
  refine ⟨?_, ?_, ?_⟩
  · intro h
    have htext := congrArg String.toList (ofChunk_eq_openParen.mp h)
    rw [String.toList_ofList] at htext
    exact hparen.1 (List.cons.inj htext).1
  · intro h
    have htext := congrArg String.toList (ofChunk_eq_closeParen.mp h)
    rw [String.toList_ofList] at htext
    exact hparen.2 (List.cons.inj htext).1
  · intro h
    have hfits := fits_ofChunk (String.ofList (c :: cs))
    rw [h] at hfits
    obtain ⟨ds, hds⟩ := hfits
    rw [String.toList_ofList] at hds
    exact hc (List.cons.inj hds).1

/-- A chunk that begins with a semicolon is a comment, and one that begins with a quote is a
    string. -/
theorem ofChunk_cons_of_region {c : Char} (h : c = ';' ∨ c = '"') (cs : List Char) :
    ofChunk (String.ofList (c :: cs)) = if c = ';' then .comment else .string := by
  have hword (word : String) (hhead : word.toList.head? ≠ some c) :
      String.ofList (c :: cs) ≠ word := by
    rintro rfl
    simp at hhead
  have hnumeral : Token.isNumeral (String.ofList (c :: cs)) = false := by
    unfold Token.isNumeral
    rw [String.toList_ofList]
    rcases h with rfl | rfl <;> rfl
  have hopen := hword "(" (by rcases h with rfl | rfl <;> decide)
  have hclose := hword ")" (by rcases h with rfl | rfl <;> decide)
  have htrue := hword "true" (by rcases h with rfl | rfl <;> decide)
  have hfalse := hword "false" (by rcases h with rfl | rfl <;> decide)
  have hkeyword : keywords.lookup (String.ofList (c :: cs)) = none := by
    have hheads : ∀ entry ∈ keywords, entry.1.toList.head? ≠ some c := by
      rcases h with rfl | rfl <;> decide
    rw [List.lookup_eq_none_iff]
    intro entry hentry
    exact bne_iff_ne.mpr (hword entry.1 (hheads entry hentry))
  unfold ofChunk
  rw [if_neg hopen, if_neg hclose, if_neg (not_or.mpr ⟨htrue, hfalse⟩), hkeyword, hnumeral,
    String.toList_ofList]
  rcases h with rfl | rfl <;> rfl

end Token.Kind

/-! ### Chunks of a source -/

/-- A newline outside strings cuts the source in two. -/
theorem chunks_append_newline {a : String} (b : String)
    (h : (Scan.start.run a.toList).region ≠ .string) :
    chunks (a ++ "\n" ++ b) = chunks a ++ chunks b := by
  have hlist : (a ++ "\n" ++ b).toList = a.toList ++ '\n' :: b.toList := by simp
  rw [chunks, hlist, Scan.chunks_run_newline _ h, List.map_append]
  rfl

theorem tokenize_append_newline {a : String} (b : String)
    (h : (Scan.start.run a.toList).region ≠ .string) :
    tokenize (a ++ "\n" ++ b) = tokenize a ++ tokenize b := by
  rw [tokenize, chunks_append_newline b h, List.map_append]
  rfl

theorem chunks_newline_eq_singleton {text : String} :
    chunks (text ++ "\n") = [text] ↔ Scan.Whole text.toList := by
  have hlist : (text ++ "\n").toList = text.toList ++ ['\n'] := by simp
  rw [Scan.whole_iff, chunks, hlist]
  constructor
  · intro h
    obtain ⟨cs, hcs, htext⟩ := List.map_eq_singleton_iff.mp h
    rw [hcs, ← htext, String.toList_ofList]
  · intro h
    rw [h, List.map_singleton, String.ofList_toList]

/-- A source that does not end inside a string has whole chunks only. -/
theorem whole_of_mem_chunks {source chunk : String}
    (h : (Scan.start.run source.toList).region ≠ .string) (hmem : chunk ∈ chunks source) :
    Scan.Whole chunk.toList := by
  obtain ⟨cs, hcs, rfl⟩ := List.mem_map.mp hmem
  rw [String.toList_ofList]
  exact (Scan.tidy_run _).whole_of_mem_flush h (List.mem_reverse.mp hcs)

/-- A source that ends inside a string ends with a chunk that is neither a paren
    nor a comment. -/
theorem chunks_of_region_string {source : String}
    (h : (Scan.start.run source.toList).region = .string) :
    ∃ init last, chunks source = init ++ [last] ∧ Token.Kind.ofChunk last ≠ .openParen ∧
      Token.Kind.ofChunk last ≠ .closeParen ∧ Token.Kind.ofChunk last ≠ .comment := by
  have htidy := Scan.tidy_run source.toList
  unfold chunks
  generalize Scan.start.run source.toList = s at h htidy
  have hp : s.pending ≠ [] := by
    intro hp
    have hr := congrArg Scan.region htidy.pending
    rw [hp, h] at hr
    exact absurd hr (by decide)
  obtain ⟨c, cs, hcs⟩ := List.exists_cons_of_ne_nil (List.reverse_ne_nil_iff.mpr hp)
  obtain ⟨hparen, hcomment⟩ := htidy.first c (by rw [← List.head?_reverse, hcs]; rfl)
  have hc : c ≠ ';' := by
    intro hc
    rw [hcomment hc] at h
    exact absurd h (by decide)
  refine ⟨s.done.reverse.map String.ofList, String.ofList (c :: cs), ?_,
    Token.Kind.ofChunk_cons hparen hc⟩
  rw [Scan.chunks, Scan.flush_of_ne_nil hp, List.reverse_cons, List.map_append, hcs]
  rfl

theorem chunks_of_whole {word : String} (h : Scan.Whole word.toList) : chunks word = [word] := by
  simp [chunks, h.2]

/-- Whole chunks on lines of their own are scanned as they are, whatever the last line
    holds. -/
theorem chunks_intercalate_concat {words : List String} (last : String)
    (h : ∀ word ∈ words, Scan.Whole word.toList) :
    chunks ("\n".intercalate (words ++ [last])) = words ++ chunks last := by
  induction words with
  | nil =>
    rw [List.nil_append, String.intercalate_singleton]
    rfl
  | cons word words ih =>
    obtain ⟨hword, hwords⟩ := List.forall_mem_cons.mp h
    obtain ⟨next, rest, hnext⟩ : ∃ next rest, words ++ [last] = next :: rest :=
      List.exists_cons_of_ne_nil (by simp)
    rw [List.cons_append, hnext, String.intercalate_cons_cons, chunks_append_newline _ hword.1,
      chunks_of_whole hword, ← hnext, ih hwords]
    rfl

/-- Whole chunks, written on a line each, are the chunks of the text. -/
theorem chunks_intercalate {words : List String} (h : ∀ word ∈ words, Scan.Whole word.toList) :
    chunks ("\n".intercalate words) = words := by
  rcases words.eq_nil_or_concat with rfl | ⟨init, last, rfl⟩
  · rfl
  · rw [List.concat_eq_append] at h ⊢
    obtain ⟨hinit, hlast⟩ := List.forall_mem_append.mp h
    rw [chunks_intercalate_concat last hinit, chunks_of_whole (hlast last List.mem_cons_self)]

end SexpScript
