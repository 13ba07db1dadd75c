import SexpScript.Proofs.Scanning
import Mathlib.Data.List.Induction

/-! # Regions and chunks

    The chunks of a source, said without a scan.  Every character is marked: it is a
    delimiter, that is a blank or a paren outside strings and comments, or it is text.
    The chunks are then the longest runs of text and the delimiters that are parens,
    in the order of the source.

    - `insideCode` walks the source once and tells for each character whether it is
      inside a string or a comment; `marks` adds what the character is.
    - `IsRun` and `IsChunk` speak of positions among the marks.
    - `Cut` is the invariant of the scan: the spans of the chunks read so far are those
      that have ended, and the chunk being read is the run at the end.
-/

namespace SexpScript

/-! ### Marks -/

mutual

/-- For each character, in code at first, whether it is inside a string or a comment.
    A quote that opens and a semicolon are inside. -/
def insideCode : List Char → List Bool
  | [] => []
  | c :: cs =>
      if c = '"' then true :: insideString cs
      else if c = ';' then true :: insideComment cs
      else false :: insideCode cs

/-- The same from within a string.  The quote that closes it is outside. -/
def insideString : List Char → List Bool
  | [] => []
  | c :: cs => if c = '"' then false :: insideCode cs else true :: insideString cs

/-- The same from within a comment.  The newline that ends it is outside. -/
def insideComment : List Char → List Bool
  | [] => []
  | c :: cs => if c = '\n' then false :: insideCode cs else true :: insideComment cs

end

/-- What a character is to the chunks. -/
inductive Mark where
  /-- Part of a chunk. -/
  | text
  /-- A blank between chunks. -/
  | blank
  /-- A paren that is a chunk of its own. -/
  | paren
  deriving DecidableEq, Repr

/-- The mark of a character.  Inside a string or a comment it is text. -/
def Mark.of (inside : Bool) (c : Char) : Mark :=
  if inside then .text
  else if Text.isBlank c then .blank
  else if c = '(' ∨ c = ')' then .paren
  else .text

/-- The marks of a source. -/
def marks (cs : List Char) : List Mark := List.zipWith Mark.of (insideCode cs) cs

/-- The source without the blanks outside strings and comments. -/
def withoutBlanks (cs : List Char) : List Char :=
  ((cs.zip (marks cs)).filter fun x => x.2 ≠ .blank).map Prod.fst

/-! ### Runs and chunks -/

/-- A delimiter stands at a position. -/
def IsDelimiter (ms : List Mark) (i : Nat) : Prop := ms[i]? = some .blank ∨ ms[i]? = some .paren

/-- The positions from `i` up to `j` are a longest run of text. -/
structure IsRun (ms : List Mark) (i j : Nat) : Prop where
  nonempty : i < j
  text : ∀ k, i ≤ k → k < j → ms[k]? = some .text
  left : i = 0 ∨ IsDelimiter ms (i - 1)
  right : j = ms.length ∨ IsDelimiter ms j

/-- The positions from `i` up to `j` are a chunk: a longest run of text, or a
    paren. -/
def IsChunk (ms : List Mark) (i j : Nat) : Prop :=
  IsRun ms i j ∨ (j = i + 1 ∧ ms[i]? = some .paren)

/-- The characters from one position up to another. -/
def slice (cs : List Char) (span : Nat × Nat) : List Char := (cs.take span.2).drop span.1

/-! ### Marks of a longer source -/

/-- Whether each character is inside a string or a comment, by the region at first. -/
def insideFrom : Region → List Char → List Bool
  | .code => insideCode
  | .string => insideString
  | .comment => insideComment

@[simp] theorem insideFrom_nil (r : Region) : insideFrom r [] = [] := by
  cases r <;> rfl

theorem insideFrom_cons (r : Region) (c : Char) (cs : List Char) :
    insideFrom r (c :: cs) = decide (r.next c ≠ .code) :: insideFrom (r.next c) cs := by
  cases r with
  | code =>
    by_cases hquote : c = '"'
    · subst hquote
      rfl
    · by_cases hsemicolon : c = ';'
      · subst hsemicolon
        rfl
      · simp [insideFrom, insideCode, Region.next, hquote, hsemicolon]
  | string =>
    by_cases hquote : c = '"'
    · subst hquote
      rfl
    · simp [insideFrom, insideString, Region.next, hquote]
  | comment =>
    by_cases hnewline : c = '\n'
    · subst hnewline
      rfl
    · simp [insideFrom, insideComment, Region.next, hnewline]

theorem length_insideFrom (r : Region) (cs : List Char) : (insideFrom r cs).length = cs.length := by
  induction cs generalizing r with
  | nil => simp
  | cons c cs ih => rw [insideFrom_cons, List.length_cons, List.length_cons, ih]

theorem insideFrom_append (r : Region) (cs : List Char) (c : Char) :
    insideFrom r (cs ++ [c]) =
      insideFrom r cs ++ [decide ((cs.foldl Region.next r).next c ≠ .code)] := by
  induction cs generalizing r with
  | nil =>
    rw [List.nil_append, insideFrom_cons, insideFrom_nil, insideFrom_nil]
    rfl
  | cons d cs ih =>
    rw [List.cons_append, insideFrom_cons, insideFrom_cons, ih, List.foldl_cons, List.cons_append]

theorem Scan.region_step (s : Scan) (c : Char) : (s.step c).region = s.region.next c := by
  rcases s.step_cases c with ⟨hcode, _, hs⟩ | ⟨hcode, _, hs⟩ | ⟨_, hs⟩
  · rw [hs, hcode]
  · rw [hs, hcode]
  · rw [hs]

theorem Scan.region_run (s : Scan) (cs : List Char) :
    (s.run cs).region = cs.foldl Region.next s.region := by
  induction cs generalizing s with
  | nil => rfl
  | cons c cs ih =>
    show ((s.step c).run cs).region = cs.foldl Region.next (s.region.next c)
    rw [ih, region_step]

/-- The mark of a character that the scan reads next. -/
def Scan.mark (s : Scan) (c : Char) : Mark := Mark.of (decide (s.region.next c ≠ .code)) c

@[simp] theorem length_marks (cs : List Char) : (marks cs).length = cs.length := by
  have hlength := length_insideFrom .code cs
  simp only [insideFrom] at hlength
  simp [marks, hlength]

/-- One more character adds one mark, by the region in which the scan stands. -/
theorem marks_append (cs : List Char) (c : Char) :
    marks (cs ++ [c]) = marks cs ++ [(Scan.start.run cs).mark c] := by
  have hinside := insideFrom_append .code cs c
  have hlength := length_insideFrom .code cs
  simp only [insideFrom] at hinside hlength
  unfold marks Scan.mark
  rw [hinside, List.zipWith_append hlength, Scan.region_run]
  rfl

/-- The mark of a character says what the scan does with it. -/
theorem Scan.step_of_mark (s : Scan) (c : Char) :
    match s.mark c with
    | .text => s.step c = { region := s.region.next c, pending := c :: s.pending, done := s.done }
    | .blank => s.step c = { region := .code, pending := [], done := s.flush.done }
    | .paren => s.step c = { region := .code, pending := [], done := [c] :: s.flush.done } := by
  unfold mark Mark.of
  rcases s.step_cases c with ⟨hcode, hblank, hs⟩ | ⟨hcode, hp, hs⟩ | ⟨hkeep, hs⟩
  · simp only [hcode, hblank]
    exact hs
  · simp only [hcode, isBlank_of_isParen hp, isParen_iff.mp hp]
    exact hs
  · by_cases hcode : s.region.next c = .code
    · obtain ⟨hblank, hp⟩ := hkeep hcode
      have hnot : ¬ (c = '(' ∨ c = ')') := by
        rw [← isParen_iff, hp]
        decide
      simp only [hcode, hblank, hnot]
      rw [hcode] at hs
      exact hs
    · simp only [decide_eq_true hcode]
      exact hs

/-! ### Chunks that have ended -/

/-- A chunk that no further character can change: a paren, or a run of text with a
    delimiter after it. -/
def HasEnded (ms : List Mark) (i j : Nat) : Prop :=
  (IsRun ms i j ∧ IsDelimiter ms j) ∨ (j = i + 1 ∧ ms[i]? = some .paren)

theorem getElem?_append_singleton_eq_some {ms : List Mark} {m a : Mark} {i : Nat}
    (h : (ms ++ [m])[i]? = some a) : ms[i]? = some a ∨ (i = ms.length ∧ m = a) := by
  by_cases hi : i < ms.length
  · rw [List.getElem?_append_left hi] at h
    exact .inl h
  · obtain ⟨hlt, _⟩ := List.getElem?_eq_some_iff.mp h
    rw [List.length_append, List.length_singleton] at hlt
    have hlast : i = ms.length := by omega
    subst hlast
    rw [List.getElem?_concat_length] at h
    exact .inr ⟨rfl, Option.some.inj h⟩

theorem getElem?_append_of_eq_some {ms : List Mark} {a : Mark} {i : Nat} (m : Mark)
    (h : ms[i]? = some a) : (ms ++ [m])[i]? = some a := by
  obtain ⟨hlt, _⟩ := List.getElem?_eq_some_iff.mp h
  rw [List.getElem?_append_left hlt]
  exact h

namespace IsDelimiter

variable {ms : List Mark} {i : Nat}

theorem lt_length (h : IsDelimiter ms i) : i < ms.length := by
  rcases h with h | h <;> exact (List.getElem?_eq_some_iff.mp h).1

theorem not_text (h : IsDelimiter ms i) : ms[i]? ≠ some .text := by
  intro htext
  rcases h with h | h <;> rw [h] at htext <;> cases htext

theorem append (m : Mark) (h : IsDelimiter ms i) : IsDelimiter (ms ++ [m]) i := by
  rcases h with h | h
  · exact .inl (getElem?_append_of_eq_some m h)
  · exact .inr (getElem?_append_of_eq_some m h)

/-- A delimiter of the longer list is one of the shorter, or the mark added. -/
theorem of_append {m : Mark} (h : IsDelimiter (ms ++ [m]) i) :
    IsDelimiter ms i ∨ (i = ms.length ∧ m ≠ .text) := by
  rcases h with h | h
  · rcases getElem?_append_singleton_eq_some h with h | ⟨hi, rfl⟩
    · exact .inl (.inl h)
    · exact .inr ⟨hi, by decide⟩
  · rcases getElem?_append_singleton_eq_some h with h | ⟨hi, rfl⟩
    · exact .inl (.inr h)
    · exact .inr ⟨hi, by decide⟩

theorem append_self {m : Mark} (hm : m ≠ .text) : IsDelimiter (ms ++ [m]) ms.length := by
  unfold IsDelimiter
  rw [List.getElem?_concat_length]
  cases m with
  | text => exact absurd rfl hm
  | blank => exact .inl rfl
  | paren => exact .inr rfl

end IsDelimiter

/-- A run has ended once a delimiter follows it. -/
theorem IsRun.hasEnded_append {ms : List Mark} {m : Mark} {i j : Nat} (h : IsRun ms i j)
    (hend : IsDelimiter (ms ++ [m]) j) : HasEnded (ms ++ [m]) i j := by
  refine .inl ⟨⟨h.nonempty, ?_, ?_, .inr hend⟩, hend⟩
  · intro k hi hj
    exact getElem?_append_of_eq_some m (h.text k hi hj)
  · exact h.left.imp id fun hleft => hleft.append m

/-- What has ended stays. -/
theorem HasEnded.append {ms : List Mark} {i j : Nat} (m : Mark) (h : HasEnded ms i j) :
    HasEnded (ms ++ [m]) i j := by
  rcases h with ⟨hrun, hend⟩ | ⟨hj, hparen⟩
  · exact hrun.hasEnded_append (hend.append m)
  · exact .inr ⟨hj, getElem?_append_of_eq_some m hparen⟩

/-- The text of a run that ends within the shorter list is text of that list, and the
    run begins there too. -/
theorem IsRun.of_append {ms : List Mark} {m : Mark} {i j : Nat} (h : IsRun (ms ++ [m]) i j)
    (hj : j ≤ ms.length) (hright : j = ms.length ∨ IsDelimiter ms j) : IsRun ms i j := by
  refine ⟨h.nonempty, ?_, ?_, hright⟩
  · intro k hi hk
    rcases getElem?_append_singleton_eq_some (h.text k hi hk) with htext | ⟨hlast, _⟩
    · exact htext
    · omega
  · rcases h.left with hzero | hleft
    · exact .inl hzero
    · rcases hleft.of_append with hleft | ⟨hlast, _⟩
      · exact .inr hleft
      · have := h.nonempty
        omega

/-- One more mark ends nothing but the run before it, and itself if it is a paren. -/
theorem HasEnded.of_append {ms : List Mark} {m : Mark} {i j : Nat}
    (h : HasEnded (ms ++ [m]) i j) :
    HasEnded ms i j ∨ (m ≠ .text ∧ j = ms.length ∧ IsRun ms i j) ∨
      (m = .paren ∧ i = ms.length ∧ j = ms.length + 1) := by
  rcases h with ⟨hrun, hend⟩ | ⟨rfl, hparen⟩
  · rcases hend.of_append with hend | ⟨hj, hm⟩
    · have hle : j ≤ ms.length := Nat.le_of_lt hend.lt_length
      exact .inl (.inl ⟨hrun.of_append hle (.inr hend), hend⟩)
    · exact .inr (.inl ⟨hm, hj, hrun.of_append (Nat.le_of_eq hj) (.inl hj)⟩)
  · rcases getElem?_append_singleton_eq_some hparen with hparen | ⟨hi, hm⟩
    · exact .inl (.inr ⟨rfl, hparen⟩)
    · exact .inr (.inr ⟨hm, hi, by rw [hi]⟩)

/-- A blank after the last character ends every chunk. -/
theorem hasEnded_append_blank_iff {ms : List Mark} {i j : Nat} :
    HasEnded (ms ++ [.blank]) i j ↔ IsChunk ms i j := by
  constructor
  · intro h
    rcases h.of_append with hended | ⟨_, _, hrun⟩ | ⟨hm, _⟩
    · exact hended.imp And.left id
    · exact .inl hrun
    · cases hm
  · intro h
    rcases h with hrun | hparen
    · rcases hrun.right with hj | hend
      · subst hj
        exact hrun.hasEnded_append (IsDelimiter.append_self (by decide))
      · exact HasEnded.append _ (.inl ⟨hrun, hend⟩)
    · exact HasEnded.append _ (.inr hparen)

/-! ### The invariant of the scan -/

/-- The marks are cut into the spans of the chunks that have ended and, from `k` on, the
    text of the chunk being read. -/
structure Cut (ms : List Mark) (spans : List (Nat × Nat)) (k : Nat) : Prop where
  le_length : k ≤ ms.length
  text : ∀ i, k ≤ i → i < ms.length → ms[i]? = some .text
  left : k = 0 ∨ IsDelimiter ms (k - 1)
  ordered : spans.Pairwise fun a b => a.2 ≤ b.1
  before : ∀ span ∈ spans, span.2 ≤ k
  mem_iff : ∀ i j, (i, j) ∈ spans ↔ HasEnded ms i j

/-- The span from `k` up to `n`, if there is anything in it. -/
def spanOf (k n : Nat) : List (Nat × Nat) := if k < n then [(k, n)] else []

/-- The span of a mark at `n` that is a chunk of its own. -/
def Mark.ownSpan (m : Mark) (n : Nat) : List (Nat × Nat) := if m = .paren then [(n, n + 1)] else []

theorem mem_spanOf {k n : Nat} {span : Nat × Nat} : span ∈ spanOf k n ↔ k < n ∧ span = (k, n) := by
  by_cases h : k < n <;> simp [spanOf, h]

theorem Mark.mem_ownSpan {m : Mark} {n : Nat} {span : Nat × Nat} :
    span ∈ m.ownSpan n ↔ m = .paren ∧ span = (n, n + 1) := by
  by_cases h : m = .paren <;> simp [ownSpan, h]

namespace Cut

variable {ms : List Mark} {spans : List (Nat × Nat)} {k : Nat}

protected theorem nil : Cut [] [] 0 where
  le_length := Nat.le_refl 0
  text := fun i _ hi => absurd hi (Nat.not_lt_zero i)
  left := .inl rfl
  ordered := .nil
  before := by simp
  mem_iff := by
    intro i j
    constructor
    · intro h
      cases h
    · rintro (⟨_, hend⟩ | ⟨_, hparen⟩)
      · exact absurd hend.lt_length (Nat.not_lt_zero j)
      · cases hparen

/-- The text from `k` on is a run. -/
theorem isRun (h : Cut ms spans k) (hk : k < ms.length) : IsRun ms k ms.length :=
  ⟨hk, h.text, h.left, .inl rfl⟩

/-- No other run reaches the end: one that began earlier would hold the delimiter before
    `k`, and one that began later would have text before it. -/
theorem eq_of_isRun (h : Cut ms spans k) {i : Nat} (hrun : IsRun ms i ms.length) : i = k := by
  have hnonempty := hrun.nonempty
  have hle := h.le_length
  rcases Nat.lt_trichotomy i k with hlt | heq | hgt
  · rcases h.left with hzero | hleft
    · omega
    · have htext := hrun.text (k - 1) (by omega) (by omega)
      exact absurd htext hleft.not_text
  · exact heq
  · rcases hrun.left with hzero | hleft
    · omega
    · have htext := h.text (i - 1) (by omega) (by omega)
      exact absurd htext hleft.not_text

/-- Text goes on with the chunk being read. -/
theorem append_text (h : Cut ms spans k) : Cut (ms ++ [.text]) spans k where
  le_length := by
    have hle := h.le_length
    rw [List.length_append, List.length_singleton]
    omega
  text := by
    intro i hk hi
    rw [List.length_append, List.length_singleton] at hi
    by_cases hlt : i < ms.length
    · exact getElem?_append_of_eq_some _ (h.text i hk hlt)
    · have hlast : i = ms.length := by omega
      rw [hlast, List.getElem?_concat_length]
  left := h.left.imp id fun hleft => hleft.append _
  ordered := h.ordered
  before := h.before
  mem_iff := by
    intro i j
    rw [h.mem_iff]
    constructor
    · exact HasEnded.append _
    · intro hended
      rcases hended.of_append with hended | ⟨hm, _⟩ | ⟨hm, _⟩
      · exact hended
      · exact absurd rfl hm
      · cases hm

/-- A delimiter ends the chunk being read and, if it is a paren, is the next one. -/
theorem append_delimiter (h : Cut ms spans k) {m : Mark} (hm : m ≠ .text) :
    Cut (ms ++ [m]) (spans ++ spanOf k ms.length ++ m.ownSpan ms.length) (ms.length + 1) where
  le_length := by simp
  text := by
    intro i hk hi
    rw [List.length_append, List.length_singleton] at hi
    omega
  left := .inr (IsDelimiter.append_self hm)
  ordered := by
    have hle := h.le_length
    rw [List.pairwise_append, List.pairwise_append]
    refine ⟨⟨h.ordered, ?_, ?_⟩, ?_, ?_⟩
    · unfold spanOf
      split <;> simp
    · intro a ha b hb
      obtain ⟨_, rfl⟩ := mem_spanOf.mp hb
      exact h.before a ha
    · unfold Mark.ownSpan
      split <;> simp
    · intro a ha b hb
      obtain ⟨_, rfl⟩ := Mark.mem_ownSpan.mp hb
      rcases List.mem_append.mp ha with ha | ha
      · exact Nat.le_trans (h.before a ha) hle
      · obtain ⟨_, rfl⟩ := mem_spanOf.mp ha
        exact Nat.le_refl _
  before := by
    intro span hspan
    have hle := h.le_length
    rcases List.mem_append.mp hspan with hspan | hspan
    · rcases List.mem_append.mp hspan with hspan | hspan
      · have := h.before span hspan
        omega
      · obtain ⟨_, rfl⟩ := mem_spanOf.mp hspan
        exact Nat.le_succ _
    · obtain ⟨_, rfl⟩ := Mark.mem_ownSpan.mp hspan
      exact Nat.le_refl _
  mem_iff := by
    intro i j
    rw [List.mem_append, List.mem_append, h.mem_iff, mem_spanOf, Mark.mem_ownSpan]
    constructor
    · rintro ((hended | ⟨hk, hspan⟩) | ⟨hparen, hspan⟩)
      · exact hended.append m
      · cases hspan
        exact (h.isRun hk).hasEnded_append (IsDelimiter.append_self hm)
      · cases hspan
        subst hparen
        exact .inr ⟨rfl, List.getElem?_concat_length⟩
    · intro hended
      rcases hended.of_append with hended | ⟨_, rfl, hrun⟩ | ⟨hparen, rfl, rfl⟩
      · exact .inl (.inl hended)
      · -- The run that reaches the end is the chunk being read.
        have hi := h.eq_of_isRun hrun
        subst hi
        exact .inl (.inr ⟨hrun.nonempty, rfl⟩)
      · exact .inr ⟨hparen, rfl⟩

end Cut

/-! ### The scan cuts the source -/

/-- Spans within what was read are not changed by a further character. -/
theorem map_slice_append {cs : List Char} {spans : List (Nat × Nat)} (c : Char)
    (h : ∀ span ∈ spans, span.2 ≤ cs.length) :
    spans.map (slice (cs ++ [c])) = spans.map (slice cs) := by
  apply List.map_congr_left
  intro span hspan
  unfold slice
  rw [List.take_append_of_le_length (h span hspan)]

theorem slice_length (cs : List Char) (k : Nat) : slice cs (k, cs.length) = cs.drop k := by
  unfold slice
  rw [List.take_length]

theorem slice_last (cs : List Char) (c : Char) :
    slice (cs ++ [c]) (cs.length, cs.length + 1) = [c] := by
  have hlength : cs.length + 1 = (cs ++ [c]).length := by simp
  rw [hlength, slice_length, List.drop_left]

/-- The state of the scan at a cut: the chunks read so far are the spans, and the chunk
    being read is what stands after them. -/
structure Scan.At (s : Scan) (cs : List Char) (spans : List (Nat × Nat)) (k : Nat) : Prop where
  cut : Cut (marks cs) spans k
  pending : s.pending.reverse = cs.drop k
  done : s.done.reverse = spans.map (slice cs)

namespace Scan.At

variable {s : Scan} {cs : List Char} {spans : List (Nat × Nat)} {k : Nat}

theorem span_le (h : s.At cs spans k) : ∀ span ∈ spans, span.2 ≤ cs.length := by
  intro span hspan
  have hle := h.cut.le_length
  rw [length_marks] at hle
  exact Nat.le_trans (h.cut.before span hspan) hle

/-- At the end of a chunk its span is added. -/
theorem flush_done (h : s.At cs spans k) :
    s.flush.done.reverse = (spans ++ spanOf k cs.length).map (slice cs) := by
  by_cases hk : k < cs.length
  · have hne : s.pending ≠ [] := by
      intro hnil
      have hlength := congrArg List.length h.pending
      rw [hnil, List.length_drop] at hlength
      simp only [List.reverse_nil, List.length_nil] at hlength
      omega
    rw [flush_of_ne_nil hne, List.reverse_cons, h.done, h.pending, ← slice_length]
    simp [spanOf, hk]
  · have hnil : s.pending = [] := by
      have hdrop : cs.drop k = [] := List.drop_eq_nil_of_le (Nat.le_of_not_lt hk)
      rw [← List.reverse_eq_nil_iff, h.pending, hdrop]
    rw [flush_of_nil hnil, h.done]
    simp [spanOf, hk]

/-- The same spans, with a further character in sight. -/
theorem flush_done_append (h : s.At cs spans k) (c : Char) :
    s.flush.done.reverse = (spans ++ spanOf k cs.length).map (slice (cs ++ [c])) := by
  rw [map_slice_append, h.flush_done]
  intro span hspan
  rcases List.mem_append.mp hspan with hspan | hspan
  · exact h.span_le span hspan
  · obtain ⟨_, rfl⟩ := mem_spanOf.mp hspan
    exact Nat.le_refl _

/-- A step leads from cut to cut, when the mark it reads is the next one of the
    source. -/
theorem step (h : s.At cs spans k) {c : Char} (hs : marks (cs ++ [c]) = marks cs ++ [s.mark c]) :
    ∃ spans' k', (s.step c).At (cs ++ [c]) spans' k' := by
  have hle := h.cut.le_length
  rw [length_marks] at hle
  have hstep := s.step_of_mark c
  have hcut (hm : s.mark c ≠ .text) :
      Cut (marks (cs ++ [c])) (spans ++ spanOf k cs.length ++ (s.mark c).ownSpan cs.length)
        (cs.length + 1) := by
    have hcut := h.cut.append_delimiter hm
    rw [length_marks, ← hs] at hcut
    exact hcut
  cases hmark : s.mark c with
  | text =>
    rw [hmark] at hs hstep
    refine ⟨spans, k, ?_, ?_, ?_⟩
    · rw [hs]
      exact h.cut.append_text
    · rw [hstep, List.reverse_cons, h.pending, List.drop_append_of_le_length hle]
    · rw [hstep, map_slice_append c h.span_le]
      exact h.done
  | blank =>
    rw [hmark] at hcut hstep
    refine ⟨_, _, hcut (by decide), ?_, ?_⟩
    · rw [hstep]
      simp
    · rw [hstep, List.map_append, ← h.flush_done_append]
      simp [Mark.ownSpan]
  | paren =>
    rw [hmark] at hcut hstep
    refine ⟨_, _, hcut (by decide), ?_, ?_⟩
    · rw [hstep]
      simp
    · rw [hstep, List.map_append, ← h.flush_done_append]
      simp [Mark.ownSpan, slice_last]

end Scan.At

/-- After every text the scan stands at a cut. -/
theorem Scan.exists_at (cs : List Char) : ∃ spans k, (start.run cs).At cs spans k := by
  -- On the text from its end, since the scan appends.
  induction cs using List.reverseRecOn with
  | nil => exact ⟨[], 0, Cut.nil, rfl, rfl⟩
  | append_singleton cs c ih =>
    obtain ⟨spans, k, hat⟩ := ih
    rw [run_append]
    exact hat.step (marks_append cs c)

/-- The chunks of a text are the spans of its runs and parens, in order. -/
theorem Scan.exists_spans (cs : List Char) :
    ∃ spans : List (Nat × Nat), spans.Pairwise (fun a b => a.2 ≤ b.1) ∧
      (∀ i j, (i, j) ∈ spans ↔ IsChunk (marks cs) i j) ∧
      (start.run cs).chunks = spans.map (slice cs) := by
  obtain ⟨spans, k, hat⟩ := exists_at cs
  -- The end of the text ends the last chunk just as a blank would.
  have hcut := hat.cut.append_delimiter (m := .blank) (by decide)
  rw [length_marks] at hcut
  have hown : Mark.ownSpan .blank cs.length = [] := rfl
  rw [hown, List.append_nil] at hcut
  refine ⟨spans ++ spanOf k cs.length, hcut.ordered, ?_, hat.flush_done⟩
  intro i j
  rw [hcut.mem_iff, hasEnded_append_blank_iff]

/-! ### What the chunks hold -/

/-- All characters in the chunks of a scan, the one being read included. -/
def Scan.held (s : Scan) : List Char := s.done.reverse.flatten ++ s.pending.reverse

theorem Scan.flatten_flush_done (s : Scan) : s.flush.done.reverse.flatten = s.held := by
  by_cases h : s.pending = []
  · simp [flush_of_nil h, held, h]
  · simp [flush_of_ne_nil h, held]

/-- A step holds on to every character but a blank. -/
theorem Scan.held_step (s : Scan) (c : Char) :
    (s.step c).held = s.held ++ if s.mark c = .blank then [] else [c] := by
  have hstep := s.step_of_mark c
  have hflush := s.flatten_flush_done
  cases hmark : s.mark c with
  | text =>
    rw [hmark] at hstep
    simp [hstep, held]
  | blank =>
    rw [hmark] at hstep
    rw [hstep, if_pos rfl, ← hflush]
    simp [held]
  | paren =>
    rw [hmark] at hstep
    rw [hstep, if_neg (by decide), ← hflush]
    simp [held]

theorem withoutBlanks_append (cs : List Char) (c : Char) :
    withoutBlanks (cs ++ [c]) =
      withoutBlanks cs ++ if (Scan.start.run cs).mark c = .blank then [] else [c] := by
  unfold withoutBlanks
  rw [marks_append, List.zip_append (length_marks cs).symm, List.filter_append, List.map_append]
  by_cases hblank : (Scan.start.run cs).mark c = .blank <;> simp [hblank]

theorem Scan.held_run (cs : List Char) : (start.run cs).held = withoutBlanks cs := by
  induction cs using List.reverseRecOn with
  | nil => rfl
  | append_singleton cs c ih =>
    rw [run_append, withoutBlanks_append, ← ih]
    exact held_step _ c

/-- A chunk has its positions within the source, and at least one of them. -/
theorem IsChunk.lt_and_le {ms : List Mark} {i j : Nat} (h : IsChunk ms i j) :
    i < j ∧ j ≤ ms.length := by
  rcases h with hrun | ⟨rfl, hparen⟩
  · refine ⟨hrun.nonempty, ?_⟩
    rcases hrun.right with hlast | hend
    · exact Nat.le_of_eq hlast
    · exact Nat.le_of_lt hend.lt_length
  · exact ⟨Nat.lt_succ_self i, (List.getElem?_eq_some_iff.mp hparen).1⟩

theorem slice_ne_nil {cs : List Char} {i j : Nat} (h : IsChunk (marks cs) i j) :
    slice cs (i, j) ≠ [] := by
  obtain ⟨hlt, hle⟩ := h.lt_and_le
  rw [length_marks] at hle
  intro hnil
  have hlength := congrArg List.length hnil
  simp only [slice, List.length_drop, List.length_take, List.length_nil] at hlength
  omega

/-- The chunks of a source are, in its order, its longest runs of text and its parens
    outside strings and comments.  So together they are the source without the blanks
    outside strings and comments, and none is empty. -/
theorem chunks_eq_runs_and_parens (source : String) :
    (∃ spans : List (Nat × Nat), spans.Pairwise (fun a b => a.2 ≤ b.1) ∧
      (∀ i j, (i, j) ∈ spans ↔ IsChunk (marks source.toList) i j) ∧
      chunks source = spans.map fun span => String.ofList (slice source.toList span)) ∧
    String.join (chunks source) = String.ofList (withoutBlanks source.toList) ∧
    ∀ chunk ∈ chunks source, chunk ≠ "" := by
  obtain ⟨spans, hordered, hmem, hchunks⟩ := Scan.exists_spans source.toList
  have hmap : chunks source = spans.map fun span => String.ofList (slice source.toList span) := by
    unfold chunks
    rw [hchunks, List.map_map]
    rfl
  refine ⟨⟨spans, hordered, hmem, hmap⟩, ?_, ?_⟩
  · have hflatten := Scan.flatten_flush_done (Scan.start.run source.toList)
    rw [Scan.held_run] at hflatten
    rw [← String.toList_inj, String.toList_join, String.toList_ofList, ← hflatten]
    unfold chunks Scan.chunks
    rw [List.flatMap_map]
    simp only [String.toList_ofList, List.flatMap_id']
  · intro chunk hchunk hempty
    rw [hmap] at hchunk
    obtain ⟨⟨i, j⟩, hspan, hofList⟩ := List.mem_map.mp hchunk
    have hnil := congrArg String.toList (hofList.trans hempty)
    rw [String.toList_ofList] at hnil
    exact slice_ne_nil ((hmem i j).mp hspan) hnil

end SexpScript
