import Mathlib.Algebra.Ring.Parity
import Mathlib.Data.List.Infix

/-! # Brackets outside double quotes

    How deeply a text is nested, when its double quotes are read in pairs and what
    stands between two of them does not count.

    - `bareFrom` keeps the characters outside quotes, and `quotedAfter` tells on which
      side of the quotes a text ends.
    - `depth` adds up the weights of the bare characters.  Which characters open and
      close is a parameter (`Weighs`): `round` knows parens only, `bracket` square brackets
      too.
    - `Balanced` texts close what they open and nothing else.  They can be put one after
      another, between brackets, and between separators (`Balanced.append`,
      `Balanced.wrap`, `Balanced.intercalate`).
-/

namespace SexpScript

namespace Text

/-! ### Inside and outside quotes -/

/-- Whether the place after a character is inside quotes, by the place before it. -/
def quotedNext (quoted : Bool) (c : Char) : Bool := if c = '"' then !quoted else quoted

/-- Whether a text ends inside quotes, by the place where it begins. -/
def quotedAfter (quoted : Bool) (cs : List Char) : Bool := cs.foldl quotedNext quoted

/-- The characters of a text outside quotes, by the place where it begins.  The quotes
    themselves are not among them. -/
def bareFrom (quoted : Bool) : List Char → List Char
  | [] => []
  | c :: cs =>
      if c = '"' then bareFrom (!quoted) cs
      else if quoted then bareFrom quoted cs
      else c :: bareFrom quoted cs

/-- The characters of a text outside quotes. -/
def bare (cs : List Char) : List Char := bareFrom false cs

/-- A text whose quotes come in pairs. -/
def Closed (cs : List Char) : Prop := quotedAfter false cs = false

instance (cs : List Char) : Decidable (Closed cs) :=
  inferInstanceAs (Decidable (quotedAfter false cs = false))

theorem quotedAfter_append (quoted : Bool) (cs ds : List Char) :
    quotedAfter quoted (cs ++ ds) = quotedAfter (quotedAfter quoted cs) ds :=
  List.foldl_append

theorem bareFrom_append (quoted : Bool) (cs ds : List Char) :
    bareFrom quoted (cs ++ ds) = bareFrom quoted cs ++ bareFrom (quotedAfter quoted cs) ds := by
  induction cs generalizing quoted with
  | nil => rfl
  | cons c cs ih =>
    show bareFrom quoted (c :: (cs ++ ds)) =
      bareFrom quoted (c :: cs) ++ bareFrom (quotedAfter (quotedNext quoted c) cs) ds
    rw [bareFrom, bareFrom, quotedNext]
    by_cases hquote : c = '"'
    · rw [if_pos hquote, if_pos hquote, if_pos hquote]
      exact ih (!quoted)
    · rw [if_neg hquote, if_neg hquote, if_neg hquote]
      cases quoted with
      | true => exact ih true
      | false => exact congrArg (c :: ·) (ih false)

/-- The characters outside quotes, one character at a time. -/
theorem forall_mem_bareFrom_cons {quoted : Bool} {c : Char} {cs : List Char} {P : Char → Prop} :
    (∀ d ∈ bareFrom quoted (c :: cs), P d) ↔
      (quoted = false → c ≠ '"' → P c) ∧ ∀ d ∈ bareFrom (quotedNext quoted c) cs, P d := by
  rw [bareFrom, quotedNext]
  by_cases hquote : c = '"'
  · simp [hquote]
  · cases quoted <;> simp [hquote]

/-- A text ends on the side of the quotes where it begins exactly if it has an even number
    of quotes. -/
theorem quotedAfter_eq_self_iff {quoted : Bool} {cs : List Char} :
    quotedAfter quoted cs = quoted ↔ Even (cs.count '"') := by
  induction cs generalizing quoted with
  | nil => simp [quotedAfter]
  | cons c cs ih =>
    show quotedAfter (quotedNext quoted c) cs = quoted ↔ _
    by_cases hquote : c = '"'
    · subst hquote
      have hother : quotedAfter (!quoted) cs = quoted ↔ ¬ quotedAfter (!quoted) cs = !quoted := by
        cases quotedAfter (!quoted) cs <;> cases quoted <;> decide
      rw [List.count_cons_self, Nat.even_add_one, ← ih]
      exact hother
    · rw [List.count_cons_of_ne hquote, quotedNext, if_neg hquote]
      exact ih

/-- What stands outside quotes is part of the text. -/
theorem bareFrom_sublist (quoted : Bool) (cs : List Char) : (bareFrom quoted cs).Sublist cs := by
  induction cs generalizing quoted with
  | nil => exact .slnil
  | cons c cs ih =>
    rw [bareFrom]
    split
    · exact (ih _).cons c
    · split
      · exact (ih _).cons c
      · exact (ih _).cons_cons c

theorem Closed.nil : Closed [] := rfl

theorem Closed.append {cs ds : List Char} (hcs : Closed cs) (hds : Closed ds) :
    Closed (cs ++ ds) := by
  unfold Closed
  rw [quotedAfter_append, hcs]
  exact hds

theorem Closed.bare_append {cs : List Char} (h : Closed cs) (ds : List Char) :
    bare (cs ++ ds) = bare cs ++ bare ds := by
  unfold bare
  rw [bareFrom_append, h]

theorem closed_singleton {c : Char} (h : c ≠ '"') : Closed [c] := by
  simp [Closed, quotedAfter, quotedNext, h]

theorem bare_singleton {c : Char} (h : c ≠ '"') : bare [c] = [c] := by
  simp [bare, bareFrom, h]

/-! ### Depth -/

/-- The weight of a character where only parens count. -/
def round (c : Char) : Int := if c = '(' then 1 else if c = ')' then -1 else 0

/-- The weight of a character where parens and square brackets count. -/
def bracket (c : Char) : Int :=
  if c = '(' ∨ c = '[' then 1 else if c = ')' ∨ c = ']' then -1 else 0

/-- A weight that counts parens, and square brackets or not, and nothing else. -/
class Weighs (weight : Char → Int) : Prop where
  opening : weight '(' = 1
  closing : weight ')' = -1
  square : weight '[' = 0 ∧ weight ']' = 0 ∨ weight '[' = 1 ∧ weight ']' = -1
  other : ∀ c, c ∉ ['(', ')', '[', ']'] → weight c = 0

/-- Whether a character is neither a quote nor a bracket. -/
def isPlain (c : Char) : Bool := c ≠ '"' && c ∉ ['(', ')', '[', ']']

theorem isPlain_iff {c : Char} : isPlain c = true ↔ c ≠ '"' ∧ c ∉ ['(', ')', '[', ']'] := by
  rw [isPlain, Bool.and_eq_true, decide_eq_true_iff, decide_eq_true_iff]

instance : Weighs round where
  opening := rfl
  closing := rfl
  square := .inl ⟨rfl, rfl⟩
  other := by
    intro c hc
    simp only [List.mem_cons, List.not_mem_nil, or_false, not_or] at hc
    simp [round, hc]

instance : Weighs bracket where
  opening := rfl
  closing := rfl
  square := .inr ⟨rfl, rfl⟩
  other := by
    intro c hc
    simp only [List.mem_cons, List.not_mem_nil, or_false, not_or] at hc
    simp [bracket, hc]

/-- How many brackets a text opens outside quotes, less those that it closes. -/
def depth (weight : Char → Int) (cs : List Char) : Int :=
  (bare cs).foldr (fun c n => weight c + n) 0

section depth
variable {weight : Char → Int}

@[simp] theorem depth_nil : depth weight [] = 0 := rfl

theorem depth_append {cs : List Char} (h : Closed cs) (ds : List Char) :
    depth weight (cs ++ ds) = depth weight cs + depth weight ds := by
  unfold depth
  rw [h.bare_append]
  induction bare cs with
  | nil => simp
  | cons c cs ih =>
    rw [List.cons_append, List.foldr_cons, List.foldr_cons, ih, Int.add_assoc]

theorem depth_singleton {c : Char} (h : c ≠ '"') : depth weight [c] = weight c := by
  simp [depth, bare_singleton h]

theorem depth_cons {c : Char} (h : c ≠ '"') (cs : List Char) :
    depth weight (c :: cs) = weight c + depth weight cs := by
  have happend : depth weight ([c] ++ cs) = depth weight [c] + depth weight cs :=
    depth_append (closed_singleton h) cs
  rw [depth_singleton h] at happend
  exact happend

theorem depth_eq_zero {cs : List Char} (h : ∀ c ∈ bare cs, weight c = 0) :
    depth weight cs = 0 := by
  unfold depth
  revert h
  induction bare cs with
  | nil =>
    intro _
    rfl
  | cons c cs ih =>
    intro h
    obtain ⟨hc, hcs⟩ := List.forall_mem_cons.mp h
    rw [List.foldr_cons, hc, ih hcs, Int.zero_add]

end depth

/-! ### Balanced texts -/

/-- A text that closes what it opens.  Read from left to right, outside quotes, the depth
    never falls below zero, and the text ends at depth zero and outside quotes. -/
structure Balanced (weight : Char → Int) (cs : List Char) : Prop where
  closed : Closed cs
  nonneg : ∀ p, p <+: cs → 0 ≤ depth weight p
  level : depth weight cs = 0

instance (weight : Char → Int) (cs : List Char) : Decidable (Balanced weight cs) :=
  decidable_of_iff (Closed cs ∧ (∀ p ∈ cs.inits, 0 ≤ depth weight p) ∧ depth weight cs = 0)
    ⟨fun ⟨hclosed, hnonneg, hlevel⟩ =>
        ⟨hclosed, fun p hp => hnonneg p ((List.mem_inits p cs).mpr hp), hlevel⟩,
      fun h => ⟨h.closed, fun p hp => h.nonneg p ((List.mem_inits p cs).mp hp), h.level⟩⟩

/-- A prefix of a concatenation ends in the first text or goes on into the second. -/
theorem prefix_append_cases {p cs ds : List Char} (h : p <+: cs ++ ds) :
    p <+: cs ∨ ∃ q, q <+: ds ∧ p = cs ++ q := by
  obtain ⟨rest, hrest⟩ := h
  rcases List.append_eq_append_iff.mp hrest with ⟨more, hcs, _⟩ | ⟨q, hp, hds⟩
  · exact .inl ⟨more, hcs.symm⟩
  · exact .inr ⟨q, ⟨rest, hds.symm⟩, hp⟩

/-- The characters outside quotes of a prefix come first outside quotes of the whole. -/
theorem bare_mono {p cs : List Char} (h : p <+: cs) : bare p <+: bare cs := by
  obtain ⟨ds, rfl⟩ := h
  unfold bare
  rw [bareFrom_append]
  exact List.prefix_append _ _

namespace Balanced

variable {weight : Char → Int} {cs ds : List Char}

/-- A text with no bracket outside its quotes is balanced. -/
theorem of_bare (hclosed : Closed cs) (h : ∀ c ∈ bare cs, weight c = 0) :
    Balanced weight cs where
  closed := hclosed
  nonneg := by
    intro p hp
    have hbare : ∀ c ∈ bare p, weight c = 0 := fun c hc => h c ((bare_mono hp).subset hc)
    exact Int.le_of_eq (depth_eq_zero hbare).symm
  level := depth_eq_zero h

protected theorem nil : Balanced weight [] :=
  of_bare Closed.nil nofun

theorem append (hcs : Balanced weight cs) (hds : Balanced weight ds) :
    Balanced weight (cs ++ ds) where
  closed := hcs.closed.append hds.closed
  nonneg := by
    intro p hp
    rcases prefix_append_cases hp with hp | ⟨q, hq, rfl⟩
    · exact hcs.nonneg p hp
    · rw [depth_append hcs.closed, hcs.level, Int.zero_add]
      exact hds.nonneg q hq
  level := by rw [depth_append hcs.closed, hcs.level, hds.level, Int.zero_add]

/-- A balanced text between two brackets is balanced. -/
theorem wrap {o c : Char} (h : Balanced weight cs) (ho : o ≠ '"') (hc : c ≠ '"')
    (hopen : weight o = 1) (hclose : weight c = -1) : Balanced weight (o :: cs ++ [c]) where
  closed := (closed_singleton ho).append h.closed |>.append (closed_singleton hc)
  nonneg := by
    intro p hp
    cases p with
    | nil => exact Int.le_refl 0
    | cons d p =>
      obtain ⟨rfl, hp'⟩ := List.cons_prefix_cons.mp hp
      rw [depth_cons ho, hopen]
      -- Inside the brackets the text adds to the depth of one, and the last bracket takes
      -- that one away.
      rcases prefix_append_cases hp' with hinner | ⟨q, hq, rfl⟩
      · have hnonneg := h.nonneg p hinner
        omega
      · rw [depth_append h.closed, h.level]
        rcases List.prefix_cons_iff.mp hq with rfl | ⟨rest, rfl, hrest⟩
        · simp
        · obtain rfl := List.prefix_nil.mp hrest
          rw [depth_singleton hc, hclose]
          omega
  level := by
    have hclosed : Closed (o :: cs) := (closed_singleton ho).append h.closed
    rw [depth_append hclosed, depth_cons ho, depth_singleton hc, h.level, hopen, hclose]
    rfl

/-- Balanced texts with balanced separators between them are balanced. -/
theorem intercalate {texts : List (List Char)} (hsep : Balanced weight ds)
    (h : ∀ text ∈ texts, Balanced weight text) : Balanced weight (ds.intercalate texts) := by
  induction texts with
  | nil => exact Balanced.nil
  | cons text texts ih =>
    have htext := h text List.mem_cons_self
    cases texts with
    | nil =>
      rw [List.intercalate_singleton]
      exact htext
    | cons next texts =>
      have htail := ih fun t ht => h t (List.mem_cons_of_mem _ ht)
      rw [List.intercalate_cons_cons]
      exact (htext.append hsep).append htail

/-! ### Balanced strings -/

theorem append_text {a b : String} (ha : Balanced weight a.toList) (hb : Balanced weight b.toList) :
    Balanced weight (a ++ b).toList := by
  rw [String.toList_append]
  exact ha.append hb

theorem intercalate_text {separator : String} {texts : List String}
    (hseparator : Balanced weight separator.toList)
    (h : ∀ text ∈ texts, Balanced weight text.toList) :
    Balanced weight (separator.intercalate texts).toList := by
  rw [String.toList_intercalate]
  apply hseparator.intercalate
  intro cs hcs
  obtain ⟨text, htext, rfl⟩ := List.mem_map.mp hcs
  exact h text htext

section weighs
variable [Weighs weight] {text : String}

/-- A text without brackets and quotes. -/
theorem plain (h : text.toList.all isPlain = true) : Balanced weight text.toList := by
  have hplain : ∀ c ∈ text.toList, c ≠ '"' ∧ c ∉ ['(', ')', '[', ']'] := fun c hc =>
    isPlain_iff.mp (List.all_eq_true.mp h c hc)
  have hclosed : Closed text.toList := by
    have hquote : '"' ∉ text.toList := fun hmem => (hplain _ hmem).1 rfl
    unfold Closed
    rw [quotedAfter_eq_self_iff, List.count_eq_zero.mpr hquote]
    exact Even.zero
  apply of_bare hclosed
  intro c hc
  exact Weighs.other c (hplain c ((bareFrom_sublist _ _).subset hc)).2

theorem parens (h : Balanced weight text.toList) : Balanced weight ("(" ++ text ++ ")").toList := by
  have hlist : ("(" ++ text ++ ")").toList = '(' :: text.toList ++ [')'] := by simp
  rw [hlist]
  exact h.wrap (by decide) (by decide) Weighs.opening Weighs.closing

/-- A balanced text between square brackets is balanced, whether they count or not. -/
theorem squares (h : Balanced weight text.toList) :
    Balanced weight ("[" ++ text ++ "]").toList := by
  have hlist : ("[" ++ text ++ "]").toList = '[' :: text.toList ++ [']'] := by simp
  rw [hlist]
  have hsquare : weight '[' = 0 ∧ weight ']' = 0 ∨ weight '[' = 1 ∧ weight ']' = -1 := Weighs.square
  rcases hsquare with ⟨hopen, hclose⟩ | ⟨hopen, hclose⟩
  · have hsingle {c : Char} (hc : c ≠ '"') (hweight : weight c = 0) : Balanced weight [c] := by
      apply of_bare (closed_singleton hc)
      intro d hd
      rw [bare_singleton hc, List.mem_singleton] at hd
      rw [hd]
      exact hweight
    exact ((hsingle (by decide) hopen).append h).append (hsingle (by decide) hclose)
  · exact h.wrap (by decide) (by decide) hopen hclose

end weighs

end Balanced

end Text

end SexpScript
