import Mathlib.Computability.Language
import SexpScript.Token.Numeral

/-! # The language of numerals

    A text counts as a number if it begins with a word of a regular language, after blanks.  The
    word may have a sign, a fraction and an exponent, and the text is looked at no further than its
    first digit.

    - `Begins` says that a first part of a text is a word of a language, and there is one law for
      each way to put languages together.  A part at the end of a word that may be left out has no
      say in it (`begins_mul_of_nil_mem`): fraction and exponent are such parts.
    - What is left to look at is how an unsigned number opens (`Opening`, `begins_unsigned_iff`).
    - The chunks that count as numbers are those that begin so, and they still do when more text
      follows (`isNumeral_iff_begins_numeral`).
-/

namespace SexpScript.Token

open Computability

/-! ### Texts that begin with a word -/

/-- A first part of the text is a word of the language. -/
def Begins (l : Language Char) (cs : List Char) : Prop := ∃ w ∈ l, w <+: cs

/-- The words of one letter that is such that `p`. -/
def letter (p : Char → Prop) : Language Char := {w | ∃ c, p c ∧ w = [c]}

/-- The words of a language, and the empty word. -/
def maybe (l : Language Char) : Language Char := 1 + l

section begins
variable {l m : Language Char} {p : Char → Prop} {cs : List Char}

theorem nil_mem_maybe (l : Language Char) : [] ∈ maybe l := .inl rfl

theorem Begins.append (h : Begins l cs) (more : List Char) : Begins l (cs ++ more) := by
  obtain ⟨w, hw, hprefix⟩ := h
  exact ⟨w, hw, hprefix.trans (List.prefix_append cs more)⟩

theorem begins_singleton_iff {w : List Char} : Begins {w} cs ↔ w <+: cs := by
  constructor
  · rintro ⟨_, rfl, hprefix⟩
    exact hprefix
  · intro hprefix
    exact ⟨w, rfl, hprefix⟩

theorem begins_add_iff : Begins (l + m) cs ↔ Begins l cs ∨ Begins m cs := by
  constructor
  · rintro ⟨w, hl | hm, hprefix⟩
    · exact .inl ⟨w, hl, hprefix⟩
    · exact .inr ⟨w, hm, hprefix⟩
  · rintro (⟨w, hl, hprefix⟩ | ⟨w, hm, hprefix⟩)
    · exact ⟨w, .inl hl, hprefix⟩
    · exact ⟨w, .inr hm, hprefix⟩

theorem begins_letter_mul_iff :
    Begins (letter p * m) cs ↔ ∃ c rest, cs = c :: rest ∧ p c ∧ Begins m rest := by
  constructor
  · rintro ⟨_, ⟨_, ⟨c, hc, rfl⟩, v, hv, rfl⟩, rest, rfl⟩
    exact ⟨c, v ++ rest, rfl, hc, v, hv, List.prefix_append v rest⟩
  · rintro ⟨c, rest, rfl, hc, v, hv, hprefix⟩
    exact ⟨[c] ++ v, Language.append_mem_mul ⟨c, hc, rfl⟩ hv, List.prefix_cons_inj c |>.mpr hprefix⟩

/-- What may be left out at the end of a word does not matter. -/
theorem begins_mul_of_nil_mem (h : [] ∈ m) : Begins (l * m) cs ↔ Begins l cs := by
  constructor
  · rintro ⟨_, ⟨u, hu, v, _, rfl⟩, hprefix⟩
    exact ⟨u, hu, (List.prefix_append u v).trans hprefix⟩
  · rintro ⟨u, hu, hprefix⟩
    have hmem : u ++ [] ∈ l * m := Language.append_mem_mul hu h
    rw [List.append_nil] at hmem
    exact ⟨u, hmem, hprefix⟩

theorem begins_letter_iff : Begins (letter p) cs ↔ ∃ c rest, cs = c :: rest ∧ p c := by
  have hone : ∀ rest, Begins 1 rest := fun rest => ⟨[], rfl, List.nil_prefix⟩
  rw [← mul_one (letter p), begins_letter_mul_iff]
  constructor
  · rintro ⟨c, rest, hcs, hc, _⟩
    exact ⟨c, rest, hcs, hc⟩
  · rintro ⟨c, rest, hcs, hc⟩
    exact ⟨c, rest, hcs, hc, hone rest⟩

theorem begins_maybe_mul_iff :
    Begins (maybe l * m) cs ↔ Begins m cs ∨ Begins (l * m) cs := by
  rw [maybe, add_mul, one_mul, begins_add_iff]

end begins

/-! ### Numerals -/

/-- A sign. -/
def IsSign (c : Char) : Prop := c = '+' ∨ c = '-'

/-- A decimal digit of any script. -/
def digit : Language Char := letter (Text.isDecimal · = true)

/-- Digits, at least one. -/
def digits : Language Char := digit * digit∗

/-- The point before a fraction. -/
def point : Language Char := letter (· = '.')

/-- Digits with or without a fraction, which may lack its digits, or a fraction alone, which may
    not. -/
def decimal : Language Char := digits * maybe point * digit∗ + point * digits

/-- A power of ten. -/
def exponent : Language Char :=
  letter (fun c => c = 'e' ∨ c = 'E') * maybe (letter IsSign) * digits

/-- Numbers without a sign. -/
def unsigned : Language Char := {"Infinity".toList} + decimal * maybe exponent

/-- The language of numerals. -/
def numeral : Language Char := maybe (letter IsSign) * unsigned

/-- How a number without a sign opens: by the word `Infinity`, by a digit, or by a point before a
    digit. -/
inductive Opening : List Char → Prop
  | infinity {cs : List Char} (h : "Infinity".toList <+: cs) : Opening cs
  | digit {d : Char} {rest : List Char} (h : Text.isDecimal d = true) : Opening (d :: rest)
  | point {d : Char} {rest : List Char} (h : Text.isDecimal d = true) : Opening ('.' :: d :: rest)

section opening
variable {c : Char} {cs : List Char}

theorem begins_digits_iff :
    Begins digits cs ↔ ∃ d rest, cs = d :: rest ∧ Text.isDecimal d = true := by
  rw [digits, begins_mul_of_nil_mem (Language.nil_mem_kstar _), digit, begins_letter_iff]

/-- Neither the fraction nor the exponent has a say. -/
theorem begins_unsigned_iff : Begins unsigned cs ↔ Opening cs := by
  rw [unsigned, begins_add_iff, begins_singleton_iff, begins_mul_of_nil_mem (nil_mem_maybe _),
    decimal, begins_add_iff, begins_mul_of_nil_mem (Language.nil_mem_kstar _),
    begins_mul_of_nil_mem (nil_mem_maybe _), begins_digits_iff, point, begins_letter_mul_iff]
  constructor
  · rintro (h | ⟨d, rest, rfl, hd⟩ | ⟨_, rest, rfl, rfl, h⟩)
    · exact .infinity h
    · exact .digit hd
    · obtain ⟨d, more, rfl, hd⟩ := begins_digits_iff.mp h
      exact .point hd
  · intro h
    cases h with
    | infinity h => exact .inl h
    | digit hd => exact .inr (.inl ⟨_, _, rfl, hd⟩)
    | point hd => exact .inr (.inr ⟨_, _, rfl, rfl, begins_digits_iff.mpr ⟨_, _, rfl, hd⟩⟩)

theorem startsUnsigned_iff : startsUnsigned cs = true ↔ Opening cs := by
  fun_cases startsUnsigned cs with
  | case1 d rest =>
    refine ⟨.point, fun h => ?_⟩
    -- A point is neither a digit nor the first letter of the word.
    cases h with
    | infinity hword => exact absurd (List.cons_prefix_cons.mp hword).1 (by decide)
    | digit hpoint => exact absurd hpoint (by decide)
    | point hd => exact hd
  | case2 c rest hother =>
    rw [Bool.or_eq_true, List.isPrefixOf_iff_prefix]
    constructor
    · rintro (hd | hword)
      · exact .digit hd
      · exact .infinity hword
    · intro h
      cases h with
      | infinity hword => exact .inr hword
      | digit hd => exact .inl hd
      | point => exact (hother _ _ rfl rfl).elim
  | case3 =>
    refine ⟨nofun, fun h => ?_⟩
    cases h with
    | infinity hword => cases List.prefix_nil.mp hword

/-- A number does not open by a sign. -/
theorem Opening.not_isSign (h : Opening (c :: cs)) : ¬ IsSign c := by
  intro hsign
  have hother : 'I' ≠ c ∧ Text.isDecimal c = false ∧ '.' ≠ c := by
    rcases hsign with rfl | rfl
    · decide
    · decide
  obtain ⟨hword, hdigit, hpoint⟩ := hother
  cases h with
  | infinity h => exact hword (List.cons_prefix_cons.mp h).1
  | digit h => exact absurd (hdigit.symm.trans h) Bool.false_ne_true
  | point => exact hpoint rfl

theorem begins_numeral_iff :
    Begins numeral cs ↔ Opening cs ∨ ∃ c rest, cs = c :: rest ∧ IsSign c ∧ Opening rest := by
  simp only [numeral, begins_maybe_mul_iff, begins_letter_mul_iff, begins_unsigned_iff]

/-- One sign may stand before a number. -/
theorem opening_dropSign_iff :
    Opening (dropSign cs) ↔ Opening cs ∨ ∃ c rest, cs = c :: rest ∧ IsSign c ∧ Opening rest := by
  have hsigned : ∀ {c rest}, IsSign c → (Opening rest ↔
      Opening (c :: rest) ∨ ∃ d more, c :: rest = d :: more ∧ IsSign d ∧ Opening more) := by
    intro c rest hc
    constructor
    · intro h
      exact .inr ⟨c, rest, rfl, hc, h⟩
    · rintro (h | ⟨_, _, ⟨⟩, _, h⟩)
      · exact absurd hc h.not_isSign
      · exact h
  fun_cases dropSign cs with
  | case1 rest => exact hsigned (.inl rfl)
  | case2 rest => exact hsigned (.inr rfl)
  | case3 _ hplus hminus =>
    refine ⟨.inl, ?_⟩
    rintro (h | ⟨_, rest, rfl, rfl | rfl, _⟩)
    · exact h
    · exact (hplus rest rfl).elim
    · exact (hminus rest rfl).elim

end opening

/-! ### Chunks that count as numbers -/

theorem isNumeral_iff_opening (text : String) :
    isNumeral text = true ↔ Opening (dropSign (Text.trimStart text.toList)) :=
  startsUnsigned_iff

theorem isNumeral_iff_begins (text : String) :
    isNumeral text = true ↔ Begins numeral (Text.trimStart text.toList) := by
  rw [isNumeral_iff_opening, opening_dropSign_iff, begins_numeral_iff]

theorem isNumeral_append {text : String} (h : isNumeral text = true) (more : String) :
    isNumeral (text ++ more) = true := by
  have hnumber : (Text.trimStart text.toList).isEmpty = false := by
    cases htrim : Text.trimStart text.toList with
    | cons c cs => rfl
    | nil =>
      unfold isNumeral at h
      rw [htrim] at h
      cases h
  -- There is more than blanks in the text, so what follows it is not trimmed.
  have htrim :
      Text.trimStart (text ++ more).toList = Text.trimStart text.toList ++ more.toList := by
    unfold Text.trimStart at hnumber ⊢
    rw [String.toList_append, List.dropWhile_append, hnumber]
    rfl
  rw [isNumeral_iff_begins] at h ⊢
  rw [htrim]
  exact h.append more.toList

/-- A text counts as a number exactly if it begins with a numeral after blanks; exactly if, after
    blanks and at most one sign, it opens by `Infinity`, by a digit or by a point before a digit.
    What follows does not matter. -/
theorem isNumeral_iff_begins_numeral (text : String) :
    let trimmed := Text.trimStart text.toList
    (isNumeral text = true ↔ ∃ w ∈ numeral, w <+: trimmed) ∧
      (isNumeral text = true ↔
        Opening trimmed ∨ ∃ sign rest, trimmed = sign :: rest ∧ IsSign sign ∧ Opening rest) ∧
      (isNumeral text = true → ∀ more, isNumeral (text ++ more) = true) := by
  intro trimmed
  refine ⟨isNumeral_iff_begins text, ?_, isNumeral_append⟩
  rw [isNumeral_iff_opening, opening_dropSign_iff]

/-- A fraction of which the exponent lacks its digits. -/
theorem isNumeral_iff_begins_numeral_fraction :
    isNumeral "\t-.5e+" = true ∧ (∃ w ∈ numeral, w <+: Text.trimStart "\t-.5e+".toList) ∧
      isNumeral ("\t-.5e+" ++ "x") = true := by
  obtain ⟨hbegins, _, happend⟩ := isNumeral_iff_begins_numeral "\t-.5e+"
  have h : isNumeral "\t-.5e+" = true := by decide
  exact ⟨h, hbegins.mp h, happend h "x"⟩

-- A sign or a point alone is no number, and the word has to be whole.
example : ["+", "-.", ".", "-Infinit", "e5"].any isNumeral = false := by decide

end SexpScript.Token
