import SexpScript.Json.Showing
import SexpScript.Proofs.JsonGrammar

/-! # Written JSON strings

    The string that is written for a text is one of its texts, so a reader gives the text back
    (`denotes_quote`, `read_quote`).

    - A character beyond plain ASCII is spelled by its units, and every unit has four
      hexadecimal digits (`denotesUnits_escape`).
    - The units of a text have every surrogate with its partner, so the text comes back from
      them (`ofUnits?_unitsOf`).
-/

namespace SexpScript

namespace Text

theorem hexValue?_digitChar : ∀ d < 16, hexValue? (Nat.digitChar d) = some d := by
  decide

theorem lt_of_mem_units {c : Char} {n : Nat} (h : n ∈ units c) : n < 0x10000 := by
  have hvalid : c.toNat < 0xD800 ∨ 0xDFFF < c.toNat ∧ c.toNat < 0x110000 := c.valid
  unfold units at h
  by_cases hplane : c.toNat < 0x10000
  · rw [if_pos hplane, List.mem_singleton] at h
    omega
  · rw [if_neg hplane, List.mem_cons, List.mem_singleton] at h
    omega

/-- The code point of a character is none of the surrogates. -/
theorem isSurrogate_toNat (c : Char) : isSurrogate c.toNat = false := by
  have hvalid : c.toNat < 0xD800 ∨ 0xDFFF < c.toNat ∧ c.toNat < 0x110000 := c.valid
  simp [isSurrogate, isHigh, isLow]
  omega

/-- The units of a character are its code point, whatever units follow. -/
theorem pointsFrom_units (c : Char) (read rest : List Nat) :
    pointsFrom read (units c ++ rest) = pointsFrom (c.toNat :: read) rest := by
  have hvalid : c.toNat < 0xD800 ∨ 0xDFFF < c.toNat ∧ c.toNat < 0x110000 := c.valid
  unfold units
  by_cases hplane : c.toNat < 0x10000
  · rw [if_pos hplane, List.singleton_append]
    cases rest with
    | nil => rfl
    | cons n rest =>
      have hhigh : isHigh c.toNat = false := by
        have hpoint := isSurrogate_toNat c
        rw [isSurrogate, Bool.or_eq_false_iff] at hpoint
        exact hpoint.1
      rw [pointsFrom, hhigh, Bool.false_and, if_neg Bool.false_ne_true]
  · have hhigh : isHigh (0xD800 + (c.toNat - 0x10000) / 0x400) = true := by
      simp [isHigh]
      omega
    have hlow : isLow (0xDC00 + (c.toNat - 0x10000) % 0x400) = true := by
      simp [isLow]
      omega
    have hpair : ofPair (0xD800 + (c.toNat - 0x10000) / 0x400)
        (0xDC00 + (c.toNat - 0x10000) % 0x400) = c.toNat := by
      unfold ofPair
      omega
    rw [if_neg hplane, List.cons_append, List.singleton_append, pointsFrom, hhigh, hlow,
      Bool.and_self, if_pos rfl, hpair]

theorem pointsFrom_flatMap_units (cs : List Char) (read : List Nat) :
    pointsFrom read (cs.flatMap units) = read.reverse ++ cs.map Char.toNat := by
  induction cs generalizing read with
  | nil => exact (List.append_nil _).symm
  | cons c cs ih =>
    rw [List.flatMap_cons, pointsFrom_units, ih, List.reverse_cons, List.append_assoc,
      List.singleton_append, List.map_cons]

/-- A text comes back from its units. -/
@[simp] theorem ofUnits?_unitsOf (text : String) : ofUnits? (unitsOf text) = some text := by
  have hpoints : points (unitsOf text) = text.toList.map Char.toNat :=
    pointsFrom_flatMap_units text.toList []
  have hsurrogates : ¬(text.toList.map Char.toNat).any isSurrogate = true := by
    simp [isSurrogate_toNat]
  rw [ofUnits?, hpoints, if_neg hsurrogates, List.map_map]
  simp [Function.comp_def]

end Text

namespace Json

/-! ### Strings -/

theorem denotesUnits_spellUnit {n : Nat} (h : n < 0x10000) : DenotesUnits (spellUnit n) [n] := by
  have hdigits : hex4? (Nat.digitChar (n / 16 / 16 / 16 % 16)) (Nat.digitChar (n / 16 / 16 % 16))
      (Nat.digitChar (n / 16 % 16)) (Nat.digitChar (n % 16)) = some n := by
    unfold hex4?
    rw [Text.hexValue?_digitChar _ (Nat.mod_lt _ (by decide)),
      Text.hexValue?_digitChar _ (Nat.mod_lt _ (by decide)),
      Text.hexValue?_digitChar _ (Nat.mod_lt _ (by decide)),
      Text.hexValue?_digitChar _ (Nat.mod_lt _ (by decide))]
    show some _ = some n
    rw [Option.some.injEq]
    omega
  exact .unit hdigits .nil

theorem denotesUnits_flatMap_spellUnit {ns : List Nat} (h : ∀ n ∈ ns, n < 0x10000) :
    DenotesUnits (ns.flatMap spellUnit) ns := by
  induction ns with
  | nil => exact .nil
  | cons n ns ih =>
    have hn := denotesUnits_spellUnit (h n List.mem_cons_self)
    have hns := ih fun m hm => h m (List.mem_cons_of_mem n hm)
    exact hn.append hns

/-- A character of a written string stands for its units. -/
theorem denotesUnits_escape (c : Char) : DenotesUnits (escape c) (Text.units c) := by
  unfold escape
  split
  · next h =>
    subst h
    exact .short rfl .nil
  split
  · next h =>
    subst h
    exact .short rfl .nil
  split
  · next h =>
    subst h
    exact .short rfl .nil
  split
  · next h =>
    subst h
    exact .short rfl .nil
  split
  · next h =>
    subst h
    exact .short rfl .nil
  split
  · next h =>
    rw [Text.units, h]
    exact .short rfl .nil
  split
  · next h =>
    rw [Text.units, h]
    exact .short rfl .nil
  split
  · next hquote hescape _ _ _ _ _ hplain =>
    have hc := DenotesUnits.plain hquote hescape hplain.1 .nil
    rwa [List.append_nil] at hc
  · exact denotesUnits_flatMap_spellUnit fun n hn => Text.lt_of_mem_units hn

theorem denotesUnits_flatMap_escape (cs : List Char) :
    DenotesUnits (cs.flatMap escape) (cs.flatMap Text.units) := by
  induction cs with
  | nil => exact .nil
  | cons c cs ih => exact (denotesUnits_escape c).append ih

/-- A written text denotes the string of the text. -/
theorem denotes_quote (text : String) : Denotes (quote text).toList (.ofText text) := by
  unfold quote
  rw [String.toList_ofList]
  exact .string (denotesUnits_flatMap_escape text.toList)

theorem isGap_nil : IsGap [] := List.forall_mem_nil _

/-- A field is a written name and any text of its value. -/
theorem denotesField_quote (name : String) {cs : List Char} {value : Json} (h : Denotes cs value) :
    DenotesField ((quote name).toList ++ ':' :: cs) (Text.unitsOf name, value) := by
  have hfield := DenotesField.colon (denotesUnits_flatMap_escape name.toList) isGap_nil isGap_nil h
  simpa [quote, Text.unitsOf] using hfield

/-- A text is read from its string. -/
theorem read_quote (text : String) : read (quote text) = .ok (.ofText text) := by
  have hread := read_of_denotes (denotes_quote text) isGap_nil
  rwa [List.append_nil, String.ofList_toList] at hread

/-- What is shown of the string of a text is the text. -/
@[simp] theorem display?_ofText (text : String) : (ofText text).display? = some text :=
  Text.ofUnits?_unitsOf text

end Json

end SexpScript
