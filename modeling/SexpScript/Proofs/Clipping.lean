import Mathlib.Data.String.Basic
import SexpScript.Execution

/-! # How much of an output is kept

    Output over its limit is cut, and a mark stands in the place of the rest.  The limit is
    in bytes and the cut is counted in characters, so a cut text can be longer than its limit.

    - A character has one byte at least and four at most.  `excess` counts those beyond the
      first (`utf8ByteSize_eq`).
    - Room for 32 characters is given up for a mark of 23 bytes, so nine bytes are to spare.
      A cut text keeps to its limit exactly if the excess of what is kept is not greater
      (`clip_respects_iff`); then it is also a proper part of the text that is kept.
-/

namespace SexpScript

namespace Text

/-! ### Bytes and characters -/

/-- The bytes of a text beyond one for each character. -/
def excess (text : String) : Nat := text.utf8ByteSize - text.length

theorem utf8ByteSize_eq_utf8Len (text : String) :
    text.utf8ByteSize = String.utf8Len text.toList := by
  rw [← String.utf8ByteSize_ofList, String.ofList_toList]

theorem utf8Len_bounds (cs : List Char) :
    cs.length ≤ String.utf8Len cs ∧ String.utf8Len cs ≤ 4 * cs.length := by
  induction cs with
  | nil => exact ⟨Nat.le_refl 0, Nat.le_refl 0⟩
  | cons c cs ih =>
    have hpos := c.utf8Size_pos
    have hfour := c.utf8Size_le_four
    rw [String.utf8Len_cons, List.length_cons]
    omega

/-- The characters of ASCII have one byte each. -/
theorem utf8Len_of_ascii {cs : List Char} (h : ∀ c ∈ cs, c.toNat < 0x80) :
    String.utf8Len cs = cs.length := by
  induction cs with
  | nil => rfl
  | cons c cs ih =>
    obtain ⟨hc, hcs⟩ := List.forall_mem_cons.mp h
    have hone : c.utf8Size = 1 := by
      rw [Char.utf8Size_eq_one_iff, UInt32.le_iff_toNat_le]
      exact Nat.le_of_lt_succ hc
    rw [String.utf8Len_cons, List.length_cons, ih hcs, hone]

theorem utf8ByteSize_bounds (text : String) :
    text.length ≤ text.utf8ByteSize ∧ text.utf8ByteSize ≤ 4 * text.length := by
  rw [utf8ByteSize_eq_utf8Len, ← String.length_toList]
  exact utf8Len_bounds text.toList

theorem utf8ByteSize_eq (text : String) : text.utf8ByteSize = text.length + excess text := by
  have hbounds := utf8ByteSize_bounds text
  rw [excess]
  omega

theorem excess_le (text : String) : excess text ≤ 3 * text.length := by
  have hbounds := utf8ByteSize_bounds text
  rw [excess]
  omega

theorem excess_eq_zero {text : String} (h : ∀ c ∈ text.toList, c.toNat < 0x80) :
    excess text = 0 := by
  rw [excess, utf8ByteSize_eq_utf8Len, utf8Len_of_ascii h, String.length_toList, Nat.sub_self]

end Text

namespace Execution

open Text (excess)

/-! ### What a cut keeps -/

/-- The beginning of a text that is kept when it is cut. -/
def kept (text : String) (limit : Int) : String :=
  String.ofList (text.toList.take (limit - cutReserve).toNat)

theorem clip_of_le {text : String} {limit : Int} (h : (text.utf8ByteSize : Int) ≤ limit) :
    clip text limit = (text, false) :=
  if_pos h

theorem clip_of_lt {text : String} {limit : Int} (h : limit < text.utf8ByteSize) :
    clip text limit = (kept text limit ++ cutMark, true) :=
  if_neg (Int.not_le.mpr h)

theorem clip_eq_iff {text : String} {limit : Int} :
    clip text limit = (text, false) ↔ (text.utf8ByteSize : Int) ≤ limit := by
  refine ⟨?_, clip_of_le⟩
  intro hclip
  by_contra hlong
  rw [clip_of_lt (Int.not_le.mp hlong)] at hclip
  cases congrArg Prod.snd hclip

theorem length_kept (text : String) {limit : Int} (h : 32 ≤ limit) :
    ((kept text limit).length : Int) = min (limit - 32) text.length := by
  rw [kept, String.length_ofList, List.length_take, String.length_toList, cutReserve]
  omega

/-- All is kept of a text that has no more characters than a cut keeps. -/
theorem kept_eq_iff {text : String} {limit : Int} (h : 32 ≤ limit) :
    kept text limit = text ↔ (text.length : Int) ≤ limit - 32 := by
  constructor
  · intro hkept
    have hlength := length_kept text h
    rw [hkept] at hlength
    omega
  · intro hshort
    have htake : text.toList.length ≤ (limit - cutReserve).toNat := by
      rw [String.length_toList, cutReserve]
      omega
    rw [kept, List.take_of_length_le htake, String.ofList_toList]

/-! ### The limit -/

/-- What a limit asks of a cut: the text is within it, it is the whole text exactly if that is
    within the limit, and otherwise a proper beginning of it and the mark. -/
structure Respects (limit : Int) (text : String) (clipped : String × Bool) : Prop where
  size : (clipped.1.utf8ByteSize : Int) ≤ limit
  whole : clipped = (text, false) ↔ (text.utf8ByteSize : Int) ≤ limit
  cut : limit < text.utf8ByteSize →
    ∃ head, head.toList <+: text.toList ∧ head ≠ text ∧ clipped = (head ++ cutMark, true)

theorem size_of_cut (text : String) (limit : Int) :
    (kept text limit ++ cutMark).utf8ByteSize =
      (kept text limit).length + excess (kept text limit) + 23 := by
  rw [String.utf8ByteSize_append, Text.utf8ByteSize_eq (kept text limit)]
  rfl

/-- A text of which all is kept has too many bytes for its characters. -/
theorem lt_excess_of_kept_eq {text : String} {limit : Int} (h : 32 ≤ limit)
    (hlong : limit < text.utf8ByteSize) (hkept : kept text limit = text) :
    32 < excess (kept text limit) := by
  have hshort := (kept_eq_iff h).mp hkept
  have hsize := Text.utf8ByteSize_eq text
  rw [hkept]
  omega

/-- Where a text is cut, nine bytes are to spare. -/
theorem size_le_iff {text : String} {limit : Int} (h : 32 ≤ limit)
    (hlong : limit < text.utf8ByteSize) :
    ((kept text limit ++ cutMark).utf8ByteSize : Int) ≤ limit ↔ excess (kept text limit) ≤ 9 := by
  have hlength := length_kept text h
  rw [size_of_cut]
  -- Where all is kept the cut text is longer than the text, and neither side holds.
  by_cases hkept : kept text limit = text
  · have hexcess := lt_excess_of_kept_eq h hlong hkept
    have hsize := Text.utf8ByteSize_eq text
    rw [hkept] at hexcess ⊢
    omega
  · have hmore := mt (kept_eq_iff h).mpr hkept
    omega

theorem respects_of_excess {text : String} {limit : Int} (h : 32 ≤ limit)
    (hlong : limit < text.utf8ByteSize) (hexcess : excess (kept text limit) ≤ 9) :
    Respects limit text (clip text limit) where
  size := by
    rw [clip_of_lt hlong]
    exact (size_le_iff h hlong).mpr hexcess
  whole := clip_eq_iff
  cut := by
    intro _
    refine ⟨kept text limit, ?_, ?_, clip_of_lt hlong⟩
    · rw [kept, String.toList_ofList]
      exact List.take_prefix _ _
    · intro hkept
      have := lt_excess_of_kept_eq h hlong hkept
      omega

/-- How far a cut keeps to its limit.  A text is left as it is exactly if it is within the
    limit.  Otherwise its first characters are kept, as many as the limit has bytes less 32, which
    is a proper part exactly if there are more, and the mark follows.  The result is within
    the limit, and all that is asked of it holds, exactly if these characters have at most nine
    bytes beyond one for each, as in every text of ASCII.  In any case they have no more than four
    bytes each. -/
theorem clip_respects_iff (text : String) {limit : Int} (h : 32 ≤ limit) :
    (clip text limit = (text, false) ↔ (text.utf8ByteSize : Int) ≤ limit) ∧
      (limit < text.utf8ByteSize →
        clip text limit = (kept text limit ++ cutMark, true) ∧
          (kept text limit).toList = text.toList.take (limit - 32).toNat ∧
          (kept text limit ≠ text ↔ limit - 32 < text.length) ∧
          ((kept text limit ++ cutMark).utf8ByteSize : Int) ≤ 4 * (limit - 32) + 23) ∧
      (Respects limit text (clip text limit) ↔
        (text.utf8ByteSize : Int) ≤ limit ∨ excess (kept text limit) ≤ 9) ∧
      ((∀ c ∈ text.toList, c.toNat < 0x80) → Respects limit text (clip text limit)) := by
  have hwithin : (text.utf8ByteSize : Int) ≤ limit → Respects limit text (clip text limit) := by
    intro hsize
    refine ⟨?_, clip_eq_iff, fun hlong => absurd hsize (Int.not_le.mpr hlong)⟩
    rw [clip_of_le hsize]
    exact hsize
  have hexact : Respects limit text (clip text limit) ↔
      (text.utf8ByteSize : Int) ≤ limit ∨ excess (kept text limit) ≤ 9 := by
    rcases lt_or_ge limit text.utf8ByteSize with hlong | hsize
    · rw [or_iff_right (Int.not_le.mpr hlong)]
      refine ⟨?_, respects_of_excess h hlong⟩
      intro hrespects
      have hsize := hrespects.size
      rw [clip_of_lt hlong] at hsize
      exact (size_le_iff h hlong).mp hsize
    · exact iff_of_true (hwithin hsize) (.inl hsize)
  refine ⟨clip_eq_iff, ?_, hexact, ?_⟩
  · intro hlong
    have hlength := length_kept text h
    have hexcess := Text.excess_le (kept text limit)
    refine ⟨clip_of_lt hlong, String.toList_ofList, ?_, ?_⟩
    · rw [ne_eq, kept_eq_iff h, Int.not_le]
    · rw [size_of_cut]
      omega
  · intro hascii
    refine hexact.mpr (.inr ?_)
    rw [Text.excess_eq_zero]
    · exact Nat.zero_le 9
    · intro c hc
      rw [kept, String.toList_ofList] at hc
      exact hascii c (List.mem_of_mem_take hc)

/-- Nine characters of two bytes are kept, and with the mark they are as long as the limit. -/
theorem clip_respects_two_bytes :
    let text := String.ofList (List.replicate 9 'é' ++ List.replicate 30 'x')
    (32 : Int) ≤ 41 ∧ Respects 41 text (clip text 41) ∧ (clip text 41).1.utf8ByteSize = 41 := by
  intro text
  have hlimit : (32 : Int) ≤ 41 := by decide
  obtain ⟨_, _, hexact, _⟩ := clip_respects_iff text hlimit
  exact ⟨hlimit, hexact.mpr (.inr (by decide +kernel)), by decide +kernel⟩

/-- A text of 66 bytes, one too many, becomes longer by the mark: all its 33 characters are
    kept. -/
theorem clip_exceeds_limit :
    let text := String.ofList (List.replicate 33 'é')
    clip text 65 = (text ++ cutMark, true) ∧ ¬ Respects 65 text (clip text 65) := by
  intro text
  have hsize : ¬ ((clip text 65).1.utf8ByteSize : Int) ≤ 65 := by decide +kernel
  exact ⟨by decide +kernel, fun hrespects => hsize hrespects.size⟩

end Execution

end SexpScript
