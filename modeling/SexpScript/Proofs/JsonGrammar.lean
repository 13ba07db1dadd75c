import Mathlib.Algebra.Order.Field.Power
import Mathlib.Data.Rat.Cast.Order
import Mathlib.Tactic.Ring
import SexpScript.Json.Reading

/-! # The texts of JSON values

    Which texts stand for a value, said without a reader, and what the reader makes of every
    one of them.

    - A string may be spelled in many ways: a character verbatim, by an escape of one
      letter, or by its sixteen-bit units.  The units are what all of these have in common
      (`DenotesUnits`).
    - A number has a whole part, a fraction and an exponent, and ends where another part of
      the document begins (`Follows`).  It counts as zero if no float above zero is as near to it
      (`vanishes_iff`).
    - A value may be too much for the reader: a whole number of too many digits, or arrays and
      objects nested too deeply.  `excess?` is the first such thing in the order of the text, and
      depends on the value alone.
    - Arrays and objects are read with fuel.  `readValue_of_denotes` shows that twice the
      length of the text is enough, by recursion on how the text is put together: the value is
      read, or its excess is met.
-/

namespace SexpScript

namespace Json

/-! ### Strings -/

/-- The texts between quotes that stand for given units. -/
inductive DenotesUnits : List Char → List Nat → Prop
  | nil : DenotesUnits [] []
  /-- A character for itself. -/
  | plain {c : Char} {cs : List Char} {ns : List Nat} (hquote : c ≠ '"') (hescape : c ≠ '\\')
      (hcontrol : 0x20 ≤ c.toNat) (h : DenotesUnits cs ns) :
      DenotesUnits (c :: cs) (Text.units c ++ ns)
  /-- An escape of one letter. -/
  | short {c : Char} {n : Nat} {cs : List Char} {ns : List Nat}
      (hc : shortEscapes.lookup c = some n) (h : DenotesUnits cs ns) :
      DenotesUnits ('\\' :: c :: cs) (n :: ns)
  /-- A unit by four digits. -/
  | unit {a b c d : Char} {n : Nat} {cs : List Char} {ns : List Nat}
      (hn : hex4? a b c d = some n) (h : DenotesUnits cs ns) :
      DenotesUnits ('\\' :: 'u' :: a :: b :: c :: d :: cs) (n :: ns)

theorem DenotesUnits.append {cs ds : List Char} {ms ns : List Nat} (hcs : DenotesUnits cs ms)
    (hds : DenotesUnits ds ns) : DenotesUnits (cs ++ ds) (ms ++ ns) := by
  induction hcs with
  | nil => exact hds
  | plain hquote hescape hcontrol _ ih =>
    rw [List.append_assoc]
    exact .plain hquote hescape hcontrol ih
  | short hc _ ih => exact .short hc ih
  | unit hn _ ih => exact .unit hn ih

theorem readUnits_of_denotes {cs : List Char} {ns : List Nat} (h : DenotesUnits cs ns)
    (read : List Nat) (rest : List Char) :
    readUnits read (cs ++ '"' :: rest) = some (read.reverse ++ ns, rest) := by
  induction h generalizing read with
  | nil => simp [readUnits]
  | @plain c cs ns hquote hescape hcontrol _ ih =>
    have hread : ¬(c = '\\' ∨ c.toNat < 0x20) := by
      rintro (hc | hc)
      · exact hescape hc
      · omega
    rw [List.cons_append, readUnits, if_neg hread, ih]
    · simp
    · exact hquote
    · intro _ _ _ _ _ hc
      exact absurd hc hescape
    · intro _ _ hc
      exact absurd hc hescape
  | @short c n cs ns hc _ ih =>
    have hu : c ≠ 'u' := by
      rintro rfl
      cases hc
    rw [List.cons_append, List.cons_append, readUnits, hc]
    · simp [ih]
    · intro _ _ _ _ _ hcu
      exact absurd hcu hu
  | unit hn _ ih => simp [readUnits, hn, ih]

/-! ### Numbers -/

/-- Digits, one at least. -/
def AreDigits (cs : List Char) : Prop := cs ≠ [] ∧ ∀ c ∈ cs, c.isDigit = true

/-- The texts of a whole number: a zero is not followed by digits. -/
inductive IsWhole : List Char → Prop
  | zero : IsWhole ['0']
  | digits {d : Char} {ds : List Char} (hd : d ≠ '0') (h : AreDigits (d :: ds)) : IsWhole (d :: ds)

/-- The texts of a fraction, with its digits. -/
inductive DenotesFraction : List Char → List Char → Prop
  | none : DenotesFraction [] []
  | point {ds : List Char} (h : AreDigits ds) : DenotesFraction ('.' :: ds) ds

/-- The texts of an integer, with or without a sign. -/
inductive DenotesSigned : List Char → Int → Prop
  | bare {ds : List Char} (h : AreDigits ds) : DenotesSigned ds (Text.digitsValue ds)
  | plus {ds : List Char} (h : AreDigits ds) : DenotesSigned ('+' :: ds) (Text.digitsValue ds)
  | minus {ds : List Char} (h : AreDigits ds) :
      DenotesSigned ('-' :: ds) (-(Text.digitsValue ds : Int))

/-- The texts of an exponent, which may be missing. -/
inductive DenotesExponent : List Char → Option Int → Prop
  | none : DenotesExponent [] none
  | power {e : Char} {cs : List Char} {n : Int} (he : e = 'e' ∨ e = 'E') (h : DenotesSigned cs n) :
      DenotesExponent (e :: cs) (some n)

/-- The texts of a number without its sign. -/
inductive DenotesUnsigned (negative : Bool) : List Char → Json → Prop
  | whole {ds : List Char} (h : IsWhole ds) : DenotesUnsigned negative ds
      (.integer (if negative then -(Text.digitsValue ds : Int) else Text.digitsValue ds))
  /-- A number with a point or an exponent. -/
  | parts {whole fraction digits power : List Char} {n : Option Int} (hwhole : IsWhole whole)
      (hfraction : DenotesFraction fraction digits) (hpower : DenotesExponent power n)
      (h : digits ≠ [] ∨ n ≠ none) :
      DenotesUnsigned negative (whole ++ (fraction ++ power))
        (.decimal negative (Text.digitsValue (whole ++ digits)) (n.getD 0 - digits.length))

/-- The characters that may stand behind a value. -/
def closers : List Char := [' ', '\t', '\n', '\r', ',', ']', '\x7d']

/-- What may stand behind a value. -/
def Follows (rest : List Char) : Prop := ∀ c ∈ rest.head?, c ∈ closers

theorem ends_number_of_mem_closers :
    ∀ c ∈ closers, c.isDigit = false ∧ c ≠ '.' ∧ c ≠ 'e' ∧ c ≠ 'E' := by
  simp [closers]

/-- Digits end where no digit follows. -/
theorem splitDigits_append {ds rest : List Char} (hds : ∀ d ∈ ds, d.isDigit = true)
    (hrest : ∀ c ∈ rest.head?, c.isDigit = false) : splitDigits (ds ++ rest) = (ds, rest) := by
  unfold splitDigits
  rw [List.takeWhile_append_of_pos hds, List.dropWhile_append_of_pos hds]
  cases rest with
  | nil => simp
  | cons c rest => simp [hrest c rfl]

theorem IsWhole.readWhole?_append {whole rest : List Char} (h : IsWhole whole)
    (hrest : ∀ c ∈ rest.head?, c.isDigit = false) :
    readWhole? (whole ++ rest) = some (whole, rest) := by
  cases h with
  | zero => rfl
  | @digits d ds hd h =>
    have hsplit : splitDigits (d :: (ds ++ rest)) = (d :: ds, rest) := splitDigits_append h.2 hrest
    rw [List.cons_append, readWhole?, hsplit]
    intro cs hcs
    exact hd (List.cons.inj hcs).1

theorem DenotesFraction.readFraction_append {fraction digits rest : List Char}
    (h : DenotesFraction fraction digits)
    (hrest : ∀ c ∈ rest.head?, c.isDigit = false ∧ c ≠ '.') :
    readFraction (fraction ++ rest) = (digits, rest) := by
  cases h with
  | none =>
    cases rest with
    | nil => rfl
    | cons c rest =>
      rw [List.nil_append, readFraction]
      intro cs hcs
      exact (hrest c rfl).2 (List.cons.inj hcs).1
  | @point _ h =>
    have hsplit : splitDigits (digits ++ rest) = (digits, rest) :=
      splitDigits_append h.2 fun c hc => (hrest c hc).1
    obtain ⟨d, ds, rfl⟩ := List.exists_cons_of_ne_nil h.1
    rw [List.cons_append, readFraction, hsplit]

/-- Digits with a sign are read whichever sign it is. -/
theorem DenotesSigned.readSigned_append {cs rest : List Char} {n : Int} (h : DenotesSigned cs n)
    (hrest : ∀ c ∈ rest.head?, c.isDigit = false) :
    readSigned (cs ++ rest) = some (n, rest) := by
  cases h with
  | @bare ds h =>
    have hsplit : splitDigits (cs ++ rest) = (cs, rest) := splitDigits_append h.2 hrest
    obtain ⟨d, ds, rfl⟩ := List.exists_cons_of_ne_nil h.1
    have hd : d.isDigit = true := h.2 d List.mem_cons_self
    rw [readSigned, hsplit]
    · intro cs hcs
      obtain ⟨rfl, _⟩ := List.cons.inj hcs
      cases hd
    · intro cs hcs
      obtain ⟨rfl, _⟩ := List.cons.inj hcs
      cases hd
  | @plus ds h =>
    have hsplit : splitDigits (ds ++ rest) = (ds, rest) := splitDigits_append h.2 hrest
    obtain ⟨d, ds, rfl⟩ := List.exists_cons_of_ne_nil h.1
    rw [List.cons_append, readSigned, hsplit]
  | @minus ds h =>
    have hsplit : splitDigits (ds ++ rest) = (ds, rest) := splitDigits_append h.2 hrest
    obtain ⟨d, ds, rfl⟩ := List.exists_cons_of_ne_nil h.1
    rw [List.cons_append, readSigned, hsplit]

theorem DenotesExponent.readExponent_append {cs rest : List Char} {n : Option Int}
    (h : DenotesExponent cs n) (hrest : Follows rest) : readExponent (cs ++ rest) = (n, rest) := by
  cases h with
  | none =>
    cases rest with
    | nil => rfl
    | cons c rest =>
      obtain ⟨_, _, he, hE⟩ := ends_number_of_mem_closers c (hrest c rfl)
      rw [List.nil_append, readExponent, if_neg (not_or.mpr ⟨he, hE⟩)]
  | power he h =>
    have hdigit : ∀ c ∈ rest.head?, c.isDigit = false := fun c hc =>
      (ends_number_of_mem_closers c (hrest c hc)).1
    rw [List.cons_append, readExponent, if_pos he, h.readSigned_append hdigit]

/-- What begins an exponent, or follows a number, does not go on with its digits. -/
theorem DenotesExponent.head_append {cs rest : List Char} {n : Option Int}
    (h : DenotesExponent cs n) (hrest : Follows rest) :
    ∀ c ∈ (cs ++ rest).head?, c.isDigit = false ∧ c ≠ '.' := by
  intro c hc
  cases h with
  | none =>
    obtain ⟨hdigit, hpoint, _⟩ := ends_number_of_mem_closers c (hrest c hc)
    exact ⟨hdigit, hpoint⟩
  | power he h =>
    cases hc
    rcases he with rfl | rfl <;> decide

/-- The parts of a number are read one after another. -/
theorem readUnsigned_parts {whole fraction digits power rest : List Char} {n : Option Int}
    (hwhole : IsWhole whole) (hfraction : DenotesFraction fraction digits)
    (hpower : DenotesExponent power n) (hrest : Follows rest) (negative : Bool) :
    readUnsigned negative (whole ++ (fraction ++ power) ++ rest) =
      (ofParts negative whole digits n).map fun value => (value, rest) := by
  have hhead := hpower.head_append hrest
  have hdigit : ∀ c ∈ (fraction ++ (power ++ rest)).head?, c.isDigit = false := by
    cases hfraction with
    | none => exact fun c hc => (hhead c hc).1
    | point =>
      intro c hc
      cases hc
      rfl
  have hassoc : whole ++ (fraction ++ power) ++ rest = whole ++ (fraction ++ (power ++ rest)) := by
    simp
  unfold readUnsigned
  rw [hassoc, hwhole.readWhole?_append hdigit]
  simp only [hfraction.readFraction_append hhead, hpower.readExponent_append hrest]

theorem DenotesUnsigned.exists_digit {negative : Bool} {cs : List Char} {value : Json}
    (h : DenotesUnsigned negative cs value) : ∃ d ds, cs = d :: ds ∧ d.isDigit = true := by
  have hdigit : ∀ {ds : List Char}, IsWhole ds → ∀ more,
      ∃ d rest, ds ++ more = d :: rest ∧ d.isDigit = true := by
    intro ds hwhole more
    cases hwhole with
    | zero => exact ⟨'0', _, rfl, rfl⟩
    | digits hd h => exact ⟨_, _, rfl, h.2 _ List.mem_cons_self⟩
  cases h with
  | whole h =>
    have hds := hdigit h []
    rwa [List.append_nil] at hds
  | parts hwhole => exact hdigit hwhole _

/-! ### Numbers near zero -/

/-- The power of ten need not be worked out beyond the number of binary digits. -/
theorem mul_le_pow_min_iff (mantissa bits power : Nat) :
    mantissa * 2 ^ bits ≤ 10 ^ min power (mantissa.log2 + (bits + 1)) ↔
      mantissa * 2 ^ bits ≤ 10 ^ power := by
  rcases Nat.le_total power (mantissa.log2 + (bits + 1)) with hle | hle
  · rw [Nat.min_eq_left hle]
  · have hbound : mantissa * 2 ^ bits ≤ 10 ^ (mantissa.log2 + (bits + 1)) :=
      calc mantissa * 2 ^ bits
          ≤ 2 ^ (mantissa.log2 + 1) * 2 ^ bits := Nat.mul_le_mul_right _ Nat.lt_log2_self.le
        _ = 2 ^ (mantissa.log2 + (bits + 1)) := by ring
        _ ≤ 10 ^ (mantissa.log2 + (bits + 1)) := Nat.pow_le_pow_left (by decide) _
    rw [Nat.min_eq_right hle]
    exact iff_of_true hbound (hbound.trans (Nat.pow_le_pow_right (by decide) hle))

/-- Only zero is so small among the whole numbers. -/
theorem mul_two_pow_le_one_iff (n bits : Nat) : n * 2 ^ (bits + 1) ≤ 1 ↔ n = 0 := by
  constructor
  · intro hle
    by_contra hn
    have htwo : 1 < 2 ^ (bits + 1) := Nat.one_lt_two_pow (Nat.succ_ne_zero bits)
    have hmul : 2 ^ (bits + 1) ≤ n * 2 ^ (bits + 1) :=
      Nat.le_mul_of_pos_left _ (Nat.pos_of_ne_zero hn)
    omega
  · rintro rfl
    rw [Nat.zero_mul]
    exact Nat.zero_le 1

/-- A number vanishes exactly if it is at most half of the least float above zero. -/
theorem vanishes_iff (mantissa : Nat) (exponent : Int) :
    vanishes mantissa exponent = true ↔
      (mantissa : ℚ) * 10 ^ exponent ≤ 1 / 2 ^ (leastFloat + 1) := by
  have hbits : (0 : ℚ) < 2 ^ (leastFloat + 1) := pow_pos (by decide) _
  rw [vanishes, decide_eq_true_iff, Nat.pow_eq, Nat.pow_eq, mul_le_pow_min_iff]
  rcases Int.le_total exponent 0 with hle | hle
  · obtain ⟨power, rfl⟩ := Int.exists_eq_neg_ofNat hle
    have hpower : (0 : ℚ) < 10 ^ power := pow_pos (by decide) power
    rw [Int.neg_neg, Int.toNat_natCast, zpow_neg, zpow_natCast, ← div_eq_mul_inv,
      div_le_div_iff₀ hpower hbits, one_mul]
    exact_mod_cast Iff.rfl
  · -- The number is whole, so both sides say that it is zero.
    obtain ⟨power, rfl⟩ := Int.eq_ofNat_of_zero_le hle
    have hzero : (-(power : Int)).toNat = 0 :=
      Int.toNat_eq_zero.mpr (Int.neg_nonpos_of_nonneg hle)
    have hwhole : mantissa * 2 ^ (leastFloat + 1) ≤ 1 ↔
        mantissa * 10 ^ power * 2 ^ (leastFloat + 1) ≤ 1 := by
      rw [mul_two_pow_le_one_iff, mul_two_pow_le_one_iff, Nat.mul_eq_zero,
        or_iff_left (pow_ne_zero power (by decide))]
    rw [hzero, pow_zero, zpow_natCast, le_div_iff₀ hbits, hwhole]
    exact_mod_cast Iff.rfl

/-! ### Words -/

/-- A text that begins with another character does not begin with the word. -/
theorem after?_eq_none {word : String} {w c : Char} {cs : List Char}
    (hword : word.toList.head? = some w) (h : c ≠ w) : after? word (c :: cs) = none := by
  obtain ⟨ws, hws⟩ := List.head?_eq_some_iff.mp hword
  simp [after?, hws, List.isPrefixOf, Ne.symm h]

/-! ### Values -/

/-- The words that are values. -/
def words : List (String × Json) :=
  [("null", .null), ("true", .bool true), ("false", .bool false), ("NaN", .notANumber),
    ("Infinity", .infinity false), ("-Infinity", .infinity true)]

/-- A stretch of blanks. -/
def IsGap (cs : List Char) : Prop := ∀ c ∈ cs, isGap c = true

mutual

/-- The texts of a value. -/
inductive Denotes : List Char → Json → Prop
  | word {word : String} {value : Json} (h : (word, value) ∈ words) : Denotes word.toList value
  | number {cs : List Char} {value : Json} (h : DenotesUnsigned false cs value) : Denotes cs value
  | minus {cs : List Char} {value : Json} (h : DenotesUnsigned true cs value) :
      Denotes ('-' :: cs) value
  | string {body : List Char} {units : List Nat} (h : DenotesUnits body units) :
      Denotes ('"' :: body ++ ['"']) (.string units)
  | emptyArray {gap : List Char} (hgap : IsGap gap) : Denotes ('[' :: gap ++ [']']) (.array [])
  | array {gap cs : List Char} {items : List Json} (hgap : IsGap gap) (h : DenotesItems cs items) :
      Denotes ('[' :: gap ++ cs ++ [']']) (.array items)
  | emptyObject {gap : List Char} (hgap : IsGap gap) :
      Denotes ('\x7b' :: gap ++ ['\x7d']) (.object [])
  | object {gap cs : List Char} {fields : List (List Nat × Json)} (hgap : IsGap gap)
      (h : DenotesFields cs fields) : Denotes ('\x7b' :: gap ++ cs ++ ['\x7d']) (.object fields)

/-- The texts of the items of an array, one at least, with commas between them. -/
inductive DenotesItems : List Char → List Json → Prop
  | last {cs gap : List Char} {item : Json} (h : Denotes cs item) (hgap : IsGap gap) :
      DenotesItems (cs ++ gap) [item]
  | cons {cs gap space ds : List Char} {item : Json} {items : List Json} (h : Denotes cs item)
      (hgap : IsGap gap) (hspace : IsGap space) (hrest : DenotesItems ds items) :
      DenotesItems (cs ++ gap ++ ',' :: space ++ ds) (item :: items)

/-- The texts of a field: its name, a colon and its value. -/
inductive DenotesField : List Char → List Nat × Json → Prop
  | colon {body gap space cs : List Char} {name : List Nat} {value : Json}
      (hname : DenotesUnits body name) (hgap : IsGap gap) (hspace : IsGap space)
      (h : Denotes cs value) :
      DenotesField ('"' :: body ++ '"' :: gap ++ ':' :: space ++ cs) (name, value)

/-- The texts of the fields of an object, one at least, with commas between them. -/
inductive DenotesFields : List Char → List (List Nat × Json) → Prop
  | last {cs gap : List Char} {field : List Nat × Json} (h : DenotesField cs field)
      (hgap : IsGap gap) : DenotesFields (cs ++ gap) [field]
  | cons {cs gap space ds : List Char} {field : List Nat × Json}
      {fields : List (List Nat × Json)} (h : DenotesField cs field) (hgap : IsGap gap)
      (hspace : IsGap space) (hrest : DenotesFields ds fields) :
      DenotesFields (cs ++ gap ++ ',' :: space ++ ds) (field :: fields)

end

/-! ### Limits -/

mutual

/-- The first thing in a value, in the order of its text, that is too much for a reader of so
    many levels. -/
def excess? : Nat → Json → Option Obstacle
  | _, .integer value => if 10 ^ digitLimit ≤ value.natAbs then some .tooManyDigits else none
  | 0, .array _ => some .tooDeep
  | 0, .object _ => some .tooDeep
  | levels + 1, .array items => excessOfItems? levels items
  | levels + 1, .object fields => excessOfFields? levels fields
  | _, _ => none

/-- The first such thing in the items of an array. -/
def excessOfItems? (levels : Nat) : List Json → Option Obstacle
  | [] => none
  | item :: items =>
      match excess? levels item with
      | some obstacle => some obstacle
      | none => excessOfItems? levels items

/-- The first such thing in the fields of an object. -/
def excessOfFields? (levels : Nat) : List (List Nat × Json) → Option Obstacle
  | [] => none
  | (_, value) :: fields =>
      match excess? levels value with
      | some obstacle => some obstacle
      | none => excessOfFields? levels fields

end

/-- What comes of reading where an obstacle may be in the way. -/
def unlessBlocked {α : Type} (obstacle? : Option Obstacle) (result : α) : Except Obstacle α :=
  match obstacle? with
  | some obstacle => .error obstacle
  | none => .ok result

/-- A row of digits stands for a number of that many digits, behind the number `n` that was read
    before it. -/
theorem foldl_digits_bounds {ds : List Char} (hds : ∀ d ∈ ds, d.isDigit = true) (n : Nat) :
    n * 10 ^ ds.length ≤ ds.foldl (fun n c => n * 10 + (c.toNat - '0'.toNat)) n ∧
      ds.foldl (fun n c => n * 10 + (c.toNat - '0'.toNat)) n < (n + 1) * 10 ^ ds.length := by
  induction ds generalizing n with
  | nil => simp
  | cons d ds ih =>
    have hd : d.isDigit = true := hds d List.mem_cons_self
    have hdigit : d.toNat - '0'.toNat < 10 := by
      simp only [Char.isDigit, Bool.and_eq_true, decide_eq_true_eq] at hd
      have hle : d.toNat ≤ 57 := hd.2
      show d.toNat - 48 < 10
      omega
    obtain ⟨hlow, hhigh⟩ := ih (fun c hc => hds c (List.mem_cons_of_mem d hc))
      (n * 10 + (d.toNat - '0'.toNat))
    rw [List.foldl_cons, List.length_cons, Nat.pow_succ]
    constructor
    · calc n * (10 ^ ds.length * 10) = n * 10 * 10 ^ ds.length := by ring
        _ ≤ (n * 10 + (d.toNat - '0'.toNat)) * 10 ^ ds.length :=
          Nat.mul_le_mul_right _ (Nat.le_add_right _ _)
        _ ≤ _ := hlow
    · calc _ < (n * 10 + (d.toNat - '0'.toNat) + 1) * 10 ^ ds.length := hhigh
        _ ≤ (n + 1) * 10 * 10 ^ ds.length := Nat.mul_le_mul_right _ (by omega)
        _ = (n + 1) * (10 ^ ds.length * 10) := by ring

/-- A whole number has more than so many digits exactly if it is that large. -/
theorem IsWhole.lt_length_iff {whole : List Char} (h : IsWhole whole) {limit : Nat}
    (hlimit : 0 < limit) : limit < whole.length ↔ 10 ^ limit ≤ Text.digitsValue whole := by
  cases h with
  | zero =>
    have hone : ['0'].length = 1 := rfl
    have hzero : Text.digitsValue ['0'] = 0 := rfl
    have hpos : 0 < 10 ^ limit := Nat.pow_pos (by decide)
    omega
  | @digits d ds hd h =>
    have hfirst : d.isDigit = true := h.2 d List.mem_cons_self
    have hrange : 1 ≤ d.toNat - '0'.toNat ∧ d.toNat - '0'.toNat ≤ 9 := by
      simp only [Char.isDigit, Bool.and_eq_true, decide_eq_true_eq] at hfirst
      have hle : 48 ≤ d.toNat ∧ d.toNat ≤ 57 := hfirst
      have hne : d.toNat ≠ 48 := fun heq => hd (Char.toNat_inj.mp heq)
      show 1 ≤ d.toNat - 48 ∧ d.toNat - 48 ≤ 9
      omega
    obtain ⟨hlow, hhigh⟩ := foldl_digits_bounds
      (fun c hc => h.2 c (List.mem_cons_of_mem d hc)) (0 * 10 + (d.toNat - '0'.toNat))
    change _ ≤ Text.digitsValue (d :: ds) at hlow
    change Text.digitsValue (d :: ds) < _ at hhigh
    rw [List.length_cons]
    constructor
    · intro hlength
      calc 10 ^ limit ≤ 1 * 10 ^ ds.length := by
            rw [Nat.one_mul]
            exact Nat.pow_le_pow_right (by decide) (by omega)
        _ ≤ (0 * 10 + (d.toNat - '0'.toNat)) * 10 ^ ds.length :=
          Nat.mul_le_mul_right _ (by omega)
        _ ≤ Text.digitsValue (d :: ds) := hlow
    · intro hvalue
      have hpower : 10 ^ limit < 10 ^ (ds.length + 1) := by
        calc 10 ^ limit ≤ Text.digitsValue (d :: ds) := hvalue
          _ < (0 * 10 + (d.toNat - '0'.toNat) + 1) * 10 ^ ds.length := hhigh
          _ ≤ 10 * 10 ^ ds.length := Nat.mul_le_mul_right _ (by omega)
          _ = 10 ^ (ds.length + 1) := by rw [Nat.pow_succ, Nat.mul_comm]
      exact (Nat.pow_lt_pow_iff_right (by decide)).mp hpower

/-- A whole number of too many digits is too much at any level. -/
theorem excess?_integer {whole : List Char} (h : IsWhole whole) (hlong : digitLimit < whole.length)
    (levels : Nat) : excess? levels (.integer (Text.digitsValue whole)) = some .tooManyDigits := by
  rw [excess?, Int.natAbs_natCast, if_pos ((h.lt_length_iff (by decide)).mp hlong)]

/-- An array that holds nothing but an array, so many times over. -/
def nested : Nat → Json
  | 0 => .array []
  | n + 1 => .array [nested n]

theorem denotes_nested (n : Nat) :
    Denotes (List.replicate (n + 1) '[' ++ List.replicate (n + 1) ']') (nested n) := by
  induction n with
  | zero => exact .emptyArray (List.forall_mem_nil _)
  | succ n ih =>
    have hitems := DenotesItems.last ih (List.forall_mem_nil _)
    have harray := Denotes.array (List.forall_mem_nil _) hitems
    -- One more bracket on each side.
    have hclosing : List.replicate (n + 2) ']' = List.replicate (n + 1) ']' ++ [']'] :=
      List.replicate_succ'
    rw [List.replicate_succ, hclosing, nested]
    simpa only [List.cons_append, List.nil_append, List.append_nil, List.append_assoc] using harray

/-- Arrays that go on below the last level are too much. -/
theorem excess?_nested {levels n : Nat} (h : levels ≤ n) :
    excess? levels (nested n) = some .tooDeep := by
  induction n generalizing levels with
  | zero =>
    obtain rfl := Nat.le_zero.mp h
    rfl
  | succ n ih =>
    cases levels with
    | zero => rfl
    | succ levels => rw [nested, excess?, excessOfItems?, ih (Nat.le_of_succ_le_succ h)]

/-- The parts of a number without its sign are a number, unless its digits are too many. -/
theorem DenotesUnsigned.readUnsigned_append {negative : Bool} {cs rest : List Char} {value : Json}
    (h : DenotesUnsigned negative cs value) (hrest : Follows rest) (levels : Nat) :
    readUnsigned negative (cs ++ rest) = unlessBlocked (excess? levels value) (value, rest) := by
  cases h with
  | whole h =>
    have hread := readUnsigned_parts h .none .none hrest negative
    rw [List.append_nil, List.append_nil] at hread
    have habs : (if negative then -(Text.digitsValue cs : Int) else Text.digitsValue cs).natAbs =
        Text.digitsValue cs := by
      split
      · rw [Int.natAbs_neg, Int.natAbs_natCast]
      · exact Int.natAbs_natCast _
    rw [hread, ofParts, excess?, habs]
    by_cases hlong : digitLimit < cs.length
    · rw [if_pos hlong, if_pos ((h.lt_length_iff (by decide)).mp hlong)]
      rfl
    · rw [if_neg hlong, if_neg (mt (h.lt_length_iff (by decide)).mpr hlong)]
      rfl
  | @parts whole fraction digits power n hwhole hfraction hpower h =>
    have hparts : ofParts negative whole digits n = .ok
        (.decimal negative (Text.digitsValue (whole ++ digits)) (n.getD 0 - digits.length)) := by
      rw [ofParts]
      rintro rfl rfl
      simp at h
    rw [readUnsigned_parts hwhole hfraction hpower hrest, hparts, excess?]
    · rfl
    all_goals nofun

/-! ### Reading values -/

theorem skipGap_append {gap : List Char} (h : IsGap gap) (cs : List Char) :
    skipGap (gap ++ cs) = skipGap cs :=
  List.dropWhile_append_of_pos h

theorem skipGap_cons {c : Char} (h : isGap c = false) (cs : List Char) :
    skipGap (c :: cs) = c :: cs := by
  simp [skipGap, h]

/-- Blanks before what begins with none are skipped and no more. -/
theorem skipGap_append_cons {space : List Char} (hspace : IsGap space) {c : Char}
    (h : isGap c = false) (cs : List Char) : skipGap (space ++ c :: cs) = c :: cs := by
  rw [skipGap_append hspace, skipGap_cons h]

theorem Follows.gap_append {gap rest : List Char} (hgap : IsGap gap) (hrest : Follows rest) :
    Follows (gap ++ rest) := by
  cases gap with
  | nil => exact hrest
  | cons c gap =>
    intro d hd
    cases hd
    have hc : isGap c = true := hgap c List.mem_cons_self
    simp only [isGap, Bool.or_eq_true, decide_eq_true_eq] at hc
    rcases hc with ((rfl | rfl) | rfl) | rfl <;> decide

/-- A value that does not begin like a word is a number. -/
theorem readScalar_eq_readNumber {c : Char} {cs : List Char} (hn : c ≠ 'n') (ht : c ≠ 't')
    (hf : c ≠ 'f') : readScalar (c :: cs) = readNumber (c :: cs) := by
  unfold readScalar
  rw [after?_eq_none rfl hn, after?_eq_none rfl ht, after?_eq_none rfl hf]

theorem ne_of_isDigit {c d : Char} (hd : d.isDigit = true) (hc : c.isDigit = false) : d ≠ c := by
  rintro rfl
  rw [hd] at hc
  cases hc

/-- A number begins with a digit where it has no sign. -/
theorem readNumber_of_isDigit {d : Char} (hd : d.isDigit = true) (cs : List Char) :
    readNumber (d :: cs) = readUnsigned false (d :: cs) := by
  have hminus : d ≠ '-' := ne_of_isDigit hd rfl
  unfold readNumber
  rw [after?_eq_none rfl (ne_of_isDigit hd rfl : d ≠ 'N'),
    after?_eq_none rfl (ne_of_isDigit hd rfl : d ≠ 'I'), after?_eq_none rfl hminus]
  simp [hminus]

theorem readNumber_minus {d : Char} (hd : d.isDigit = true) (cs : List Char) :
    readNumber ('-' :: d :: cs) = readUnsigned true (d :: cs) := by
  -- The sign alone does not tell a number from `-Infinity`: the digit behind it does.
  have hword : after? "-Infinity" ('-' :: d :: cs) = none := by
    have hd' : d ≠ 'I' := ne_of_isDigit hd rfl
    simp [after?, List.isPrefixOf, Ne.symm hd']
  unfold readNumber
  rw [after?_eq_none rfl (by decide : '-' ≠ 'N'), after?_eq_none rfl (by decide : '-' ≠ 'I'), hword]
  rfl

theorem readScalar_of_mem_words {word : String} {value : Json} (h : (word, value) ∈ words)
    (rest : List Char) : readScalar (word.toList ++ rest) = .ok (value, rest) := by
  simp only [words, List.mem_cons, Prod.mk.injEq, List.not_mem_nil, or_false] at h
  rcases h with ⟨rfl, rfl⟩ | ⟨rfl, rfl⟩ | ⟨rfl, rfl⟩ | ⟨rfl, rfl⟩ | ⟨rfl, rfl⟩ | ⟨rfl, rfl⟩ <;>
    simp [readScalar, readNumber, after?, List.isPrefixOf, ← String.length_toList]

/-- No word is too much for a reader. -/
theorem excess?_of_mem_words {word : String} {value : Json} (h : (word, value) ∈ words)
    (levels : Nat) : excess? levels value = none := by
  simp only [words, List.mem_cons, Prod.mk.injEq, List.not_mem_nil, or_false] at h
  rcases h with ⟨_, rfl⟩ | ⟨_, rfl⟩ | ⟨_, rfl⟩ | ⟨_, rfl⟩ | ⟨_, rfl⟩ | ⟨_, rfl⟩ <;> simp [excess?]

/-- A value begins with no blank, and not with the end of an array. -/
theorem Denotes.exists_head {cs : List Char} {value : Json} (h : Denotes cs value) :
    ∃ c ds, cs = c :: ds ∧ isGap c = false ∧ c ≠ ']' := by
  cases h with
  | word h =>
    simp only [words, List.mem_cons, Prod.mk.injEq, List.not_mem_nil, or_false] at h
    rcases h with ⟨rfl, rfl⟩ | ⟨rfl, rfl⟩ | ⟨rfl, rfl⟩ | ⟨rfl, rfl⟩ | ⟨rfl, rfl⟩ | ⟨rfl, rfl⟩ <;>
      exact ⟨_, _, rfl, by decide, by decide⟩
  | number h =>
    obtain ⟨d, ds, rfl, hd⟩ := h.exists_digit
    refine ⟨d, ds, rfl, ?_, ne_of_isDigit hd rfl⟩
    simp [isGap, ne_of_isDigit hd (rfl : ' '.isDigit = false),
      ne_of_isDigit hd (rfl : '\t'.isDigit = false), ne_of_isDigit hd (rfl : '\n'.isDigit = false),
      ne_of_isDigit hd (rfl : '\r'.isDigit = false)]
  | minus h => exact ⟨_, _, rfl, by decide, by decide⟩
  | string h => exact ⟨_, _, rfl, by decide, by decide⟩
  | emptyArray hgap => exact ⟨_, _, rfl, by decide, by decide⟩
  | array hgap h => exact ⟨_, _, rfl, by decide, by decide⟩
  | emptyObject hgap => exact ⟨_, _, rfl, by decide, by decide⟩
  | object hgap h => exact ⟨_, _, rfl, by decide, by decide⟩

theorem DenotesItems.exists_head {cs : List Char} {items : List Json} (h : DenotesItems cs items) :
    ∃ c ds, cs = c :: ds ∧ isGap c = false ∧ c ≠ ']' := by
  cases h with
  | last h hgap =>
    obtain ⟨c, ds, rfl, hc⟩ := h.exists_head
    exact ⟨c, _, rfl, hc⟩
  | cons h hgap hspace hrest =>
    obtain ⟨c, ds, rfl, hc⟩ := h.exists_head
    exact ⟨c, _, rfl, hc⟩

/-- A value that opens nothing is a scalar. -/
theorem readValue_eq_readScalar {c : Char} (fuel levels : Nat) (cs : List Char) (hquote : c ≠ '"')
    (harray : c ≠ '[') (hobject : c ≠ '\x7b') :
    readValue (fuel + 1) levels (c :: cs) = readScalar (c :: cs) := by
  rw [readValue]
  · intro _ hcs
    exact hquote (List.cons.inj hcs).1
  · intro _ hcs
    exact harray (List.cons.inj hcs).1
  · intro _ hcs
    exact hobject (List.cons.inj hcs).1

theorem readValue_of_mem_words {word : String} {value : Json} (h : (word, value) ∈ words)
    (fuel levels : Nat) (rest : List Char) :
    readValue (fuel + 1) levels (word.toList ++ rest) =
      unlessBlocked (excess? levels value) (value, rest) := by
  rw [excess?_of_mem_words h]
  refine Eq.trans ?_ (readScalar_of_mem_words h rest)
  simp only [words, List.mem_cons, Prod.mk.injEq, List.not_mem_nil, or_false] at h
  rcases h with ⟨rfl, rfl⟩ | ⟨rfl, rfl⟩ | ⟨rfl, rfl⟩ | ⟨rfl, rfl⟩ | ⟨rfl, rfl⟩ | ⟨rfl, rfl⟩ <;>
    exact readValue_eq_readScalar fuel levels _ (by decide) (by decide) (by decide)

theorem readValue_of_denotesUnsigned {cs rest : List Char} {value : Json}
    (h : DenotesUnsigned false cs value) (fuel levels : Nat) (hrest : Follows rest) :
    readValue (fuel + 1) levels (cs ++ rest) =
      unlessBlocked (excess? levels value) (value, rest) := by
  rw [← h.readUnsigned_append hrest levels]
  obtain ⟨d, ds, rfl, hd⟩ := h.exists_digit
  rw [List.cons_append, readValue_eq_readScalar fuel levels _ (ne_of_isDigit hd rfl)
    (ne_of_isDigit hd rfl) (ne_of_isDigit hd rfl), readScalar_eq_readNumber (ne_of_isDigit hd rfl)
    (ne_of_isDigit hd rfl) (ne_of_isDigit hd rfl), readNumber_of_isDigit hd]

theorem readValue_minus_of_denotesUnsigned {cs rest : List Char} {value : Json}
    (h : DenotesUnsigned true cs value) (fuel levels : Nat) (hrest : Follows rest) :
    readValue (fuel + 1) levels ('-' :: (cs ++ rest)) =
      unlessBlocked (excess? levels value) (value, rest) := by
  rw [← h.readUnsigned_append hrest levels]
  obtain ⟨d, ds, rfl, hd⟩ := h.exists_digit
  rw [readValue_eq_readScalar fuel levels _ (by decide) (by decide) (by decide),
    readScalar_eq_readNumber (by decide) (by decide) (by decide), List.cons_append,
    readNumber_minus hd]

theorem readValue_string {body : List Char} {units : List Nat} (h : DenotesUnits body units)
    (fuel levels : Nat) (rest : List Char) :
    readValue (fuel + 1) levels ('"' :: (body ++ '"' :: rest)) = .ok (.string units, rest) := by
  simp [readValue, readUnits_of_denotes h]

theorem readValue_emptyArray {gap : List Char} (hgap : IsGap gap) (fuel levels : Nat)
    (rest : List Char) :
    readValue (fuel + 1) (levels + 1) ('[' :: (gap ++ ']' :: rest)) = .ok (.array [], rest) := by
  simp [readValue, skipGap_append hgap, skipGap_cons (rfl : isGap ']' = false)]

theorem readValue_emptyObject {gap : List Char} (hgap : IsGap gap) (fuel levels : Nat)
    (rest : List Char) :
    readValue (fuel + 1) (levels + 1) ('\x7b' :: (gap ++ '\x7d' :: rest)) =
      .ok (.object [], rest) := by
  simp [readValue, skipGap_append hgap, skipGap_cons (rfl : isGap '\x7d' = false)]

/-- No level is left for an array or an object. -/
theorem readValue_array_zero (fuel : Nat) (cs : List Char) :
    readValue (fuel + 1) 0 ('[' :: cs) = .error .tooDeep := by
  simp [readValue]

theorem readValue_object_zero (fuel : Nat) (cs : List Char) :
    readValue (fuel + 1) 0 ('\x7b' :: cs) = .error .tooDeep := by
  simp [readValue]

/-- Behind the bracket and a gap, what is no end of an array is read as its items. -/
theorem readValue_array {gap : List Char} (hgap : IsGap gap) {c : Char} (hc : isGap c = false)
    (hend : c ≠ ']') (fuel levels : Nat) (cs : List Char) :
    readValue (fuel + 1) (levels + 1) ('[' :: (gap ++ c :: cs)) =
      readItems fuel levels [] (c :: cs) := by
  simp [readValue, skipGap_append hgap, skipGap_cons hc, hend]

theorem readValue_object {gap : List Char} (hgap : IsGap gap) {c : Char} (hc : isGap c = false)
    (hend : c ≠ '\x7d') (fuel levels : Nat) (cs : List Char) :
    readValue (fuel + 1) (levels + 1) ('\x7b' :: (gap ++ c :: cs)) =
      readFields fuel levels [] (c :: cs) := by
  simp [readValue, skipGap_append hgap, skipGap_cons hc, hend]

theorem readItems_error {fuel levels : Nat} {cs : List Char} {obstacle : Obstacle}
    (h : readValue fuel levels cs = .error obstacle) (read : List Json) :
    readItems (fuel + 1) levels read cs = .error obstacle := by
  simp [readItems, h]

theorem readItems_last {fuel levels : Nat} {item : Json} {cs gap rest : List Char}
    (h : readValue fuel levels cs = .ok (item, gap ++ ']' :: rest)) (hgap : IsGap gap)
    (read : List Json) :
    readItems (fuel + 1) levels read cs = .ok (.array (read.reverse ++ [item]), rest) := by
  simp [readItems, h, skipGap_append hgap, skipGap_cons (rfl : isGap ']' = false)]

theorem readItems_comma {fuel levels : Nat} {item : Json} {cs gap rest : List Char}
    (h : readValue fuel levels cs = .ok (item, gap ++ ',' :: rest)) (hgap : IsGap gap)
    (read : List Json) :
    readItems (fuel + 1) levels read cs = readItems fuel levels (item :: read) (skipGap rest) := by
  simp [readItems, h, skipGap_append hgap, skipGap_cons (rfl : isGap ',' = false)]

/-- How the fields go on behind a value. -/
def readMoreFields (fuel levels : Nat) (read : List (List Nat × Json)) (cs : List Char) :
    Except Obstacle (Json × List Char) :=
  match skipGap cs with
  | ',' :: cs => readFields fuel levels read (skipGap cs)
  | '\x7d' :: rest => .ok (.object read.reverse, rest)
  | _ => .error .malformed

theorem readFields_field {fuel levels : Nat} {body gap space cs : List Char} {name : List Nat}
    (hname : DenotesUnits body name) (hgap : IsGap gap) (hspace : IsGap space)
    (read : List (List Nat × Json)) :
    readFields (fuel + 1) levels read ('"' :: (body ++ '"' :: (gap ++ ':' :: (space ++ cs)))) =
      readValue fuel levels (skipGap cs) >>= fun (value, rest) =>
        readMoreFields fuel levels ((name, value) :: read) rest := by
  simp only [readFields, readUnits_of_denotes hname, List.reverse_nil, List.nil_append,
    skipGap_append hgap, skipGap_cons (rfl : isGap ':' = false), skipGap_append hspace]
  cases readValue fuel levels (skipGap cs) with
  | error obstacle => rfl
  | ok found => rfl

theorem readMoreFields_last {gap : List Char} (hgap : IsGap gap) (fuel levels : Nat)
    (read : List (List Nat × Json)) (rest : List Char) :
    readMoreFields fuel levels read (gap ++ '\x7d' :: rest) = .ok (.object read.reverse, rest) := by
  simp [readMoreFields, skipGap_append hgap, skipGap_cons (rfl : isGap '\x7d' = false)]

theorem readMoreFields_comma {gap : List Char} (hgap : IsGap gap) (fuel levels : Nat)
    (read : List (List Nat × Json)) (rest : List Char) :
    readMoreFields fuel levels read (gap ++ ',' :: rest) =
      readFields fuel levels read (skipGap rest) := by
  simp [readMoreFields, skipGap_append hgap, skipGap_cons (rfl : isGap ',' = false)]

theorem DenotesFields.exists_head {cs : List Char} {fields : List (List Nat × Json)}
    (h : DenotesFields cs fields) : ∃ ds, cs = '"' :: ds := by
  cases h with
  | last h hgap =>
    cases h
    exact ⟨_, rfl⟩
  | cons h hgap hspace hrest =>
    cases h
    exact ⟨_, rfl⟩

theorem follows_cons {c : Char} (h : c ∈ closers) (rest : List Char) : Follows (c :: rest) := by
  intro d hd
  cases hd
  exact h

mutual

/-- Of any text of a value the value is read, and what follows is left, unless something in it
    is too much for the reader. -/
theorem readValue_of_denotes : {cs : List Char} → {value : Json} → Denotes cs value →
    {fuel : Nat} → 2 * cs.length ≤ fuel → (levels : Nat) → {rest : List Char} → Follows rest →
    readValue fuel levels (cs ++ rest) = unlessBlocked (excess? levels value) (value, rest)
  | _, _, .word h, 0, hfuel, _, _, _ => by
    obtain ⟨c, ds, hcs, _⟩ := (Denotes.word h).exists_head
    rw [hcs] at hfuel
    cases hfuel
  | _, _, .number h, 0, hfuel, _, _, _ => by
    obtain ⟨d, ds, rfl, _⟩ := h.exists_digit
    cases hfuel
  | _, _, .word h, fuel + 1, _, levels, rest, _ => readValue_of_mem_words h fuel levels rest
  | _, _, .number h, fuel + 1, _, levels, _, hrest =>
    readValue_of_denotesUnsigned h fuel levels hrest
  | _, _, .minus h, fuel + 1, _, levels, _, hrest =>
    readValue_minus_of_denotesUnsigned h fuel levels hrest
  | _, _, .string h, fuel + 1, _, levels, rest, _ => by
    have hread := readValue_string h fuel levels rest
    simpa [excess?, unlessBlocked] using hread
  | _, _, .emptyArray hgap, fuel + 1, _, 0, rest, _ => readValue_array_zero fuel _
  | _, _, .emptyArray hgap, fuel + 1, _, levels + 1, rest, _ => by
    have hread := readValue_emptyArray hgap fuel levels rest
    simpa [excess?, excessOfItems?, unlessBlocked] using hread
  | _, _, .array hgap h, fuel + 1, _, 0, rest, _ => readValue_array_zero fuel _
  | _, _, @Denotes.array gap cs items hgap h, fuel + 1, hfuel, levels + 1, rest, _ => by
    have hroom : 2 * cs.length + 1 ≤ fuel := by
      simp at hfuel
      omega
    have hitems := readItems_of_denotes h hroom levels [] rest
    obtain ⟨c, ds, rfl, hc, hend⟩ := h.exists_head
    have hread := readValue_array hgap hc hend fuel levels (ds ++ ']' :: rest)
    simpa [excess?] using hread.trans hitems
  | _, _, .emptyObject hgap, fuel + 1, _, 0, rest, _ => readValue_object_zero fuel _
  | _, _, .emptyObject hgap, fuel + 1, _, levels + 1, rest, _ => by
    have hread := readValue_emptyObject hgap fuel levels rest
    simpa [excess?, excessOfFields?, unlessBlocked] using hread
  | _, _, .object hgap h, fuel + 1, _, 0, rest, _ => readValue_object_zero fuel _
  | _, _, @Denotes.object gap cs fields hgap h, fuel + 1, hfuel, levels + 1, rest, _ => by
    have hroom : 2 * cs.length + 1 ≤ fuel := by
      simp at hfuel
      omega
    have hfields := readFields_of_denotes h hroom levels [] rest
    obtain ⟨ds, rfl⟩ := h.exists_head
    have hread := readValue_object hgap (rfl : isGap '"' = false) (by decide) fuel levels
      (ds ++ '\x7d' :: rest)
    simpa [excess?] using hread.trans hfields

theorem readItems_of_denotes : {cs : List Char} → {items : List Json} → DenotesItems cs items →
    {fuel : Nat} → 2 * cs.length + 1 ≤ fuel → (levels : Nat) → (read : List Json) →
    (rest : List Char) →
    readItems fuel levels read (cs ++ ']' :: rest) =
      unlessBlocked (excessOfItems? levels items) (.array (read.reverse ++ items), rest)
  | _, _, @DenotesItems.last cs gap item h hgap, fuel + 1, hfuel, levels, read, rest => by
    have hroom : 2 * cs.length ≤ fuel := by
      simp at hfuel
      omega
    have hfollows := Follows.gap_append hgap (follows_cons (by decide : ']' ∈ closers) rest)
    have hvalue := readValue_of_denotes h hroom levels hfollows
    rw [List.append_assoc, excessOfItems?, excessOfItems?]
    cases hexcess : excess? levels item with
    | some obstacle =>
      rw [hexcess] at hvalue
      exact readItems_error hvalue read
    | none =>
      rw [hexcess] at hvalue
      exact readItems_last hvalue hgap read
  | _, _, @DenotesItems.cons cs gap space ds item items h hgap hspace hrest, fuel + 1, hfuel,
      levels, read, rest => by
    -- The item and the items behind it are read with one step less than all of them.
    have hroom : 2 * cs.length ≤ fuel ∧ 2 * ds.length + 1 ≤ fuel := by
      simp at hfuel
      omega
    have hfollows := Follows.gap_append hgap
      (follows_cons (by decide : ',' ∈ closers) (space ++ (ds ++ ']' :: rest)))
    have hvalue := readValue_of_denotes h hroom.1 levels hfollows
    have hitems := readItems_of_denotes hrest hroom.2 levels (item :: read) rest
    have hassoc : cs ++ gap ++ ',' :: space ++ ds ++ ']' :: rest =
        cs ++ (gap ++ ',' :: (space ++ (ds ++ ']' :: rest))) := by simp
    rw [hassoc, excessOfItems?]
    cases hexcess : excess? levels item with
    | some obstacle =>
      rw [hexcess] at hvalue
      exact readItems_error hvalue read
    | none =>
      rw [hexcess] at hvalue
      obtain ⟨c, ds, rfl, hc, _⟩ := hrest.exists_head
      have hread := readItems_comma hvalue hgap read
      rw [List.cons_append] at hread hitems
      rw [skipGap_append_cons hspace hc, hitems] at hread
      simpa using hread

theorem readFields_of_denotesField : {cs : List Char} → {field : List Nat × Json} →
    DenotesField cs field → {fuel : Nat} → 2 * cs.length ≤ fuel → (levels : Nat) →
    (read : List (List Nat × Json)) → {rest : List Char} → Follows rest →
    readFields (fuel + 1) levels read (cs ++ rest) =
      unlessBlocked (excess? levels field.2) () >>= fun _ =>
        readMoreFields fuel levels (field :: read) rest
  | _, _, @DenotesField.colon body gap space cs name value hname hgap hspace h, fuel, hfuel,
      levels, read, rest, hrest => by
    have hroom : 2 * cs.length ≤ fuel := by
      simp at hfuel
      omega
    have hvalue := readValue_of_denotes h hroom levels hrest
    obtain ⟨c, ds, rfl, hc, _⟩ := h.exists_head
    rw [List.cons_append, ← skipGap_cons hc] at hvalue
    have hassoc : '"' :: body ++ '"' :: gap ++ ':' :: space ++ c :: ds ++ rest =
        '"' :: (body ++ '"' :: (gap ++ ':' :: (space ++ c :: (ds ++ rest)))) := by simp
    rw [hassoc, readFields_field hname hgap hspace, hvalue]
    cases excess? levels value with
    | some obstacle => rfl
    | none => rfl

theorem readFields_of_denotes : {cs : List Char} → {fields : List (List Nat × Json)} →
    DenotesFields cs fields → {fuel : Nat} → 2 * cs.length + 1 ≤ fuel → (levels : Nat) →
    (read : List (List Nat × Json)) → (rest : List Char) →
    readFields fuel levels read (cs ++ '\x7d' :: rest) =
      unlessBlocked (excessOfFields? levels fields) (.object (read.reverse ++ fields), rest)
  | _, _, @DenotesFields.last cs gap field h hgap, fuel + 1, hfuel, levels, read, rest => by
    have hroom : 2 * cs.length ≤ fuel := by
      simp at hfuel
      omega
    have hfollows := Follows.gap_append hgap (follows_cons (by decide : '\x7d' ∈ closers) rest)
    have hfield := readFields_of_denotesField h hroom levels read hfollows
    rw [List.append_assoc, hfield, readMoreFields_last hgap, List.reverse_cons, excessOfFields?,
      excessOfFields?]
    cases excess? levels field.2 with
    | some obstacle => rfl
    | none => rfl
  | _, _, @DenotesFields.cons cs gap space ds field fields h hgap hspace hrest, fuel + 1, hfuel,
      levels, read, rest => by
    have hroom : 2 * cs.length ≤ fuel ∧ 2 * ds.length + 1 ≤ fuel := by
      simp at hfuel
      omega
    have hfollows := Follows.gap_append hgap
      (follows_cons (by decide : ',' ∈ closers) (space ++ (ds ++ '\x7d' :: rest)))
    have hfield := readFields_of_denotesField h hroom.1 levels read hfollows
    have hfields := readFields_of_denotes hrest hroom.2 levels (field :: read) rest
    have hassoc : cs ++ gap ++ ',' :: space ++ ds ++ '\x7d' :: rest =
        cs ++ (gap ++ ',' :: (space ++ (ds ++ '\x7d' :: rest))) := by simp
    obtain ⟨ds, rfl⟩ := hrest.exists_head
    rw [List.cons_append] at hfield hfields
    rw [readMoreFields_comma hgap, skipGap_append_cons hspace rfl, hfields] at hfield
    rw [hassoc, List.cons_append, hfield, excessOfFields?]
    cases excess? levels field.2 with
    | some obstacle => rfl
    | none => simp [unlessBlocked]; rfl

end

/-- Of a document the value is read from any of its texts, with or without blanks at its end,
    unless something in it is too much for the reader. -/
theorem read_of_denotes {cs rest : List Char} {value : Json} (h : Denotes cs value)
    (hrest : IsGap rest) :
    read (String.ofList (cs ++ rest)) = unlessBlocked (excess? Nesting.replies value) value := by
  have hfollows : Follows rest := by
    have hgap := Follows.gap_append hrest (nofun : Follows [])
    rwa [List.append_nil] at hgap
  obtain ⟨c, ds, rfl, hc, _⟩ := h.exists_head
  have hroom : 2 * (c :: ds).length ≤ 2 * (c :: ds ++ rest).length + 2 := by
    simp
    omega
  have hread := readValue_of_denotes h hroom Nesting.replies hfollows
  have hend : skipGap rest = [] := by
    have hskip := skipGap_append hrest []
    rwa [List.append_nil] at hskip
  unfold read
  rw [String.toList_ofList, List.cons_append, skipGap_cons hc]
  rw [List.cons_append] at hread
  simp only [hread]
  cases excess? Nesting.replies value with
  | some obstacle => rfl
  | none => simp only [unlessBlocked, hend, List.isEmpty_nil, if_true]

end Json

end SexpScript
