import SexpScript.Proofs.Balance

/-! # Forms that can be told from their text

    Calls, arrays and operators, nested in each other and made from plain words, are
    written so that no two of them look alike.  A text is taken apart from the outside
    in.

    - The first bracket outside quotes ends the name in front of it, and the spaces
      outside quotes and inner brackets divide what is between the brackets.  Both are
      the first place of a certain kind, and there is only one (`eq_of_first_stop`).
    - `Layout` is a text taken apart so far: the name, the bracket and the words.  Layouts
      with the same text are the same (`Layout.text_inj`).
    - The layout of a form gives its operation and the texts of its operands
      (`commas_inj`, `intersperse_inj`), and the induction goes on with these.
-/

namespace SexpScript

namespace Text

/-! ### First places -/

/-- No place of the text is a stop.  A place is what stands before a character and the
    character itself. -/
def FreeOf (stop : List Char → Char → Prop) (cs : List Char) : Prop :=
  ∀ p c, p ++ [c] <+: cs → ¬ stop p c

section stops
variable {stop : List Char → Char → Prop} {cs ds rs ss : List Char} {c d : Char}

theorem not_freeOf_append (hstop : stop cs c) : ¬ FreeOf stop (cs ++ c :: rs) := by
  intro hfree
  have hplace : cs ++ [c] <+: cs ++ c :: rs := ⟨rs, by simp⟩
  exact hfree cs c hplace hstop

/-- Two ways to cut a text at its first stop are the same. -/
theorem eq_of_first_stop (hcs : FreeOf stop cs) (hds : FreeOf stop ds) (hc : stop cs c)
    (hd : stop ds d) (h : cs ++ c :: rs = ds ++ d :: ss) : cs = ds ∧ c = d ∧ rs = ss := by
  rcases List.append_eq_append_iff.mp h with ⟨more, rfl, hmore⟩ | ⟨more, rfl, hmore⟩
  · cases more with
    | nil =>
      obtain ⟨rfl, rfl⟩ := List.cons.inj hmore
      exact ⟨(List.append_nil cs).symm, rfl, rfl⟩
    | cons e more =>
      -- The longer text would hold the stop of the shorter one.
      obtain ⟨rfl, _⟩ := List.cons.inj hmore
      exact absurd hds (not_freeOf_append hc)
  · cases more with
    | nil =>
      obtain ⟨rfl, rfl⟩ := List.cons.inj hmore
      exact ⟨List.append_nil ds, rfl, rfl⟩
    | cons e more =>
      obtain ⟨rfl, _⟩ := List.cons.inj hmore
      exact absurd hcs (not_freeOf_append hd)

end stops

/-- A bracket outside quotes. -/
def AtBracket (p : List Char) (c : Char) : Prop := Closed p ∧ bracket c ≠ 0

/-- A space outside quotes and brackets. -/
def AtSpace (p : List Char) (c : Char) : Prop := Closed p ∧ depth bracket p = 0 ∧ c = ' '

theorem ne_quote_of_bracket {c : Char} (h : bracket c ≠ 0) : c ≠ '"' := by
  rintro rfl
  exact h (by decide)

/-- What stands after a closed text is outside quotes, unless it is a quote. -/
theorem mem_bare_of_closed {p cs : List Char} {c : Char} (hp : Closed p) (hc : c ≠ '"')
    (h : p ++ [c] <+: cs) : c ∈ bare cs := by
  apply (bare_mono h).subset
  rw [hp.bare_append, bare_singleton hc]
  simp

/-! ### Solid texts -/

/-- A balanced text without a space outside quotes and brackets. -/
structure Solid (cs : List Char) : Prop where
  balanced : Balanced bracket cs
  no_space : FreeOf AtSpace cs

namespace Solid

variable {cs ds : List Char}

theorem of_bare (hclosed : Closed cs) (h : ∀ c ∈ bare cs, bracket c = 0 ∧ c ≠ ' ') : Solid cs where
  balanced := Balanced.of_bare hclosed fun c hc => (h c hc).1
  no_space := by
    intro p c hp hstop
    obtain ⟨hclosed, _, rfl⟩ := hstop
    have hmem := mem_bare_of_closed hclosed (by decide) hp
    exact (h ' ' hmem).2 rfl

theorem append (hcs : Solid cs) (hds : Solid ds) : Solid (cs ++ ds) where
  balanced := hcs.balanced.append hds.balanced
  no_space := by
    intro p c hp hstop
    rcases prefix_append_cases hp with hp | ⟨q, hq, hpq⟩
    · exact hcs.no_space p c hp hstop
    · rcases q.eq_nil_or_concat with rfl | ⟨init, d, hconcat⟩
      · -- The place is the last one of the first text.
        rw [List.append_nil] at hpq
        exact hcs.no_space p c (hpq ▸ List.prefix_refl _) hstop
      · rw [List.concat_eq_append] at hconcat
        subst hconcat
        rw [← List.append_assoc] at hpq
        obtain ⟨rfl, hlast⟩ := List.append_inj' hpq rfl
        obtain rfl : c = d := by simpa using hlast
        obtain ⟨hclosed, hdepth, hspace⟩ := hstop
        have hinit : Closed init := by
          unfold Closed at hclosed ⊢
          rw [quotedAfter_append, hcs.balanced.closed] at hclosed
          exact hclosed
        have hlevel : depth bracket init = 0 := by
          rw [depth_append hcs.balanced.closed, hcs.balanced.level] at hdepth
          omega
        exact hds.no_space init c hq ⟨hinit, hlevel, hspace⟩

/-- Between brackets every space is inside them. -/
theorem wrap {o c : Char} (h : Balanced bracket cs) (hopen : bracket o = 1)
    (hclose : bracket c = -1) : Solid (o :: cs ++ [c]) := by
  have ho : o ≠ '"' := ne_quote_of_bracket (by rw [hopen]; decide)
  have hc : c ≠ '"' := ne_quote_of_bracket (by rw [hclose]; decide)
  refine ⟨h.wrap ho hc hopen hclose, ?_⟩
  intro p d hp hstop
  obtain ⟨_, hdepth, rfl⟩ := hstop
  cases p with
  | nil =>
    obtain ⟨rfl, _⟩ := List.cons_prefix_cons.mp hp
    exact absurd hopen (by decide)
  | cons e p =>
    obtain ⟨rfl, hp'⟩ := List.cons_prefix_cons.mp hp
    rw [depth_cons ho, hopen] at hdepth
    rcases List.prefix_concat_iff.mp hp' with hlast | hinner
    · obtain ⟨_, hlast⟩ := List.append_inj' hlast rfl
      obtain rfl : ' ' = c := by simpa using hlast
      exact absurd hclose (by decide)
    · have hprefix : p <+: cs := (List.prefix_append p [' ']).trans hinner
      have hnonneg := h.nonneg p hprefix
      omega

/-- The end of a solid text is where the next space may stand. -/
theorem atSpace (h : Solid cs) : AtSpace cs ' ' := ⟨h.balanced.closed, h.balanced.level, rfl⟩

end Solid

/-- A word of a list: it is there, and it is solid. -/
def IsSolidWord (cs : List Char) : Prop := Solid cs ∧ cs ≠ []

theorem intercalate_space_ne_nil {word : List Char} (hword : word ≠ []) (words : List (List Char)) :
    [' '].intercalate (word :: words) ≠ [] := by
  cases words with
  | nil => simpa using hword
  | cons next words => simp

/-- Solid words with a space between any two can be told apart again. -/
theorem intercalate_space_inj {words words' : List (List Char)}
    (h : ∀ word ∈ words, IsSolidWord word) (h' : ∀ word ∈ words', IsSolidWord word)
    (heq : [' '].intercalate words = [' '].intercalate words') : words = words' := by
  induction words generalizing words' with
  | nil =>
    cases words' with
    | nil => rfl
    | cons word' words' =>
      have hword' := (h' word' List.mem_cons_self).2
      exact absurd heq.symm (intercalate_space_ne_nil hword' words')
  | cons word words ih =>
    have hword := h word List.mem_cons_self
    cases words' with
    | nil => exact absurd heq (intercalate_space_ne_nil hword.2 words)
    | cons word' words' =>
      have hword' := h' word' List.mem_cons_self
      have hsplit (next : List Char) (rest : List (List Char)) (w : List Char) :
          [' '].intercalate (w :: next :: rest) = w ++ ' ' :: [' '].intercalate (next :: rest) := by
        rw [List.intercalate_cons_cons, List.append_assoc, List.singleton_append]
      cases words with
      | nil =>
        cases words' with
        | nil => simpa using heq
        | cons next' words' =>
          -- The single word would hold the space after the first of the others.
          rw [List.intercalate_singleton, hsplit] at heq
          have hfree := hword.1.no_space
          rw [heq] at hfree
          exact absurd hfree (not_freeOf_append hword'.1.atSpace)
      | cons next words =>
        cases words' with
        | nil =>
          rw [List.intercalate_singleton, hsplit] at heq
          have hfree := hword'.1.no_space
          rw [← heq] at hfree
          exact absurd hfree (not_freeOf_append hword.1.atSpace)
        | cons next' words' =>
          rw [hsplit, hsplit] at heq
          obtain ⟨rfl, _, hrest⟩ := eq_of_first_stop hword.1.no_space hword'.1.no_space
            hword.1.atSpace hword'.1.atSpace heq
          have htail := ih (fun w hw => h w (List.mem_cons_of_mem _ hw))
            (fun w hw => h' w (List.mem_cons_of_mem _ hw)) hrest
          rw [htail]

/-! ### Texts as words -/

/-- The words of a list that is written with commas: each text but the last has one
    stuck to it. -/
def commas : List (List Char) → List (List Char)
  | [] => []
  | [text] => [text]
  | text :: next :: texts => (text ++ [',']) :: commas (next :: texts)

theorem commas_ne_nil (text : List Char) (texts : List (List Char)) :
    commas (text :: texts) ≠ [] := by
  cases texts <;> simp [commas]

theorem intercalate_commas (texts : List (List Char)) :
    [' '].intercalate (commas texts) = [',', ' '].intercalate texts := by
  induction texts with
  | nil => rfl
  | cons text texts ih =>
    cases texts with
    | nil => rfl
    | cons next texts =>
      rw [commas, List.intercalate_cons_of_ne_nil (commas_ne_nil next texts), ih,
        List.intercalate_cons_cons]
      simp

theorem commas_inj {texts texts' : List (List Char)} (h : commas texts = commas texts') :
    texts = texts' := by
  induction texts generalizing texts' with
  | nil =>
    cases texts' with
    | nil => rfl
    | cons text' texts' => exact absurd h.symm (commas_ne_nil text' texts')
  | cons text texts ih =>
    cases texts' with
    | nil => exact absurd h (commas_ne_nil text texts)
    | cons text' texts' =>
      cases texts with
      | nil =>
        cases texts' with
        | nil => simpa [commas] using h
        | cons next' texts' =>
          have htail := (List.cons.inj h).2
          exact absurd htail.symm (commas_ne_nil next' texts')
      | cons next texts =>
        cases texts' with
        | nil =>
          have htail := (List.cons.inj h).2
          exact absurd htail (commas_ne_nil next texts)
        | cons next' texts' =>
          obtain ⟨hhead, htail⟩ := List.cons.inj h
          rw [List.append_cancel_right hhead, ih htail]

theorem mem_commas {texts : List (List Char)} {word : List Char} (h : word ∈ commas texts) :
    ∃ text ∈ texts, word = text ∨ word = text ++ [','] := by
  induction texts with
  | nil => cases h
  | cons text texts ih =>
    cases texts with
    | nil => exact ⟨text, List.mem_cons_self, .inl (by simpa [commas] using h)⟩
    | cons next texts =>
      rcases List.mem_cons.mp h with rfl | hmem
      · exact ⟨text, List.mem_cons_self, .inr rfl⟩
      · obtain ⟨found, hfound, hword⟩ := ih hmem
        exact ⟨found, List.mem_cons_of_mem _ hfound, hword⟩

theorem intercalate_intersperse (symbol : List Char) (texts : List (List Char)) :
    [' '].intercalate (texts.intersperse symbol) =
      ([' '] ++ symbol ++ [' ']).intercalate texts := by
  induction texts with
  | nil => rfl
  | cons text texts ih =>
    cases texts with
    | nil => rfl
    | cons next texts =>
      have hne : (next :: texts).intersperse symbol ≠ [] := by
        cases texts <;> simp
      rw [List.intersperse_cons_cons, List.intercalate_cons_cons,
        List.intercalate_cons_of_ne_nil hne, ih, List.intercalate_cons_cons]
      simp

/-- A symbol between at least two texts can be told from them. -/
theorem intersperse_inj {symbol symbol' : List Char} {texts texts' : List (List Char)}
    (hlength : 2 ≤ texts.length) (h : texts.intersperse symbol = texts'.intersperse symbol') :
    symbol = symbol' ∧ texts = texts' := by
  have htexts : texts = texts' := by
    apply List.ext_getElem?
    intro i
    have hi := congrArg (fun words => words[2 * i]?) h
    simpa using hi
  subst htexts
  have hone := congrArg (fun words => words[2 * 0 + 1]?) h
  simp only [List.getElem?_intersperse_two_mul_add_one (show 0 + 1 < texts.length from hlength)]
    at hone
  exact ⟨Option.some.inj hone, rfl⟩

/-! ### Layouts -/

/-- A text taken apart at its first bracket. -/
inductive Layout where
  /-- A word, and no bracket. -/
  | word (lead : List Char)
  /-- A word, which may be empty, and more words between brackets. -/
  | group (lead : List Char) (opening : Char) (words : List (List Char))

/-- The bracket that closes what another one opens. -/
def closing (opening : Char) : Char := if opening = '(' then ')' else ']'

namespace Layout

/-- The text of a layout. -/
def text : Layout → List Char
  | word lead => lead
  | group lead opening words => lead ++ (opening :: [' '].intercalate words ++ [closing opening])

/-- A layout from which its text can be told: what stands before the brackets holds none,
    and the words between them are solid. -/
def Sound : Layout → Prop
  | word lead => IsSolidWord lead ∧ FreeOf AtBracket lead
  | group lead opening words =>
      (Solid lead ∧ FreeOf AtBracket lead) ∧ (opening = '(' ∨ opening = '[') ∧
        ∀ word ∈ words, IsSolidWord word

theorem bracket_opening {opening : Char} (h : opening = '(' ∨ opening = '[') :
    bracket opening = 1 ∧ bracket (closing opening) = -1 := by
  rcases h with rfl | rfl <;> decide

theorem solidWord_text {l : Layout} (h : l.Sound) : IsSolidWord l.text := by
  cases l with
  | word lead => exact h.1
  | group lead opening words =>
    obtain ⟨⟨hlead, _⟩, hopening, hwords⟩ := h
    obtain ⟨hopen, hclose⟩ := bracket_opening hopening
    have hspace : Balanced bracket [' '] := by decide
    have hinner : Balanced bracket ([' '].intercalate words) :=
      hspace.intercalate fun word hword => (hwords word hword).1.balanced
    refine ⟨hlead.append (Solid.wrap hinner hopen hclose), ?_⟩
    simp [text]

/-- Layouts with the same text are the same. -/
theorem text_inj {l m : Layout} (hl : l.Sound) (hm : m.Sound) (h : l.text = m.text) : l = m := by
  have hstop {lead : List Char} {opening : Char} (hlead : Solid lead)
      (hopening : opening = '(' ∨ opening = '[') : AtBracket lead opening := by
    have hopen := (bracket_opening hopening).1
    exact ⟨hlead.balanced.closed, by rw [hopen]; decide⟩
  cases l with
  | word lead =>
    cases m with
    | word lead' => exact congrArg word h
    | group lead' opening words =>
      obtain ⟨⟨hlead', _⟩, hopening, _⟩ := hm
      have hfree := hl.2
      rw [show lead = _ from h] at hfree
      exact absurd hfree (not_freeOf_append (hstop hlead' hopening))
  | group lead opening words =>
    obtain ⟨⟨hlead, hfree⟩, hopening, hwords⟩ := hl
    cases m with
    | word lead' =>
      have hfree' := hm.2
      rw [show lead' = _ from h.symm] at hfree'
      exact absurd hfree' (not_freeOf_append (hstop hlead hopening))
    | group lead' opening' words' =>
      obtain ⟨⟨hlead', hfree'⟩, hopening', hwords'⟩ := hm
      obtain ⟨rfl, rfl, hrest⟩ := eq_of_first_stop hfree hfree' (hstop hlead hopening)
        (hstop hlead' hopening') h
      have hinner := List.append_cancel_right hrest
      rw [intercalate_space_inj hwords hwords' hinner]

end Layout

end Text

/-! ### Legible forms -/

open Text (Solid IsSolidWord FreeOf AtBracket Layout commas)

/-- A word of a script: it is not empty, its quotes come in pairs, and outside them it has
    neither brackets nor blanks. -/
structure IsWord (text : String) : Prop where
  ne_empty : text ≠ ""
  closed : Text.Closed text.toList
  bare : ∀ c ∈ Text.bare text.toList, c ∉ ['(', ')', '[', ']'] ∧ Text.isBlank c = false

instance (text : String) : Decidable (IsWord text) :=
  decidable_of_iff (text ≠ "" ∧ Text.Closed text.toList ∧
      (Text.bare text.toList).all (fun c =>
        c ∉ ['(', ')', '[', ']'] ∧ Text.isBlank c = false) = true)
    ⟨fun ⟨hne, hclosed, hall⟩ =>
        ⟨hne, hclosed, fun c hc => of_decide_eq_true (List.all_eq_true.mp hall c hc)⟩,
      fun h => ⟨h.ne_empty, h.closed,
        List.all_eq_true.mpr fun c hc => decide_eq_true (h.bare c hc)⟩⟩

namespace IsWord

variable {text : String}

theorem bracket_eq_zero (h : IsWord text) {c : Char} (hc : c ∈ Text.bare text.toList) :
    Text.bracket c = 0 := by
  have hnot := (h.bare c hc).1
  simp only [List.mem_cons, List.not_mem_nil, or_false, not_or] at hnot
  simp [Text.bracket, hnot]

theorem solidWord (h : IsWord text) : IsSolidWord text.toList := by
  refine ⟨Solid.of_bare h.closed ?_, ?_⟩
  · intro c hc
    refine ⟨h.bracket_eq_zero hc, ?_⟩
    rintro rfl
    exact absurd (h.bare ' ' hc).2 (by decide)
  · intro hnil
    exact h.ne_empty (String.toList_eq_nil_iff.mp hnil)

theorem freeOf_bracket (h : IsWord text) : FreeOf AtBracket text.toList := by
  intro p c hp hstop
  obtain ⟨hclosed, hbracket⟩ := hstop
  have hmem := Text.mem_bare_of_closed hclosed (Text.ne_quote_of_bracket hbracket) hp
  exact hbracket (h.bracket_eq_zero hmem)

end IsWord

namespace Form

/-- A form that can be told from its text: words, calls of words, arrays and operators
    between at least two operands, nested in any way. -/
inductive Legible : Form → Prop where
  | leaf {t : Token} : IsWord t.text → t.kind = .ofChunk t.text → Legible (.leaf t)
  | call {name : String} {args : List Form} :
      IsWord name → (∀ family ∈ Family.tables, name ∉ family.names) →
      (∀ arg ∈ args, Legible arg) → Legible (.call name args)
  | list {args : List Form} : (∀ arg ∈ args, Legible arg) → Legible (.call "list" args)
  | binary {name : String} {args : List Form} :
      name ∈ Family.binary.names → 2 ≤ args.length → (∀ arg ∈ args, Legible arg) →
      Legible (.call name args)

/-- The texts of several forms, character by character. -/
def texts (slots : String) (forms : List Form) : List (List Char) :=
  (writeAll slots forms).map String.toList

/-- The layout of the text of a form. -/
def layout (slots : String) : Form → Layout
  | .leaf t => .word t.text.toList
  | .call name args =>
      match Operation.ofName name with
      | .binary symbol => .group [] '(' ((texts slots args).intersperse symbol.toList)
      | .array => .group [] '[' (commas (texts slots args))
      | _ => .group name.toList '(' (commas (texts slots args))
  | _ => .word []

section layout
variable {slots : String} {args : List Form}

theorem layout_call {name : String} (h : ∀ family ∈ Family.tables, name ∉ family.names) :
    layout slots (.call name args) = .group name.toList '(' (commas (texts slots args)) := by
  simp [layout, Operation.ofName_of_not_mem h]

theorem layout_list :
    layout slots (.call "list" args) = .group [] '[' (commas (texts slots args)) := rfl

theorem layout_binary {name symbol : String} (h : (name, symbol) ∈ binaryOperators) :
    layout slots (.call name args) =
      .group [] '(' ((texts slots args).intersperse symbol.toList) := by
  simp [layout, Operation.ofName_of_mem_binary h]

theorem solidWord_symbol {name symbol : String} (h : (name, symbol) ∈ binaryOperators) :
    IsSolidWord symbol.toList := by
  have hall : ∀ entry ∈ binaryOperators, IsWord entry.2 := by decide +kernel
  exact (hall _ h).solidWord

/-- The words of a list with commas are solid if its texts are. -/
theorem solidWord_commas {words : List (List Char)} (h : ∀ word ∈ words, IsSolidWord word) :
    ∀ word ∈ commas words, IsSolidWord word := by
  have hcomma : Solid [','] := by
    apply Solid.of_bare (Text.closed_singleton (by decide))
    intro c hc
    obtain rfl : c = ',' := List.mem_singleton.mp hc
    decide
  intro word hword
  obtain ⟨text, htext, rfl | rfl⟩ := Text.mem_commas hword
  · exact h _ htext
  · obtain ⟨hsolid, hne⟩ := h text htext
    exact ⟨hsolid.append hcomma, by simp⟩

theorem solidWord_intersperse {symbol : List Char} {words : List (List Char)}
    (hsymbol : IsSolidWord symbol) (h : ∀ word ∈ words, IsSolidWord word) :
    ∀ word ∈ words.intersperse symbol, IsSolidWord word := by
  induction words with
  | nil => simp
  | cons first words ih =>
    have hfirst := h first List.mem_cons_self
    cases words with
    | nil => simpa using hfirst
    | cons next words =>
      have htail := ih fun word hword => h word (List.mem_cons_of_mem _ hword)
      intro word hword
      rw [List.intersperse_cons_cons] at hword
      rcases List.mem_cons.mp hword with rfl | hword
      · exact hfirst
      · rcases List.mem_cons.mp hword with rfl | hword
        · exact hsymbol
        · exact htail word hword

theorem solidWord_texts
    (h : ∀ arg ∈ args,
      (layout slots arg).Sound ∧ (layout slots arg).text = (write slots arg).toList) :
    ∀ text ∈ texts slots args, IsSolidWord text := by
  intro text htext
  rw [texts, writeAll_eq_map, List.map_map] at htext
  obtain ⟨arg, harg, rfl⟩ := List.mem_map.mp htext
  obtain ⟨hsound, hwrite⟩ := h arg harg
  have hsolid := Layout.solidWord_text hsound
  rw [hwrite] at hsolid
  exact hsolid

end layout

/-- A legible form is written by its layout, and the layout is sound. -/
theorem Legible.layout_sound {slots : String} {form : Form} (h : Legible form) :
    (layout slots form).Sound ∧ (layout slots form).text = (write slots form).toList := by
  have hnil : Solid [] ∧ FreeOf AtBracket [] := by
    refine ⟨Solid.of_bare Text.Closed.nil nofun, ?_⟩
    intro p c hp
    simp at hp
  induction h with
  | leaf hword hkind => exact ⟨⟨hword.solidWord, hword.freeOf_bracket⟩, rfl⟩
  | @call name args hword htables _ ih =>
    have hwords := solidWord_commas (solidWord_texts ih)
    rw [layout_call htables]
    refine ⟨⟨⟨hword.solidWord.1, hword.freeOf_bracket⟩, .inl rfl, hwords⟩, ?_⟩
    rw [write, Operation.ofName_of_not_mem htables]
    simp [Layout.text, Text.intercalate_commas, Text.closing, texts, Operation.render]
  | @list args _ ih =>
    have hwords := solidWord_commas (solidWord_texts ih)
    rw [layout_list]
    refine ⟨⟨hnil, .inr rfl, hwords⟩, ?_⟩
    rw [write, show Operation.ofName "list" = .array from by decide]
    simp [Layout.text, Text.intercalate_commas, Text.closing, texts, Operation.render]
  | @binary name args hname _ _ ih =>
    obtain ⟨⟨_, symbol⟩, hentry, rfl⟩ := List.mem_map.mp hname
    have hwords := solidWord_intersperse (solidWord_symbol hentry) (solidWord_texts ih)
    rw [layout_binary hentry]
    refine ⟨⟨hnil, .inl rfl, hwords⟩, ?_⟩
    rw [write, Operation.ofName_of_mem_binary hentry]
    simp [Layout.text, Text.intercalate_intersperse, Text.closing, texts, Operation.render]

/-- Forms that are told from their texts one by one are told from them together. -/
theorem eq_of_texts_eq {slots : String} {args args' : List Form}
    (h : ∀ arg ∈ args, ∀ form, Legible form → write slots arg = write slots form → arg = form)
    (hargs' : ∀ arg ∈ args', Legible arg) (htexts : texts slots args = texts slots args') :
    args = args' := by
  have hwritten : args.map (write slots) = args'.map (write slots) := by
    have hinj := (List.map_inj_right fun _ _ => String.toList_inj.mp).mp htexts
    rw [writeAll_eq_map, writeAll_eq_map] at hinj
    exact hinj
  clear htexts
  induction args generalizing args' with
  | nil =>
    cases args' with
    | nil => rfl
    | cons => cases hwritten
  | cons arg args ih =>
    cases args' with
    | nil => cases hwritten
    | cons arg' args' =>
      obtain ⟨hhead, htail⟩ := List.cons.inj hwritten
      have harg := h arg List.mem_cons_self arg' (hargs' arg' List.mem_cons_self) hhead
      have hrest := ih (fun a ha => h a (List.mem_cons_of_mem _ ha))
        (fun a ha => hargs' a (List.mem_cons_of_mem _ ha)) htail
      rw [harg, hrest]

/-- No two operators are written by the same symbol. -/
theorem binaryOperators_inj {name name' symbol : String} (h : (name, symbol) ∈ binaryOperators)
    (h' : (name', symbol) ∈ binaryOperators) : name = name' := by
  have hall : ∀ entry ∈ binaryOperators, ∀ entry' ∈ binaryOperators,
      entry.2 = entry'.2 → entry.1 = entry'.1 := by decide
  exact hall _ h _ h' rfl

theorem Legible.layout_eq {slots : String} {form form' : Form} (h : Legible form)
    (h' : Legible form') (heq : write slots form = write slots form') :
    layout slots form = layout slots form' := by
  have hform : (layout slots form).Sound ∧ (layout slots form).text = _ := h.layout_sound
  have hform' : (layout slots form').Sound ∧ (layout slots form').text = _ := h'.layout_sound
  apply Layout.text_inj hform.1 hform'.1
  rw [hform.2, hform'.2, heq]

/-- Legible forms with the same text are the same. -/
theorem Legible.eq_of_write_eq {slots : String} {form form' : Form} (h : Legible form)
    (h' : Legible form') (heq : write slots form = write slots form') : form = form' := by
  -- On the first form.  The layouts agree, so the second is of the same shape, and its
  -- operands have the texts of the operands of the first.
  induction h generalizing form' with
  | @leaf t hword hkind =>
    have hlayout := (Legible.leaf hword hkind).layout_eq h' heq
    cases h' with
    | @leaf t' hword' hkind' =>
      have htext : t.text = t'.text := heq
      have htoken : t = t' := by
        cases t
        cases t'
        simp_all
      rw [htoken]
    | call _ htables _ =>
      rw [layout_call htables] at hlayout
      cases hlayout
    | list _ => cases hlayout
    | binary hname _ _ =>
      obtain ⟨⟨_, symbol⟩, hentry, rfl⟩ := List.mem_map.mp hname
      rw [layout_binary hentry] at hlayout
      cases hlayout
  | @call name args hword htables hargs ih =>
    have hlayout := (Legible.call hword htables hargs).layout_eq h' heq
    have hne := hword.solidWord.2
    rw [layout_call htables] at hlayout
    cases h' with
    | leaf _ _ => cases hlayout
    | @call name' args' _ htables' hargs' =>
      rw [layout_call htables'] at hlayout
      injection hlayout with hname _ hwords
      rw [String.toList_inj.mp hname,
        eq_of_texts_eq (fun arg harg _ => ih arg harg) hargs' (Text.commas_inj hwords)]
    | list _ =>
      injection hlayout with _ hopening
      exact absurd hopening (by decide)
    | binary hname _ _ =>
      obtain ⟨⟨_, symbol⟩, hentry, rfl⟩ := List.mem_map.mp hname
      rw [layout_binary hentry] at hlayout
      injection hlayout with hlead
      exact absurd hlead hne
  | @list args hargs ih =>
    have hlayout := (Legible.list hargs).layout_eq h' heq
    rw [layout_list] at hlayout
    cases h' with
    | leaf _ _ => cases hlayout
    | call _ htables _ =>
      rw [layout_call htables] at hlayout
      injection hlayout with _ hopening
      exact absurd hopening (by decide)
    | @list args' hargs' =>
      rw [layout_list] at hlayout
      injection hlayout with _ _ hwords
      rw [eq_of_texts_eq (fun arg harg _ => ih arg harg) hargs' (Text.commas_inj hwords)]
    | binary hname _ _ =>
      obtain ⟨⟨_, symbol⟩, hentry, rfl⟩ := List.mem_map.mp hname
      rw [layout_binary hentry] at hlayout
      cases hlayout
  | @binary name args hname hlength hargs ih =>
    have hlayout := (Legible.binary hname hlength hargs).layout_eq h' heq
    obtain ⟨⟨_, symbol⟩, hentry, rfl⟩ := List.mem_map.mp hname
    rw [layout_binary hentry] at hlayout
    cases h' with
    | leaf _ _ => cases hlayout
    | call hword' htables _ =>
      rw [layout_call htables] at hlayout
      injection hlayout with hlead
      exact absurd hlead.symm hword'.solidWord.2
    | list _ => cases hlayout
    | @binary name' args' hname' _ hargs' =>
      obtain ⟨⟨_, symbol'⟩, hentry', rfl⟩ := List.mem_map.mp hname'
      rw [layout_binary hentry'] at hlayout
      injection hlayout with _ _ hwords
      have htwo : 2 ≤ (texts slots args).length := by
        rw [texts, List.length_map, writeAll_eq_map, List.length_map]
        exact hlength
      obtain ⟨hsymbol, htexts⟩ := Text.intersperse_inj htwo hwords
      rw [← String.toList_inj.mp hsymbol] at hentry'
      rw [binaryOperators_inj hentry hentry',
        eq_of_texts_eq (fun arg harg _ => ih arg harg) hargs' htexts]

/-- Nesting can be told from the text.  Legible forms within the levels of writing have the
    same text, whatever the slot object, only if they are the same form. -/
theorem write?_eq_write?_iff {slots : String} {form form' : Form} (h : Legible form)
    (h' : Legible form') (hdepth : form.depth ≤ Nesting.scripts)
    (hdepth' : form'.depth ≤ Nesting.scripts) :
    form.write? Nesting.scripts slots = form'.write? Nesting.scripts slots ↔ form = form' := by
  constructor
  · intro heq
    unfold write? at heq
    rw [if_pos hdepth, if_pos hdepth'] at heq
    exact h.eq_of_write_eq h' (Option.some.inj heq)
  · rintro rfl
    rfl

/-- Two operands, the first of which ends in a comma, are told from three operands, the
    second of which is a comma. -/
theorem write?_ne_write?_comma :
    (Form.call "f" [.leaf ⟨.identifier, "a,"⟩, .leaf ⟨.identifier, "b"⟩]).write?
        Nesting.scripts "global" ≠
      (Form.call "f" [.leaf ⟨.identifier, "a"⟩, .leaf ⟨.identifier, ","⟩,
        .leaf ⟨.identifier, "b"⟩]).write? Nesting.scripts "global" := by
  have hwords : ∀ text ∈ ["a,", "a", ",", "b"],
      IsWord text ∧ .identifier = Token.Kind.ofChunk text := by decide +kernel
  have hleaf : ∀ text ∈ ["a,", "a", ",", "b"], Legible (.leaf ⟨.identifier, text⟩) := by
    intro text htext
    obtain ⟨hword, hkind⟩ := hwords text htext
    exact .leaf hword hkind
  have hcall : ∀ args : List Form, (∀ arg ∈ args, Legible arg) → Legible (.call "f" args) := by
    intro args hargs
    exact .call (by decide +kernel) (by decide +kernel) hargs
  have htwo : Legible (.call "f" [.leaf ⟨.identifier, "a,"⟩, .leaf ⟨.identifier, "b"⟩]) := by
    apply hcall
    simp only [List.forall_mem_cons]
    exact ⟨hleaf _ (by simp), hleaf _ (by simp), nofun⟩
  have hthree : Legible (.call "f" [.leaf ⟨.identifier, "a"⟩, .leaf ⟨.identifier, ","⟩,
      .leaf ⟨.identifier, "b"⟩]) := by
    apply hcall
    simp only [List.forall_mem_cons]
    exact ⟨hleaf _ (by simp), hleaf _ (by simp), hleaf _ (by simp), nofun⟩
  intro heq
  have hforms := (write?_eq_write?_iff htwo hthree (by decide) (by decide)).mp heq
  simp at hforms

end Form

end SexpScript
