import SexpScript.Item.Reading
import Mathlib.Data.List.Infix

/-! # Tokens and the items they spell

    `Spells` says which items a token list stands for, without a reader: a token
    that is no paren stands for itself, and a group stands between two parens.
    The reader is compared with it in both directions.

    - Tokens that spell items are read as these items, whatever is open around
      them (`readFrom_append`).
    - A pass that ends at depth zero has read tokens that spell its items
      (`spells_of_readItems`).  What the open groups still ask of the tokens to come
      is written down as `Unwinds`.

    Nesting is counted on the tokens alone: `NestedWithin` bounds the parens that are
    open after each prefix, and only a list beyond the bound overflows the reader.
-/

namespace SexpScript

/-! ### Parens -/

/-- A token that is no paren. -/
def Token.Plain (t : Token) : Prop := t.kind ≠ .openParen ∧ t.kind ≠ .closeParen

theorem Token.paren_or_plain (t : Token) :
    t.kind = .openParen ∨ t.kind = .closeParen ∨ t.Plain := by
  by_cases hopen : t.kind = .openParen
  · exact .inl hopen
  · by_cases hclose : t.kind = .closeParen
    · exact .inr (.inl hclose)
    · exact .inr (.inr ⟨hopen, hclose⟩)

/-- The number of opening parens among tokens. -/
def opens (ts : List Token) : Nat := ts.countP fun t => t.kind = .openParen

/-- The number of closing parens among tokens. -/
def closes (ts : List Token) : Nat := ts.countP fun t => t.kind = .closeParen

/-- No prefix of the tokens has more than `limit` parens open. -/
def NestedWithin (limit : Nat) (ts : List Token) : Prop :=
  ∀ p, p <+: ts → opens p ≤ closes p + limit

instance (limit : Nat) (ts : List Token) : Decidable (NestedWithin limit ts) :=
  decidable_of_iff (∀ p ∈ ts.inits, opens p ≤ closes p + limit) <|
    forall_congr' fun p => by rw [List.mem_inits]

section counting
variable {t : Token} {ts us : List Token}

@[simp] theorem opens_nil : opens [] = 0 := rfl

@[simp] theorem closes_nil : closes [] = 0 := rfl

@[simp] theorem opens_append : opens (ts ++ us) = opens ts + opens us := List.countP_append

@[simp] theorem closes_append : closes (ts ++ us) = closes ts + closes us := List.countP_append

theorem opens_cons_open (h : t.kind = .openParen) : opens (t :: ts) = opens ts + 1 := by
  simp [opens, h]

theorem closes_cons_open (h : t.kind = .openParen) : closes (t :: ts) = closes ts := by
  simp [closes, h]

theorem opens_cons_close (h : t.kind = .closeParen) : opens (t :: ts) = opens ts := by
  simp [opens, h]

theorem closes_cons_close (h : t.kind = .closeParen) : closes (t :: ts) = closes ts + 1 := by
  simp [closes, h]

theorem opens_cons_plain (h : t.Plain) : opens (t :: ts) = opens ts := by
  simp [opens, h.1]

theorem closes_cons_plain (h : t.Plain) : closes (t :: ts) = closes ts := by
  simp [closes, h.2]

theorem NestedWithin.mono {m n : Nat} (h : NestedWithin m ts) (hmn : m ≤ n) :
    NestedWithin n ts := by
  intro p hp
  have := h p hp
  omega

end counting

/-! ### Spelling -/

/-- The tokens stand for the items.  Parens count by their kind alone. -/
inductive Spells : List Token → List Item → Prop where
  | nil : Spells [] []
  | token {t : Token} {ts : List Token} {items : List Item} :
      t.Plain → Spells ts items → Spells (t :: ts) (.token t :: items)
  | group {o c : Token} {inner ts : List Token} {items rest : List Item} :
      o.kind = .openParen → Spells inner items → c.kind = .closeParen → Spells ts rest →
      Spells (o :: inner ++ c :: ts) (.group items :: rest)

mutual

/-- The levels of groups in an item. -/
def Item.depth : Item → Nat
  | .token _ => 0
  | .group items => depthAll items + 1

/-- The levels of groups in the deepest of several items. -/
def Item.depthAll : List Item → Nat
  | [] => 0
  | item :: items => max (depth item) (depthAll items)

end

/-- All items are groups, as those of a program are. -/
def Item.AllGroups (items : List Item) : Prop := ∀ item ∈ items, item.token? = none

theorem Item.AllGroups.nil : AllGroups [] := by
  intro item h
  cases h

theorem Item.AllGroups.group {items rest : List Item} (h : AllGroups rest) :
    AllGroups (.group items :: rest) := by
  intro item hmem
  rcases List.mem_cons.mp hmem with rfl | hmem
  · rfl
  · exact h item hmem

theorem Item.AllGroups.tail {item : Item} {rest : List Item} (h : AllGroups (item :: rest)) :
    AllGroups rest := by
  intro item' hmem
  exact h item' (List.mem_cons_of_mem item hmem)

theorem Item.AllGroups.not_token {t : Token} {rest : List Item} :
    ¬ AllGroups (.token t :: rest) := by
  intro h
  have htoken := h (.token t) List.mem_cons_self
  cases htoken

theorem Item.depth_le_depthAll {item : Item} {items : List Item} (h : item ∈ items) :
    item.depth ≤ depthAll items := by
  induction items with
  | nil => cases h
  | cons item' items ih =>
    simp only [depthAll]
    rcases List.mem_cons.mp h with rfl | h
    · omega
    · have hle := ih h
      omega

/-- Every group that is spelled is opened and closed. -/
theorem Spells.balanced {ts : List Token} {items : List Item} (h : Spells ts items) :
    opens ts = closes ts := by
  induction h with
  | nil => rfl
  | token ht _ ih => rw [opens_cons_plain ht, closes_cons_plain ht, ih]
  | group ho _ hc _ ih₁ ih₂ =>
    simp only [List.cons_append, opens_cons_open ho, closes_cons_open ho, opens_append,
      closes_append, opens_cons_close hc, closes_cons_close hc]
    omega

/-- As many parens are open at some place as the items have levels. -/
theorem Spells.exists_prefix {ts : List Token} {items : List Item} (h : Spells ts items) :
    ∃ p, p <+: ts ∧ opens p = closes p + Item.depthAll items := by
  induction h with
  | nil => exact ⟨[], List.prefix_rfl, rfl⟩
  | @token t ts items ht _ ih =>
    obtain ⟨p, hp, hcount⟩ := ih
    refine ⟨t :: p, (List.prefix_cons_inj t).mpr hp, ?_⟩
    simp only [opens_cons_plain ht, closes_cons_plain ht, Item.depthAll, Item.depth]
    omega
  | @group o c inner ts items rest ho hinner hc _ ih₁ ih₂ =>
    obtain ⟨p, hp, hcount⟩ := ih₁
    obtain ⟨q, hq, hcount'⟩ := ih₂
    -- The deepest place is inside this group or behind it.
    by_cases hdeep : Item.depthAll rest ≤ Item.depthAll items + 1
    · refine ⟨o :: p, ?_, ?_⟩
      · rw [List.cons_append, List.prefix_cons_inj]
        exact hp.trans (List.prefix_append inner (c :: ts))
      · simp only [opens_cons_open ho, closes_cons_open ho, Item.depthAll, Item.depth]
        omega
    · refine ⟨o :: inner ++ c :: q, ?_, ?_⟩
      · rw [List.prefix_append_right_inj, List.prefix_cons_inj]
        exact hq
      · have hbal := hinner.balanced
        simp only [List.cons_append, opens_cons_open ho, closes_cons_open ho, opens_append,
          closes_append, opens_cons_close hc, closes_cons_close hc, Item.depthAll, Item.depth]
        omega

theorem Spells.depthAll_le {ts : List Token} {items : List Item} {limit : Nat}
    (h : Spells ts items) (hnest : NestedWithin limit ts) : Item.depthAll items ≤ limit := by
  obtain ⟨p, hp, hcount⟩ := h.exists_prefix
  have := hnest p hp
  omega

namespace Reading

/-! ### One token -/

section reading
variable {limit : Nat} {depth : Int} {current : List Item} {outer : List (List Item)}
  {t : Token} {ts : List Token}

theorem readFrom_open (h : t.kind = .openParen) :
    readFrom limit depth current outer (t :: ts) =
      if outer.length < limit then readFrom limit depth [] (current :: outer) ts
      else .error .overflow := by
  rw [readFrom.eq_def]
  simp only [h]

theorem readFrom_close_nil (h : t.kind = .closeParen) :
    readFrom limit depth current [] (t :: ts) =
      .ok { depth := depth - 1, rest := t :: ts, items := current.reverse } := by
  rw [readFrom, h]

theorem readFrom_close_cons {above : List Item} (h : t.kind = .closeParen) :
    readFrom limit depth current (above :: outer) (t :: ts) =
      readFrom limit depth (.group current.reverse :: above) outer ts := by
  rw [readFrom, h]

theorem readFrom_plain (h : t.Plain) :
    readFrom limit depth current outer (t :: ts) =
      if depth + outer.length > 0 then readFrom limit depth (.token t :: current) outer ts
      else .error (.refused .tokenOutside) := by
  rw [readFrom.eq_def]
  dsimp only
  split
  · next hk => exact absurd hk h.1
  · next hk => exact absurd hk h.2
  · rfl

end reading

/-! ### Reading what is spelled -/

/-- Tokens that spell items are read as these items.  At the outermost level of a
    program only groups may stand. -/
theorem readFrom_append {limit : Nat} {depth : Int} {inner : List Token} {items : List Item}
    (h : Spells inner items) (current : List Item) (outer : List (List Item)) (ts : List Token)
    (hlimit : outer.length + Item.depthAll items ≤ limit)
    (hplace : depth + outer.length > 0 ∨ depth = 0 ∧ Item.AllGroups items) :
    readFrom limit depth current outer (inner ++ ts) =
      readFrom limit depth (items.reverse ++ current) outer ts := by
  induction h generalizing current outer ts with
  | nil => rfl
  | @token t us items ht _ ih =>
    simp only [Item.depthAll, Item.depth] at hlimit
    have hinside : depth + outer.length > 0 := by
      rcases hplace with hplace | ⟨_, hgroups⟩
      · exact hplace
      · exact absurd hgroups Item.AllGroups.not_token
    rw [List.cons_append, readFrom_plain ht, if_pos hinside,
      ih (.token t :: current) outer ts (by omega) (.inl hinside)]
    simp
  | @group o c inner us items rest ho _ hc _ ih₁ ih₂ =>
    simp only [Item.depthAll, Item.depth] at hlimit
    have hdepth : 0 ≤ depth + outer.length := by omega
    have hinner : depth + (current :: outer).length > 0 := by
      rw [List.length_cons]
      omega
    have hplace' : depth + outer.length > 0 ∨ depth = 0 ∧ Item.AllGroups rest :=
      hplace.imp_right fun ⟨hd, hgroups⟩ => ⟨hd, hgroups.tail⟩
    -- Open the group, read what is in it with one more group open, and close it.
    rw [List.append_assoc, List.cons_append, readFrom_open ho, if_pos (by omega),
      ih₁ [] (current :: outer) _ (by rw [List.length_cons]; omega) (.inl hinner),
      List.cons_append, readFrom_close_cons hc, ih₂ _ outer ts (by omega) hplace']
    simp

/-- Groups at the beginning of a program are read whatever follows them. -/
theorem readItems_append {limit : Nat} {inner : List Token} {items : List Item}
    (h : Spells inner items) (hgroups : Item.AllGroups items)
    (hlimit : Item.depthAll items ≤ limit) (ts : List Token) :
    readItems limit 0 (inner ++ ts) = readFrom limit 0 items.reverse [] ts := by
  have hplace : (0 : Int) + ([] : List (List Item)).length > 0 ∨
      (0 : Int) = 0 ∧ Item.AllGroups items := .inr ⟨rfl, hgroups⟩
  have hread := readFrom_append h [] [] ts (by simpa using hlimit) hplace
  rw [List.append_nil] at hread
  exact hread

/-- A program that spells groups is read as these groups. -/
theorem readItems_of_spells {limit : Nat} {ts : List Token} {items : List Item}
    (h : Spells ts items) (hgroups : Item.AllGroups items) (hlimit : Item.depthAll items ≤ limit) :
    readItems limit 0 ts = .ok { depth := 0, rest := [], items := items } := by
  have hread := readItems_append h hgroups hlimit []
  rw [List.append_nil] at hread
  rw [hread]
  simp [readFrom, closeAll]

/-! ### What a complete pass has read -/

/-- What the groups that are open still ask of the tokens to come: each is closed,
    and more items follow it in the group around it.  `items` are those of the
    innermost group and `result` those of the whole pass. -/
def Unwinds : List Item → List (List Item) → List Token → List Item → Prop
  | items, [], ts, result => ts = [] ∧ result = items
  | items, above :: outer, ts, result =>
      ∃ c inner more rest, ts = c :: inner ++ rest ∧ c.kind = .closeParen ∧ Spells inner more ∧
        (outer = [] → Item.AllGroups more) ∧
        Unwinds (above.reverse ++ .group items :: more) outer rest result

/-- A pass that ends at depth zero reads items up to the end of the innermost
    group, and then all that its open groups ask for. -/
theorem unwinds_of_readFrom {limit : Nat} {current : List Item} {outer : List (List Item)}
    {ts : List Token} {r : Reading} (h : readFrom limit 0 current outer ts = .ok r)
    (hdepth : r.depth = 0) :
    ∃ inner items rest, ts = inner ++ rest ∧ Spells inner items ∧
      (outer = [] → Item.AllGroups items) ∧
      Unwinds (current.reverse ++ items) outer rest r.items := by
  induction ts generalizing current outer with
  | nil =>
    rw [readFrom] at h
    cases h
    -- The pass ends with nothing open, or its depth would count what is.
    have houter : outer = [] := by
      refine List.eq_nil_of_length_eq_zero ?_
      simp only at hdepth
      omega
    subst houter
    exact ⟨[], [], [], rfl, .nil, fun _ => .nil, rfl, by simp [closeAll]⟩
  | cons t ts ih =>
    rcases t.paren_or_plain with ht | ht | ht
    · -- A group opens: it is closed where its open stack unwinds, and goes in front.
      rw [readFrom_open ht] at h
      split at h
      · obtain ⟨inner, items, rest, rfl, hinner, _, hunwind⟩ := ih h
        obtain ⟨c, inner', more, rest', rfl, hc, hmore, hgroups, hunwind⟩ := hunwind
        refine ⟨t :: inner ++ c :: inner', .group items :: more, rest', by simp,
          .group ht hinner hc hmore, fun houter => (hgroups houter).group, ?_⟩
        simpa using hunwind
      · cases h
    · -- A group closes: the items so far are all of it, and the rest is for those around.
      cases outer with
      | nil =>
        rw [readFrom_close_nil ht] at h
        cases h
        simp at hdepth
      | cons above outer =>
        rw [readFrom_close_cons ht] at h
        obtain ⟨inner, items, rest, rfl, hinner, hgroups, hunwind⟩ := ih h
        refine ⟨[], [], _, rfl, .nil, nofun, t, inner, items, rest, rfl, ht, hinner, hgroups, ?_⟩
        simpa using hunwind
    · rw [readFrom_plain ht] at h
      split at h
      · next hinside =>
        obtain ⟨inner, items, rest, rfl, hinner, _, hunwind⟩ := ih h
        refine ⟨t :: inner, .token t :: items, rest, rfl, .token ht hinner, ?_, ?_⟩
        · rintro rfl
          exact absurd hinside (by simp)
        · simpa using hunwind
      · cases h

/-- A pass over a whole program that ends at depth zero has read what its tokens
    spell, and that are groups only. -/
theorem spells_of_readItems {limit : Nat} {ts : List Token} {r : Reading}
    (h : readItems limit 0 ts = .ok r) (hdepth : r.depth = 0) :
    Spells ts r.items ∧ Item.AllGroups r.items := by
  obtain ⟨inner, items, rest, rfl, hspells, hgroups, hrest, hitems⟩ := unwinds_of_readFrom h hdepth
  rw [hrest, hitems, List.append_nil]
  exact ⟨hspells, hgroups rfl⟩

/-! ### Overflow -/

/-- The reader overflows only where more parens are open than it may hold. -/
theorem exists_prefix_of_overflow {limit : Nat} {depth : Int} {current : List Item}
    {outer : List (List Item)} {ts : List Token} (hlength : outer.length ≤ limit)
    (h : readFrom limit depth current outer ts = .error .overflow) :
    ∃ p, p <+: ts ∧ outer.length + opens p = closes p + limit + 1 := by
  induction ts generalizing current outer with
  | nil => rw [readFrom] at h; cases h
  | cons t ts ih =>
    rcases t.paren_or_plain with ht | ht | ht
    · rw [readFrom_open ht] at h
      split at h
      · next hlt =>
        obtain ⟨p, hp, hcount⟩ := ih (by rw [List.length_cons]; omega) h
        refine ⟨t :: p, (List.prefix_cons_inj t).mpr hp, ?_⟩
        rw [List.length_cons] at hcount
        rw [opens_cons_open ht, closes_cons_open ht]
        omega
      · refine ⟨[t], List.prefix_append [t] ts, ?_⟩
        rw [opens_cons_open ht, closes_cons_open ht, opens_nil, closes_nil]
        omega
    · cases outer with
      | nil => rw [readFrom_close_nil ht] at h; cases h
      | cons above outer =>
        rw [readFrom_close_cons ht] at h
        rw [List.length_cons] at hlength ⊢
        obtain ⟨p, hp, hcount⟩ := ih (by omega) h
        refine ⟨t :: p, (List.prefix_cons_inj t).mpr hp, ?_⟩
        rw [opens_cons_close ht, closes_cons_close ht]
        omega
    · rw [readFrom_plain ht] at h
      split at h
      · obtain ⟨p, hp, hcount⟩ := ih hlength h
        refine ⟨t :: p, (List.prefix_cons_inj t).mpr hp, ?_⟩
        rw [opens_cons_plain ht, closes_cons_plain ht]
        exact hcount
      · cases h

theorem readItems_ne_overflow {limit : Nat} {depth : Int} {ts : List Token}
    (h : NestedWithin limit ts) : readItems limit depth ts ≠ .error .overflow := by
  intro hread
  obtain ⟨p, hp, hcount⟩ := exists_prefix_of_overflow (Nat.zero_le limit) hread
  have hbound := h p hp
  rw [List.length_nil] at hcount
  omega

end Reading

end SexpScript
