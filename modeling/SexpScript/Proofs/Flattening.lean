import SexpScript.Proofs.Counter

/-! # Items written back as tokens

    Reading groups tokens and does nothing else to them: written back, the items are the
    tokens that were read, in their order.

    - `written` writes back what the reader holds while it reads, with its open groups still
      open.  Each token that is read goes to the end of it (`written_open`,
      `written_close`, `written_token`).
    - At the end of input every open group is closed, which adds one closing paren for each
      (`flattenAll_closeAll`).
    - Groups that are written down as tokens spell themselves, so they are read again
      (`spells_flattenAll`).

    How a paren is spelled is lost in a group, so tokens are compared up to that (`Alike`).
-/

namespace SexpScript

/-! ### Tokens up to the spelling of parens -/

/-- The token, a paren being spelled as in items that are written back. -/
def Token.canonical (t : Token) : Token :=
  match t.kind with
  | .openParen => ⟨.openParen, "("⟩
  | .closeParen => ⟨.closeParen, ")"⟩
  | _ => t

/-- The same tokens in the same order, parens being compared by their kind alone. -/
def Alike (ts us : List Token) : Prop := ts.map Token.canonical = us.map Token.canonical

/-- The tokens of groups that are closed at the end of input. -/
def closings (k : Nat) : List Token := List.replicate k ⟨.closeParen, ")"⟩

theorem Token.canonical_open {t : Token} (h : t.kind = .openParen) :
    t.canonical = Token.canonical ⟨.openParen, "("⟩ := by
  simp only [canonical, h]

theorem Token.canonical_close {t : Token} (h : t.kind = .closeParen) :
    t.canonical = Token.canonical ⟨.closeParen, ")"⟩ := by
  simp only [canonical, h]

/-- What is alike to tokens with one more token behind them. -/
theorem Alike.snoc {ts us vs ws : List Token} {t u : Token} (h : Alike ts (us ++ [u] ++ vs ++ ws))
    (htoken : t.canonical = u.canonical) : Alike ts (us ++ t :: vs ++ ws) := by
  unfold Alike at h ⊢
  rw [h]
  simp [htoken]

/-! ### What the reader holds -/

namespace Item

theorem flattenAll_append (items rest : List Item) :
    flattenAll (items ++ rest) = flattenAll items ++ flattenAll rest := by
  induction items with
  | nil => rfl
  | cons item items ih => simp [flattenAll, ih]

theorem flattenAll_reverse_cons (item : Item) (items : List Item) :
    flattenAll (item :: items).reverse = flattenAll items.reverse ++ flatten item := by
  rw [List.reverse_cons, flattenAll_append]
  simp [flattenAll]

end Item

namespace Reading

/-- The tokens read so far, from the innermost open group and those around it.  Open groups
    are written without their closing paren. -/
def written (current : List Item) : List (List Item) → List Token
  | [] => Item.flattenAll current.reverse
  | above :: outer => written above outer ++ ⟨.openParen, "("⟩ :: Item.flattenAll current.reverse

section written
variable (current above : List Item) (outer : List (List Item))

/-- One more item in the innermost group. -/
theorem written_cons (item : Item) :
    written (item :: current) outer = written current outer ++ item.flatten := by
  cases outer with
  | nil => exact Item.flattenAll_reverse_cons item current
  | cons above outer =>
    rw [written, written, Item.flattenAll_reverse_cons]
    simp

theorem written_open :
    written [] (current :: outer) = written current outer ++ [⟨.openParen, "("⟩] := by
  simp [written, Item.flattenAll]

theorem written_token (t : Token) :
    written (.token t :: current) outer = written current outer ++ [t] := by
  rw [written_cons, Item.flatten]

theorem written_close :
    written (.group current.reverse :: above) outer =
      written current (above :: outer) ++ [⟨.closeParen, ")"⟩] := by
  simp [written_cons, written, Item.flatten]

/-- The end of input closes every open group. -/
theorem flattenAll_closeAll :
    Item.flattenAll (closeAll current outer) = written current outer ++ closings outer.length := by
  induction outer generalizing current with
  | nil => simp [closeAll, written, closings]
  | cons above outer ih =>
    calc Item.flattenAll (closeAll current (above :: outer))
        = written (.group current.reverse :: above) outer ++ closings outer.length := ih _
      _ = written current (above :: outer) ++ closings (outer.length + 1) := by
          rw [written_close, List.append_assoc]
          rfl

end written

/-- Whatever is open, a pass writes back what was read before it and by it.  It ends where
    the input does, and then with as many closing parens as its depth has gone up, or else
    some tokens are left. -/
theorem alike_of_readFrom {limit : Nat} {depth : Int} {current : List Item}
    {outer : List (List Item)} {ts : List Token} {r : Reading}
    (h : readFrom limit depth current outer ts = .ok r) :
    ∃ k : Nat,
      Alike (Item.flattenAll r.items ++ r.rest) (written current outer ++ ts ++ closings k) ∧
      (r.rest = [] → r.depth = depth + k) ∧ (r.rest ≠ [] → k = 0) := by
  induction ts generalizing current outer with
  | nil =>
    rw [readFrom] at h
    cases h
    refine ⟨outer.length, ?_, fun _ => rfl, fun hrest => absurd rfl hrest⟩
    simp only [flattenAll_closeAll, List.append_nil]
    rfl
  | cons t ts ih =>
    rcases t.paren_or_plain with ht | ht | ht
    · rw [readFrom_open ht] at h
      split at h
      · obtain ⟨k, halike, hend⟩ := ih h
        rw [written_open] at halike
        exact ⟨k, halike.snoc (Token.canonical_open ht), hend⟩
      · cases h
    · cases outer with
      | nil =>
        -- Nothing is open, so the paren and all behind it are left unread.
        rw [readFrom_close_nil ht] at h
        cases h
        refine ⟨0, ?_, fun hrest => absurd hrest (List.cons_ne_nil _ _), fun _ => rfl⟩
        show Alike (Item.flattenAll current.reverse ++ t :: ts)
          (Item.flattenAll current.reverse ++ t :: ts ++ [])
        rw [List.append_nil]
        rfl
      | cons above outer =>
        rw [readFrom_close_cons ht] at h
        obtain ⟨k, halike, hend⟩ := ih h
        rw [written_close] at halike
        exact ⟨k, halike.snoc (Token.canonical_close ht), hend⟩
    · rw [readFrom_plain ht] at h
      split at h
      · obtain ⟨k, halike, hend⟩ := ih h
        rw [written_token] at halike
        exact ⟨k, halike.snoc rfl, hend⟩
      · cases h

/-- A pass that gives items has ended at an unmatched paren or at the end of input. -/
theorem firstStop_of_readItems {limit : Nat} {depth : Int} {tokens : List Token} {r : Reading}
    (h : readItems limit depth tokens = .ok r) :
    ∃ n, FirstStop limit depth tokens n .unmatched ∧ r.rest ≠ [] ∨
      FirstStop limit depth tokens n .finished ∧ r.rest = [] := by
  obtain ⟨n, stop, hstop⟩ := exists_firstStop limit depth tokens
  have hread := hstop.map_readItems
  rw [h] at hread
  refine ⟨n, ?_⟩
  cases stop with
  | outside => cases hread
  | overflow => cases hread
  | unmatched =>
    have hrest : r.rest = tokens.drop n := congrArg Prod.snd (Except.ok.inj hread)
    refine .inl ⟨hstop, ?_⟩
    intro hnil
    -- At the end of input there would be a stop of another kind.
    have hhere := hstop.here
    rw [stopAt?, ← hrest, hnil] at hhere
    cases hhere
  | finished =>
    have hrest : r.rest = [] := congrArg Prod.snd (Except.ok.inj hread)
    exact .inr ⟨hstop, hrest⟩

end Reading

/-! ### Items that are read again -/

namespace Item

mutual

/-- No token in the item is a paren. -/
def ParenFree : Item → Prop
  | .token t => t.Plain
  | .group items => ParenFreeAll items

/-- No token in the items is a paren. -/
def ParenFreeAll : List Item → Prop
  | [] => True
  | item :: items => ParenFree item ∧ ParenFreeAll items

end

mutual

/-- An item without parens is spelled by its tokens, before anything that is spelled. -/
theorem spells_flatten : (item : Item) → item.ParenFree → {ts : List Token} → {rest : List Item} →
    Spells ts rest → Spells (item.flatten ++ ts) (item :: rest)
  | .token _, hplain, _, _, hrest => .token hplain hrest
  | .group items, hfree, ts, rest, hrest => by
    have hgroup : Spells (⟨.openParen, "("⟩ :: flattenAll items ++ ⟨.closeParen, ")"⟩ :: ts)
        (.group items :: rest) := .group rfl (spells_flattenAll items hfree) rfl hrest
    simpa [flatten] using hgroup

/-- Items without parens are spelled by their tokens. -/
theorem spells_flattenAll : (items : List Item) → ParenFreeAll items →
    Spells (flattenAll items) items
  | [], _ => .nil
  | item :: items, hfree => spells_flatten item hfree.1 (spells_flattenAll items hfree.2)

end

end Item

/-- Grouping and writing back undo each other.  What a pass gives, written back, is the tokens
    it was given: with the tokens it left, if it stopped at an unmatched paren, and with
    one closing paren for each group that it left open, if it reached the end of input.
    Groups that are written down as tokens are read again. -/
theorem readItems_inverse_flatten (limit : Nat) :
    (∀ depth tokens r, readItems limit depth tokens = .ok r →
      (∃ n, Reading.FirstStop limit depth tokens n .unmatched) ∧ r.rest ≠ [] ∧
          Alike (Item.flattenAll r.items ++ r.rest) tokens ∨
        (∃ n, Reading.FirstStop limit depth tokens n .finished) ∧ r.rest = [] ∧
          ∃ k : Nat, r.depth = depth + k ∧
            Alike (Item.flattenAll r.items) (tokens ++ closings k)) ∧
    ∀ items, Item.AllGroups items → Item.ParenFreeAll items → Item.depthAll items ≤ limit →
      readItems limit 0 (Item.flattenAll items) = .ok { depth := 0, rest := [], items } := by
  refine ⟨?_, ?_⟩
  · intro depth tokens r h
    obtain ⟨n, hstop⟩ := Reading.firstStop_of_readItems h
    obtain ⟨k, halike, hfinished, hleft⟩ := Reading.alike_of_readFrom h
    -- Nothing was read before the first token.
    rw [show Reading.written [] [] = [] from rfl, List.nil_append] at halike
    rcases hstop with ⟨hstop, hrest⟩ | ⟨hstop, hrest⟩
    · rw [hleft hrest, show closings 0 = [] from rfl, List.append_nil] at halike
      exact .inl ⟨⟨n, hstop⟩, hrest, halike⟩
    · rw [hrest, List.append_nil] at halike
      exact .inr ⟨⟨n, hstop⟩, hrest, k, hfinished hrest, halike⟩
  · intro items hgroups hfree hdepth
    exact Reading.readItems_of_spells (Item.spells_flattenAll items hfree) hgroups hdepth

/-- Two groups are left open, the first by a paren of another spelling. -/
theorem readItems_inverse_flatten_unclosed :
    let tokens : List Token :=
      [⟨.openParen, "["⟩, ⟨.identifier, "f"⟩, ⟨.openParen, "("⟩, ⟨.number, "1"⟩]
    let items : List Item :=
      [.group [.token ⟨.identifier, "f"⟩, .group [.token ⟨.number, "1"⟩]]]
    readItems 2 0 tokens = .ok { depth := 2, rest := [], items } ∧
      (∃ k : Nat, (2 : Int) = 0 + k ∧ Alike (Item.flattenAll items) (tokens ++ closings k)) ∧
      readItems 2 0 (Item.flattenAll items) = .ok { depth := 0, rest := [], items } := by
  intro tokens items
  have hread : readItems 2 0 tokens = .ok { depth := 2, rest := [], items } := rfl
  obtain ⟨hback, hforth⟩ := readItems_inverse_flatten 2
  refine ⟨hread, ?_, ?_⟩
  · rcases hback 0 tokens _ hread with ⟨_, hrest, _⟩ | ⟨_, _, hclosings⟩
    · exact absurd rfl hrest
    · exact hclosings
  · have hfree : Item.ParenFreeAll items := by
      simp [items, Item.ParenFreeAll, Item.ParenFree, Token.Plain]
    exact hforth items (Item.AllGroups.group .nil) hfree (by decide)

end SexpScript
