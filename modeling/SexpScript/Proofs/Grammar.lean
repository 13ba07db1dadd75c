import SexpScript.Form.Building
import SexpScript.Proofs.Brackets
import Mathlib.Data.List.Forall2

/-! # The grammar of programs

    A program is a sequence of forms, and a form is one of five shapes between
    parens.  `IsProgram`, `IsForm`, `IsElement` and `AreElements` are the
    nonterminals, as relations between tokens and what they mean.  Reading a
    program is compared with the grammar in both directions.

    - Soundness: what is built from the items that tokens spell is derived from the
      tokens (`isForm_of_ofGroup`, `isProgram_of_ofItems`).
    - Completeness: tokens from which forms are derived spell items from which these
      forms are built, given levels enough (`Builds`, `exists_builds_of_isForm`).
    - Overflow: only items with too many levels run out of them
      (`lt_depth_of_ofGroup_overflow`).
-/

namespace SexpScript

/-! ### Outcomes -/

section outcomes
variable {α β ε : Type}

theorem bind_eq_ok {x : Except ε α} {f : α → Except ε β} {b : β} :
    (x >>= f) = .ok b ↔ ∃ a, x = .ok a ∧ f a = .ok b := by
  cases x with
  | error e => exact ⟨nofun, nofun⟩
  | ok a => exact ⟨fun h => ⟨a, rfl, h⟩, fun ⟨_, ha, h⟩ => by cases ha; exact h⟩

theorem bind_eq_error {x : Except ε α} {f : α → Except ε β} {e : ε} :
    (x >>= f) = .error e ↔ x = .error e ∨ ∃ a, x = .ok a ∧ f a = .error e := by
  cases x with
  | error e' =>
    constructor
    · intro h
      cases h
      exact .inl rfl
    · rintro (h | ⟨_, h, _⟩) <;> cases h
      rfl
  | ok a =>
    constructor
    · exact fun h => .inr ⟨a, rfl, h⟩
    · rintro (h | ⟨_, ha, h⟩)
      · cases h
      · cases ha
        exact h

theorem mapM_cons_eq_ok {f : α → Except ε β} {x : α} {xs : List α} {ys : List β} :
    (x :: xs).mapM f = .ok ys ↔ ∃ y zs, f x = .ok y ∧ xs.mapM f = .ok zs ∧ ys = y :: zs := by
  rw [List.mapM_cons, bind_eq_ok]
  constructor
  · rintro ⟨y, hy, h⟩
    obtain ⟨zs, hzs, h⟩ := bind_eq_ok.mp h
    cases h
    exact ⟨y, zs, hy, hzs, rfl⟩
  · rintro ⟨y, zs, hy, hzs, rfl⟩
    exact ⟨y, hy, bind_eq_ok.mpr ⟨zs, hzs, rfl⟩⟩

/-- The first failure of a list of steps is the failure of one of them. -/
theorem exists_of_mapM_eq_error {f : α → Except ε β} {xs : List α} {e : ε}
    (h : xs.mapM f = .error e) : ∃ x ∈ xs, f x = .error e := by
  induction xs with
  | nil => cases h
  | cons x xs ih =>
    rw [List.mapM_cons] at h
    rcases bind_eq_error.mp h with h | ⟨y, _, h⟩
    · exact ⟨x, List.mem_cons_self, h⟩
    · rcases bind_eq_error.mp h with h | ⟨zs, _, h⟩
      · obtain ⟨x', hmem, hx'⟩ := ih h
        exact ⟨x', List.mem_cons_of_mem _ hmem, hx'⟩
      · cases h

end outcomes

/-! ### The grammar -/

mutual

/-- A form: nothing, a call or a definition between parens. -/
inductive IsForm : List Token → Form → Prop where
  /-- `( )` -/
  | empty {o c : Token} : o.kind = .openParen → c.kind = .closeParen → IsForm [o, c] .empty
  /-- `( identifier element* )` -/
  | call {o name c : Token} {ts : List Token} {args : List Form} :
      o.kind = .openParen → name.kind = .identifier → AreElements ts args →
      c.kind = .closeParen → IsForm (o :: name :: ts ++ [c]) (.call name.text args)
  /-- `( defconstant token token )` -/
  | defconstant {o keyword name value c : Token} :
      o.kind = .openParen → keyword.kind = .defconstant → name.Plain → value.Plain →
      c.kind = .closeParen →
      IsForm [o, keyword, name, value, c] (.defconstant name.text value.text)
  /-- `( defvar token token )` -/
  | defvar {o keyword name value c : Token} :
      o.kind = .openParen → keyword.kind = .defvar → name.Plain → value.Plain →
      c.kind = .closeParen → IsForm [o, keyword, name, value, c] (.defvar name.text value.text)
  /-- `( defun token ( token* ) element* )`, the parameters being distinct -/
  | defun {o keyword name o' c' c : Token} {params ts : List Token} {body : List Form} :
      o.kind = .openParen → keyword.kind = .defun → name.Plain → o'.kind = .openParen →
      (∀ t ∈ params, t.Plain) → (params.map Token.text).Nodup → c'.kind = .closeParen →
      AreElements ts body → c.kind = .closeParen →
      IsForm (o :: keyword :: name :: o' :: params ++ c' :: ts ++ [c])
        (.defun name.text (params.map Token.text) body)

/-- An element: a form, or a token that stands for itself. -/
inductive IsElement : List Token → Form → Prop where
  | form {ts : List Token} {form : Form} : IsForm ts form → IsElement ts form
  | leaf {t : Token} :
      t.kind = .number ∨ t.kind = .string ∨ t.kind = .boolean ∨ t.kind = .identifier →
      IsElement [t] (.leaf t)

/-- A sequence of elements. -/
inductive AreElements : List Token → List Form → Prop where
  | nil : AreElements [] []
  | cons {ts us : List Token} {form : Form} {forms : List Form} :
      IsElement ts form → AreElements us forms → AreElements (ts ++ us) (form :: forms)

end

/-- A program: a sequence of forms. -/
inductive IsProgram : List Token → List Form → Prop where
  | nil : IsProgram [] []
  | cons {ts us : List Token} {form : Form} {forms : List Form} :
      IsForm ts form → IsProgram us forms → IsProgram (ts ++ us) (form :: forms)

/-- The tokens that are no comments. -/
def withoutComments (tokens : List Token) : List Token :=
  tokens.filter fun t => t.kind ≠ .comment

theorem withoutComments_append (ts us : List Token) :
    withoutComments (ts ++ us) = withoutComments ts ++ withoutComments us :=
  List.filter_append ts us

theorem withoutComments_cons {t : Token} (h : t.kind ≠ .comment) (ts : List Token) :
    withoutComments (t :: ts) = t :: withoutComments ts :=
  List.filter_cons_of_pos (decide_eq_true h)

/-! ### Leaves, parameters, repeats -/

theorem Token.Kind.isLeaf_iff {kind : Token.Kind} : kind.isLeaf = true ↔
    kind = .number ∨ kind = .string ∨ kind = .boolean ∨ kind = .identifier := by
  cases kind <;> decide

theorem Token.plain_of_isLeaf {t : Token} (h : t.kind.isLeaf = true) : t.Plain := by
  constructor <;> (intro hk; rw [hk] at h; exact absurd h (by decide))

/-- Items that are all tokens are spelled by these tokens. -/
theorem spells_tokens {tokens : List Token} (h : ∀ t ∈ tokens, t.Plain) :
    Spells tokens (tokens.map .token) := by
  induction tokens with
  | nil => exact .nil
  | cons t tokens ih =>
    exact .token (h t List.mem_cons_self) (ih fun u hu => h u (List.mem_cons_of_mem _ hu))

theorem Spells.of_tokens {ts tokens : List Token} (h : Spells ts (tokens.map .token)) :
    ts = tokens ∧ ∀ t ∈ tokens, t.Plain := by
  induction tokens generalizing ts with
  | nil => cases h; exact ⟨rfl, nofun⟩
  | cons t tokens ih =>
    cases h with
    | token ht h =>
      obtain ⟨rfl, hplain⟩ := ih h
      refine ⟨rfl, fun u hu => ?_⟩
      rcases List.mem_cons.mp hu with rfl | hu
      · exact ht
      · exact hplain u hu

theorem Spells.append {ts us : List Token} {items rest : List Item} (h : Spells ts items)
    (h' : Spells us rest) : Spells (ts ++ us) (items ++ rest) := by
  induction h with
  | nil => exact h'
  | token ht _ ih => exact .token ht ih
  | group ho hinner hc _ _ ih =>
    rw [List.append_assoc, List.cons_append]
    exact .group ho hinner hc ih

theorem mapM_token?_eq_some {items : List Item} {tokens : List Token} :
    items.mapM Item.token? = some tokens ↔ items = tokens.map .token := by
  induction items generalizing tokens with
  | nil => cases tokens <;> simp
  | cons item items ih =>
    cases item with
    | group inner => cases tokens <;> simp [Item.token?]
    | token t =>
      rw [List.mapM_cons]
      cases tokens <;> simp [Item.token?, Option.bind_eq_some_iff, ih, and_comm]

/-- Nothing repeats exactly if the texts differ from each other and from those
    seen before. -/
theorem Form.firstRepeat?_eq_none {seen texts : List String} :
    firstRepeat? seen texts = none ↔ texts.Nodup ∧ ∀ text ∈ texts, text ∉ seen := by
  induction texts generalizing seen with
  | nil => simp [firstRepeat?]
  | cons text texts ih =>
    rw [firstRepeat?]
    by_cases hseen : text ∈ seen
    · simp [hseen]
    · simp only [List.contains_eq_mem, hseen, decide_false, Bool.false_eq_true, if_false, ih,
        List.mem_cons, List.nodup_cons, forall_eq_or_imp, not_or]
      constructor
      · rintro ⟨hnodup, hnew⟩
        exact ⟨⟨fun hmem => (hnew text hmem).1 rfl, hnodup⟩, not_false, fun u hu => (hnew u hu).2⟩
      · rintro ⟨⟨hfresh, hnodup⟩, _, hnew⟩
        exact ⟨hnodup, fun u hu => ⟨fun heq => hfresh (heq ▸ hu), hnew u hu⟩⟩

namespace Form

/-! ### Shapes of groups -/

/-- The items of a group that means a form, where `args` says what its arguments
    mean. -/
inductive Shape (args : List Item → List Form → Prop) : List Item → Form → Prop where
  | empty : Shape args [] .empty
  | call {name : Token} {items : List Item} {forms : List Form} :
      name.kind = .identifier → args items forms →
      Shape args (.token name :: items) (.call name.text forms)
  | defconstant {keyword name value : Token} :
      keyword.kind = .defconstant →
      Shape args [.token keyword, .token name, .token value] (.defconstant name.text value.text)
  | defvar {keyword name value : Token} :
      keyword.kind = .defvar →
      Shape args [.token keyword, .token name, .token value] (.defvar name.text value.text)
  | defun {keyword name : Token} {params : List Token} {items : List Item} {forms : List Form} :
      keyword.kind = .defun → (params.map Token.text).Nodup → args items forms →
      Shape args (.token keyword :: .token name :: .group (params.map .token) :: items)
        (.defun name.text (params.map Token.text) forms)

/-- The arguments `items` are built as `forms`, given `limit` levels. -/
def BuildsArgs (limit : Nat) (items : List Item) (forms : List Form) : Prop :=
  items.mapM (ofItem (ofGroup limit)) = .ok forms

theorem definition_eq_ok {make : String → String → Form} {error : SyntaxError}
    {items : List Item} {form : Form} :
    definition make error items = .ok form ↔
      ∃ name value, items = [.token name, .token value] ∧ form = make name.text value.text := by
  constructor
  · intro h
    unfold definition at h
    split at h
    · next name value =>
      cases h
      exact ⟨name, value, rfl, rfl⟩
    · cases h
  · rintro ⟨name, value, rfl, rfl⟩
    rfl

theorem function_eq_ok {build : List Item → Except Failure Form} {items : List Item}
    {form : Form} :
    function build items = .ok form ↔
      ∃ (name : Token) (params : List Token) (body : List Item) (forms : List Form),
        items = .token name :: .group (params.map .token) :: body ∧
        (params.map Token.text).Nodup ∧ body.mapM (ofItem build) = .ok forms ∧
        form = .defun name.text (params.map Token.text) forms := by
  constructor
  · intro h
    unfold function at h
    split at h
    · next name inner body =>
      split at h
      · cases h
      · next params hparams =>
        dsimp only at h
        split at h
        · cases h
        · next hrepeat =>
          obtain ⟨forms, hforms, h⟩ := bind_eq_ok.mp h
          cases h
          rw [mapM_token?_eq_some.mp hparams]
          exact ⟨name, params, body, forms, rfl, (firstRepeat?_eq_none.mp hrepeat).1, hforms, rfl⟩
    · cases h
  · rintro ⟨name, params, body, forms, rfl, hnodup, hforms, rfl⟩
    have hrepeat : firstRepeat? [] (params.map Token.text) = none :=
      firstRepeat?_eq_none.mpr ⟨hnodup, fun _ _ => List.not_mem_nil⟩
    simp only [function, mapM_token?_eq_some.mpr rfl, hrepeat]
    exact bind_eq_ok.mpr ⟨forms, hforms, rfl⟩

/-- The items from which a form is built are of its shape, and items of a shape are
    built so. -/
theorem ofGroup_eq_ok {limit : Nat} {items : List Item} {form : Form} :
    ofGroup (limit + 1) items = .ok form ↔ Shape (BuildsArgs limit) items form := by
  constructor
  · intro h
    match items with
    | [] =>
      cases h
      exact .empty
    | .group _ :: _ => cases h
    | .token head :: items =>
      rw [ofGroup] at h
      split at h
      · next hhead =>
        obtain ⟨args, hargs, h⟩ := bind_eq_ok.mp h
        cases h
        exact .call hhead hargs
      · next hhead =>
        obtain ⟨name, value, rfl, rfl⟩ := definition_eq_ok.mp h
        exact .defconstant hhead
      · next hhead =>
        obtain ⟨name, value, rfl, rfl⟩ := definition_eq_ok.mp h
        exact .defvar hhead
      · next hhead =>
        obtain ⟨name, params, body, forms, rfl, hnodup, hforms, rfl⟩ := function_eq_ok.mp h
        exact .defun hhead hnodup hforms
      · cases h
  · intro h
    cases h with
    | empty => rfl
    | call hhead hargs =>
      rw [ofGroup, hhead]
      exact bind_eq_ok.mpr ⟨_, hargs, rfl⟩
    | defconstant hhead =>
      rw [ofGroup, hhead]
      rfl
    | defvar hhead =>
      rw [ofGroup, hhead]
      rfl
    | defun hhead hnodup hforms =>
      rw [ofGroup, hhead]
      exact function_eq_ok.mpr ⟨_, _, _, _, rfl, hnodup, hforms, rfl⟩

/-! ### Soundness -/

/-- Elements that are built from what tokens spell are elements of the tokens, if
    groups are built so. -/
theorem areElements_of_mapM {build : List Item → Except Failure Form}
    (hbuild : ∀ {ts items form o c}, Spells ts items → build items = .ok form →
      o.kind = .openParen → c.kind = .closeParen → IsForm (o :: ts ++ [c]) form)
    {ts : List Token} {items : List Item} {forms : List Form} (hspells : Spells ts items)
    (h : items.mapM (ofItem build) = .ok forms) : AreElements ts forms := by
  -- On what the tokens spell, so that each item comes with its own tokens.
  induction hspells generalizing forms with
  | nil =>
    cases h
    exact .nil
  | @token t ts items _ _ ih =>
    obtain ⟨form, rest, hform, hrest, rfl⟩ := mapM_cons_eq_ok.mp h
    rw [ofItem] at hform
    split at hform
    · next hleaf =>
      cases hform
      exact .cons (.leaf (Token.Kind.isLeaf_iff.mp hleaf)) (ih hrest)
    · cases hform
  | @group o c inner ts items rest ho hinner hc _ _ ih =>
    obtain ⟨form, forms, hform, hforms, rfl⟩ := mapM_cons_eq_ok.mp h
    rw [List.append_cons]
    exact .cons (.form (hbuild hinner hform ho hc)) (ih hforms)

/-- A form that is built from the items of a group is derived from its tokens. -/
theorem isForm_of_ofGroup {limit : Nat} {ts : List Token} {items : List Item} {form : Form}
    {o c : Token} (hspells : Spells ts items) (h : ofGroup limit items = .ok form)
    (ho : o.kind = .openParen) (hc : c.kind = .closeParen) : IsForm (o :: ts ++ [c]) form := by
  induction limit generalizing ts items form o c with
  | zero => cases h
  | succ limit ih =>
    cases ofGroup_eq_ok.mp h with
    | empty =>
      cases hspells
      exact .empty ho hc
    | call hname hargs =>
      cases hspells with
      | token _ hspells => exact .call ho hname (areElements_of_mapM ih hspells hargs) hc
    | @defconstant keyword name value hkeyword =>
      have htokens : Spells ts ([keyword, name, value].map .token) := hspells
      obtain ⟨rfl, hplain⟩ := htokens.of_tokens
      exact .defconstant ho hkeyword (hplain name (by simp)) (hplain value (by simp)) hc
    | @defvar keyword name value hkeyword =>
      have htokens : Spells ts ([keyword, name, value].map .token) := hspells
      obtain ⟨rfl, hplain⟩ := htokens.of_tokens
      exact .defvar ho hkeyword (hplain name (by simp)) (hplain value (by simp)) hc
    | @defun keyword name params items forms hkeyword hnodup hforms =>
      -- Two tokens, then the group of parameters, then the body.
      obtain _ | ⟨_, _ | ⟨hname, hspells⟩⟩ := hspells
      obtain _ | _ | ⟨ho', hinner, hc', hrest⟩ := hspells
      obtain ⟨rfl, hplain⟩ := hinner.of_tokens
      have hform := IsForm.defun ho hkeyword hname ho' hplain hnodup hc'
        (areElements_of_mapM ih hrest hforms) hc
      simpa using hform

theorem ofItems_group_eq_ok {items rest : List Item} {forms : List Form} :
    ofItems (.group items :: rest) = .ok forms ↔
      ∃ form more, ofGroup Nesting.forms items = .ok form ∧ ofItems rest = .ok more ∧
        forms = form :: more :=
  mapM_cons_eq_ok

/-- Forms that are built from groups are derived from what spells the groups. -/
theorem isProgram_of_ofItems {ts : List Token} {items : List Item} {forms : List Form}
    (hspells : Spells ts items) (hgroups : Item.AllGroups items)
    (h : ofItems items = .ok forms) : IsProgram ts forms := by
  induction hspells generalizing forms with
  | nil =>
    cases h
    exact .nil
  | token => exact absurd hgroups Item.AllGroups.not_token
  | @group o c inner ts items rest ho hinner hc _ _ ih =>
    obtain ⟨form, forms, hform, hforms, rfl⟩ := ofItems_group_eq_ok.mp h
    rw [List.append_cons]
    exact .cons (isForm_of_ofGroup hinner hform ho hc) (ih hgroups.tail hforms)

/-! ### Completeness -/

mutual

/-- The levels of groups from which a form is built. -/
def levels : Form → Nat
  | .leaf _ => 0
  | .call _ args => levelsAll args + 1
  | .defun _ _ body => levelsAll body + 1
  | _ => 1

/-- The levels of groups in the deepest of several forms. -/
def levelsAll : List Form → Nat
  | [] => 0
  | form :: forms => max (levels form) (levelsAll forms)

end

/-- The form is built from the item, given levels enough.  The item has as many
    levels as the form, or one more for a group of parameters. -/
structure Builds (item : Item) (form : Form) : Prop where
  lower : form.levels ≤ item.depth
  upper : item.depth ≤ form.levels + 1
  build : ∀ limit, form.levels ≤ limit → ofItem (ofGroup limit) item = .ok form

section builds
variable {items : List Item} {forms : List Form}

theorem levelsAll_le_depthAll (h : List.Forall₂ Builds items forms) :
    levelsAll forms ≤ Item.depthAll items := by
  induction h with
  | nil => exact Nat.le_refl 0
  | cons hbuilds _ ih =>
    have := hbuilds.lower
    simp only [levelsAll, Item.depthAll]
    omega

theorem depthAll_le_levelsAll (h : List.Forall₂ Builds items forms) :
    Item.depthAll items ≤ levelsAll forms + 1 := by
  induction h with
  | nil => exact Nat.zero_le 1
  | cons hbuilds _ ih =>
    have := hbuilds.upper
    simp only [levelsAll, Item.depthAll]
    omega

theorem mapM_of_builds (h : List.Forall₂ Builds items forms) {limit : Nat}
    (hlimit : levelsAll forms ≤ limit) : BuildsArgs limit items forms := by
  induction h with
  | nil => rfl
  | @cons item form items forms hbuilds _ ih =>
    simp only [levelsAll] at hlimit
    exact mapM_cons_eq_ok.mpr
      ⟨form, forms, hbuilds.build limit (by omega), ih (by omega), rfl⟩

/-- What a group means has a level, that of the group. -/
theorem Shape.levels_pos {args : List Item → List Form → Prop} {form : Form}
    (h : Shape args items form) : 0 < form.levels := by
  cases h <;> simp [levels]

/-- A form is built from a group that has its shape wherever the levels are enough. -/
theorem builds_of_shape {form : Form} (hlower : form.levels ≤ Item.depthAll items + 1)
    (hupper : Item.depthAll items ≤ form.levels)
    (h : ∀ limit, form.levels ≤ limit + 1 → Shape (BuildsArgs limit) items form) :
    Builds (.group items) form where
  lower := hlower
  upper := Nat.succ_le_succ hupper
  build := by
    intro limit hlimit
    cases limit with
    | zero =>
      have hpos := (h 0 (Nat.le_succ_of_le hlimit)).levels_pos
      omega
    | succ limit => exact ofGroup_eq_ok.mpr (h limit hlimit)

theorem builds_call {name : Token} (hname : name.kind = .identifier)
    (h : List.Forall₂ Builds items forms) :
    Builds (.group (.token name :: items)) (.call name.text forms) := by
  have hlower := levelsAll_le_depthAll h
  have hupper := depthAll_le_levelsAll h
  apply builds_of_shape
  · simp only [levels, Item.depth, Item.depthAll]
    omega
  · simp only [levels, Item.depth, Item.depthAll]
    omega
  · intro limit hlimit
    exact .call hname (mapM_of_builds h (Nat.le_of_succ_le_succ hlimit))

/-- A definition by name and value is built at any level but none. -/
theorem builds_definition {keyword name value : Token} {form : Form} (hlevels : form.levels = 1)
    (h : ∀ args, Shape args [.token keyword, .token name, .token value] form) :
    Builds (.group [.token keyword, .token name, .token value]) form := by
  apply builds_of_shape
  · simp [hlevels]
  · simp [Item.depth, Item.depthAll]
  · intro limit _
    exact h _

theorem depthAll_tokens (tokens : List Token) : Item.depthAll (tokens.map .token) = 0 := by
  induction tokens with
  | nil => rfl
  | cons t tokens ih => simp [Item.depthAll, Item.depth, ih]

theorem builds_defun {keyword name : Token} {params : List Token} (hkeyword : keyword.kind = .defun)
    (hnodup : (params.map Token.text).Nodup) (h : List.Forall₂ Builds items forms) :
    Builds (.group (.token keyword :: .token name :: .group (params.map .token) :: items))
      (.defun name.text (params.map Token.text) forms) := by
  have hlower := levelsAll_le_depthAll h
  have hupper := depthAll_le_levelsAll h
  apply builds_of_shape
  · simp only [levels, Item.depth, Item.depthAll]
    omega
  · -- The group of parameters is a level that the form does not have.
    simp only [levels, Item.depth, Item.depthAll, depthAll_tokens]
    omega
  · intro limit hlimit
    exact .defun hkeyword hnodup (mapM_of_builds h (Nat.le_of_succ_le_succ hlimit))

end builds

mutual

/-- Tokens of a form spell a group from which the form is built. -/
theorem exists_builds_of_isForm {ts : List Token} {form : Form} :
    IsForm ts form → ∃ items, Spells ts [.group items] ∧ Builds (.group items) form
  | .empty ho hc => by
    have hbuilds : Builds (.group []) .empty := by
      apply builds_of_shape
      · exact Nat.le_refl 1
      · exact Nat.zero_le 1
      · intro limit _
        exact .empty
    exact ⟨[], .group ho .nil hc .nil, hbuilds⟩
  | .call ho hname helements hc => by
    obtain ⟨items, hspells, hbuilds⟩ := exists_builds_of_areElements helements
    have hplain : Token.Plain _ := Token.plain_of_isLeaf (by rw [hname]; decide)
    exact ⟨_, .group ho (.token hplain hspells) hc .nil, builds_call hname hbuilds⟩
  | @IsForm.defconstant _ keyword _ _ _ ho hkeyword hname hvalue hc => by
    have hplain : keyword.Plain := by simp [Token.Plain, hkeyword]
    exact ⟨_, .group ho (.token hplain (.token hname (.token hvalue .nil))) hc .nil,
      builds_definition rfl fun _ => .defconstant hkeyword⟩
  | @IsForm.defvar _ keyword _ _ _ ho hkeyword hname hvalue hc => by
    have hplain : keyword.Plain := by simp [Token.Plain, hkeyword]
    exact ⟨_, .group ho (.token hplain (.token hname (.token hvalue .nil))) hc .nil,
      builds_definition rfl fun _ => .defvar hkeyword⟩
  | @IsForm.defun _ keyword _ _ _ _ _ _ _ ho hkeyword hname ho' hparams hnodup hc' helements
      hc => by
    obtain ⟨items, hspells, hbuilds⟩ := exists_builds_of_areElements helements
    have hplain : keyword.Plain := by simp [Token.Plain, hkeyword]
    have hinner := Spells.token hplain
      (.token hname (.group ho' (spells_tokens hparams) hc' hspells))
    refine ⟨_, ?_, builds_defun hkeyword hnodup hbuilds⟩
    simpa using Spells.group ho hinner hc .nil

/-- Tokens of an element spell an item from which it is built. -/
theorem exists_builds_of_isElement {ts : List Token} {form : Form} :
    IsElement ts form → ∃ item, Spells ts [item] ∧ Builds item form
  | .form hform => by
    obtain ⟨items, hspells, hbuilds⟩ := exists_builds_of_isForm hform
    exact ⟨.group items, hspells, hbuilds⟩
  | .leaf hleaf => by
    have hleaf := Token.Kind.isLeaf_iff.mpr hleaf
    refine ⟨_, .token (Token.plain_of_isLeaf hleaf) .nil, Nat.le_refl 0, Nat.zero_le 1, ?_⟩
    intro limit _
    rw [ofItem, if_pos hleaf]

/-- Tokens of elements spell items from which these are built. -/
theorem exists_builds_of_areElements {ts : List Token} {forms : List Form} :
    AreElements ts forms → ∃ items, Spells ts items ∧ List.Forall₂ Builds items forms
  | .nil => ⟨[], .nil, .nil⟩
  | .cons helement helements => by
    obtain ⟨item, hspells, hbuilds⟩ := exists_builds_of_isElement helement
    obtain ⟨items, hspells', hbuilds'⟩ := exists_builds_of_areElements helements
    exact ⟨item :: items, hspells.append hspells', .cons hbuilds hbuilds'⟩

end

/-- Tokens of a program spell groups from which its forms are built. -/
theorem exists_builds_of_isProgram {ts : List Token} {forms : List Form}
    (h : IsProgram ts forms) :
    ∃ items, Spells ts items ∧ Item.AllGroups items ∧ List.Forall₂ Builds items forms := by
  induction h with
  | nil => exact ⟨[], .nil, .nil, .nil⟩
  | cons hform _ ih =>
    obtain ⟨inner, hspells, hbuilds⟩ := exists_builds_of_isForm hform
    obtain ⟨items, hspells', hgroups, hbuilds'⟩ := ih
    exact ⟨.group inner :: items, hspells.append hspells', hgroups.group, .cons hbuilds hbuilds'⟩

theorem ofItems_of_builds {items : List Item} {forms : List Form} (hgroups : Item.AllGroups items)
    (h : List.Forall₂ Builds items forms) (hlimit : levelsAll forms ≤ Nesting.forms) :
    ofItems items = .ok forms := by
  induction h with
  | nil => rfl
  | @cons item form items forms hbuilds _ ih =>
    simp only [levelsAll] at hlimit
    cases item with
    | token t => exact absurd hgroups Item.AllGroups.not_token
    | group inner =>
      have hform := hbuilds.build Nesting.forms (by omega)
      have hforms := ih hgroups.tail (by omega)
      exact ofItems_group_eq_ok.mpr ⟨form, forms, hform, hforms, rfl⟩

/-! ### Overflow -/

/-- An argument runs out of levels only where a group does. -/
theorem lt_depthAll_of_mapM_overflow {limit : Nat} {items : List Item}
    (hbuild : ∀ inner, ofGroup limit inner = .error .overflow → limit < (Item.group inner).depth)
    (h : items.mapM (ofItem (ofGroup limit)) = .error .overflow) :
    limit < Item.depthAll items := by
  obtain ⟨item, hmem, hitem⟩ := exists_of_mapM_eq_error h
  have hdepth : limit < item.depth := by
    cases item with
    | group inner => exact hbuild inner hitem
    | token t =>
      rw [ofItem] at hitem
      split at hitem <;> cases hitem
  exact Nat.lt_of_lt_of_le hdepth (Item.depth_le_depthAll hmem)

theorem definition_ne_overflow {make : String → String → Form} {error : SyntaxError}
    {items : List Item} : definition make error items ≠ .error .overflow := by
  intro h
  unfold definition at h
  split at h <;> cases h

/-- A function definition runs out of levels only in its body. -/
theorem function_eq_overflow {build : List Item → Except Failure Form} {items : List Item}
    (h : function build items = .error .overflow) :
    ∃ name inner body, items = .token name :: .group inner :: body ∧
      body.mapM (ofItem build) = .error .overflow := by
  unfold function at h
  split at h
  · next name inner body =>
    split at h
    · cases h
    · dsimp only at h
      split at h
      · cases h
      · rcases bind_eq_error.mp h with h | ⟨_, _, h⟩
        · exact ⟨name, inner, body, rfl, h⟩
        · cases h
  · cases h

/-- Building runs out of levels only on a group that has more. -/
theorem lt_depth_of_ofGroup_overflow {limit : Nat} {items : List Item}
    (h : ofGroup limit items = .error .overflow) : limit < (Item.group items).depth := by
  induction limit generalizing items with
  | zero =>
    simp only [Item.depth]
    omega
  | succ limit ih =>
    cases items with
    | nil => cases h
    | cons item items =>
      cases item with
      | group => cases h
      | token head =>
        simp only [Item.depth, Item.depthAll]
        rw [ofGroup] at h
        split at h
        · rcases bind_eq_error.mp h with h | ⟨_, _, h⟩
          · have := lt_depthAll_of_mapM_overflow (fun _ => ih) h
            omega
          · cases h
        · exact absurd h definition_ne_overflow
        · exact absurd h definition_ne_overflow
        · -- The parameters only add to the depth of the items.
          obtain ⟨name, inner, body, rfl, hbody⟩ := function_eq_overflow h
          have := lt_depthAll_of_mapM_overflow (fun _ => ih) hbody
          simp only [Item.depthAll]
          omega
        · cases h

theorem ofItems_ne_overflow {items : List Item} (h : Item.depthAll items ≤ Nesting.forms) :
    ofItems items ≠ .error .overflow := by
  intro hitems
  obtain ⟨inner, hmem, hinner⟩ := exists_of_mapM_eq_error hitems
  have hdepth := lt_depth_of_ofGroup_overflow hinner
  obtain ⟨item, hitem, hgroup⟩ := List.mem_filterMap.mp hmem
  cases item with
  | token t => cases hgroup
  | group inner' =>
    cases hgroup
    have hle := Item.depth_le_depthAll hitem
    omega

/-! ### Programs -/

/-- A program is read if its tokens are, up to depth zero, and its forms are built. -/
theorem ofTokens_eq_ok {tokens : List Token} {forms : List Form} :
    ofTokens tokens = .ok forms ↔
      ∃ r, readItems Nesting.brackets 0 (withoutComments tokens) = .ok r ∧ r.depth = 0 ∧
        ofItems r.items = .ok forms := by
  constructor
  · intro h
    obtain ⟨r, hread, h⟩ := bind_eq_ok.mp h
    split at h
    · cases h
    · split at h
      · cases h
      · exact ⟨r, hread, by omega, h⟩
  · rintro ⟨r, hread, hdepth, hitems⟩
    refine bind_eq_ok.mpr ⟨r, hread, ?_⟩
    rw [if_neg (by omega), if_neg (by omega)]
    exact hitems

/-- A program that is read is derived from its tokens, comments left out. -/
theorem isProgram_of_ofTokens {tokens : List Token} {forms : List Form}
    (h : ofTokens tokens = .ok forms) : IsProgram (withoutComments tokens) forms := by
  obtain ⟨r, hread, hdepth, hitems⟩ := ofTokens_eq_ok.mp h
  obtain ⟨hspells, hgroups⟩ := Reading.spells_of_readItems hread hdepth
  exact isProgram_of_ofItems hspells hgroups hitems

/-- What is derived within the levels of building is also within the depth of
    reading, which leaves room for groups of parameters. -/
theorem exists_items_of_isProgram {ts : List Token} {forms : List Form} (h : IsProgram ts forms)
    (hlimit : levelsAll forms ≤ Nesting.forms) :
    ∃ items, Spells ts items ∧ Item.AllGroups items ∧ Item.depthAll items ≤ Nesting.brackets ∧
      ofItems items = .ok forms := by
  obtain ⟨items, hspells, hgroups, hbuilds⟩ := exists_builds_of_isProgram h
  have hdepth : Item.depthAll items ≤ Nesting.brackets := by
    have hlevels := depthAll_le_levelsAll hbuilds
    have hroom := Nesting.forms_lt_brackets
    omega
  exact ⟨items, hspells, hgroups, hdepth, ofItems_of_builds hgroups hbuilds hlimit⟩

/-- Forms that are derived from tokens are read, if building has levels enough. -/
theorem ofTokens_of_isProgram {tokens : List Token} {forms : List Form}
    (h : IsProgram (withoutComments tokens) forms) (hlimit : levelsAll forms ≤ Nesting.forms) :
    ofTokens tokens = .ok forms := by
  obtain ⟨items, hspells, hgroups, hdepth, hitems⟩ := exists_items_of_isProgram h hlimit
  exact ofTokens_eq_ok.mpr ⟨_, Reading.readItems_of_spells hspells hgroups hdepth, rfl, hitems⟩

theorem nestedWithin_withoutComments {limit : Nat} {tokens : List Token}
    (h : NestedWithin limit tokens) : NestedWithin limit (withoutComments tokens) := by
  intro p hp
  -- A prefix without comments comes from a prefix, and comments are no parens.
  obtain ⟨q, hq, rfl⟩ := List.prefix_filter_iff.mp hp
  have hopens : opens (withoutComments q) = opens q := by
    rw [opens, withoutComments, List.countP_filter]
    congr 1
    funext t
    cases t.kind <;> simp
  have hcloses : closes (withoutComments q) = closes q := by
    rw [closes, withoutComments, List.countP_filter]
    congr 1
    funext t
    cases t.kind <;> simp
  have hbound := h q hq
  rw [← hopens, ← hcloses] at hbound
  exact hbound

/-- Tokens that are nested within the limits never run out of levels. -/
theorem ofTokens_ne_overflow {tokens : List Token} (h : NestedWithin Nesting.forms tokens) :
    ofTokens tokens ≠ .error .overflow := by
  have hnest := nestedWithin_withoutComments h
  intro hoverflow
  rcases bind_eq_error.mp hoverflow with hread | ⟨r, hread, hbuild⟩
  · exact Reading.readItems_ne_overflow (hnest.mono (by decide)) hread
  · split at hbuild
    · cases hbuild
    · split at hbuild
      · cases hbuild
      · obtain ⟨hspells, _⟩ := Reading.spells_of_readItems hread (by omega)
        exact ofItems_ne_overflow (hspells.depthAll_le hnest) hbuild

/-- The reader accepts exactly the grammar.  Tokens that are nested within the limits
    are read as `forms` exactly if these are derived from the tokens without their
    comments, and tokens from which nothing is derived are refused. -/
theorem ofTokens_eq_ok_iff_isProgram {tokens : List Token}
    (h : NestedWithin Nesting.forms tokens) :
    (∀ forms, ofTokens tokens = .ok forms ↔ IsProgram (withoutComments tokens) forms) ∧
      ((∀ forms, ¬ IsProgram (withoutComments tokens) forms) →
        ∃ error, ofTokens tokens = .error (.refused error)) := by
  refine ⟨fun forms => ⟨isProgram_of_ofTokens, fun hprogram => ?_⟩, fun hnone => ?_⟩
  · -- The tokens bound the items, and the items bound the forms.
    obtain ⟨items, hspells, _, hbuilds⟩ := exists_builds_of_isProgram hprogram
    have hlower := levelsAll_le_depthAll hbuilds
    have hupper := hspells.depthAll_le (nestedWithin_withoutComments h)
    exact ofTokens_of_isProgram hprogram (Nat.le_trans hlower hupper)
  · cases hread : ofTokens tokens with
    | ok forms => exact absurd (isProgram_of_ofTokens hread) (hnone forms)
    | error failure =>
      cases failure with
      | overflow => exact absurd hread (ofTokens_ne_overflow h)
      | refused error => exact ⟨error, rfl⟩

/-- The tokens of `(defun f (a) (g "x" ()))` with a comment in it. -/
theorem isProgram_defun_call :
    NestedWithin Nesting.forms
        [⟨.openParen, "("⟩, ⟨.defun, "defun"⟩, ⟨.identifier, "f"⟩, ⟨.openParen, "("⟩,
          ⟨.identifier, "a"⟩, ⟨.closeParen, ")"⟩, ⟨.comment, "; body"⟩, ⟨.openParen, "("⟩,
          ⟨.identifier, "g"⟩, ⟨.string, "\"x\""⟩, ⟨.openParen, "("⟩, ⟨.closeParen, ")"⟩,
          ⟨.closeParen, ")"⟩, ⟨.closeParen, ")"⟩] ∧
      IsProgram
        (withoutComments
          [⟨.openParen, "("⟩, ⟨.defun, "defun"⟩, ⟨.identifier, "f"⟩, ⟨.openParen, "("⟩,
            ⟨.identifier, "a"⟩, ⟨.closeParen, ")"⟩, ⟨.comment, "; body"⟩, ⟨.openParen, "("⟩,
            ⟨.identifier, "g"⟩, ⟨.string, "\"x\""⟩, ⟨.openParen, "("⟩, ⟨.closeParen, ")"⟩,
            ⟨.closeParen, ")"⟩, ⟨.closeParen, ")"⟩])
        [.defun "f" ["a"] [.call "g" [.leaf ⟨.string, "\"x\""⟩, .empty]]] :=
  ⟨by decide, ((ofTokens_eq_ok_iff_isProgram (by decide)).1 _).mp (by rfl)⟩

end Form

end SexpScript
