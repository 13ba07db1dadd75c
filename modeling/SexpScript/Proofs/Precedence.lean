import SexpScript.Proofs.Legibility
import SexpScript.Proofs.Operands

/-! # Operands that an operator captures

    An operator takes what stands next to it.  An operand that is itself written with
    brackets around it is safe.  One that is a write, or begins with a sign, may come
    apart: `(global.x = 1 + 2)` writes `3`, and `-x.map(f)` maps `x`.

    - `Text.Assigns` says that a text has ` = ` outside quotes and brackets.  A text that is
      solid has none (`Solid.not_assigns`).
    - The text of a form is solid, or it has a write outside brackets, and the form tells
      which (`Form.assigns`, `exposes_write`).  Brackets close off all operands but the one
      behind a sign and the one in front of a method (`Operation.open?`).
    - In the same way the form tells whether its text begins with a sign (`Form.signed`,
      `signed_write_iff`).
-/

namespace SexpScript

namespace Text

/-! ### Writes outside brackets -/

/-- The text has ` = ` outside quotes and brackets. -/
def Assigns (cs : List Char) : Prop :=
  ∃ p, p ++ [' ', '=', ' '] <+: cs ∧ Closed p ∧ depth bracket p = 0

instance (cs : List Char) : Decidable (Assigns cs) :=
  decidable_of_iff
    (∃ p ∈ cs.inits, p ++ [' ', '=', ' '] <+: cs ∧ Closed p ∧ depth bracket p = 0)
    ⟨fun ⟨p, _, hp⟩ => ⟨p, hp⟩,
      fun ⟨p, hp, hplace⟩ =>
        ⟨p, (List.mem_inits p cs).mpr ((List.prefix_append p _).trans hp), hp, hplace⟩⟩

section
variable {cs ds : List Char}

theorem Assigns.append_right (h : Assigns cs) (ds : List Char) : Assigns (cs ++ ds) := by
  obtain ⟨p, hp, hplace⟩ := h
  exact ⟨p, hp.trans (List.prefix_append cs ds), hplace⟩

theorem Assigns.append_left (hcs : Balanced bracket cs) (h : Assigns ds) : Assigns (cs ++ ds) := by
  obtain ⟨p, hp, hclosed, hdepth⟩ := h
  refine ⟨cs ++ p, ?_, hcs.closed.append hclosed, ?_⟩
  · rw [List.append_assoc]
    exact (List.prefix_append_right_inj cs).mpr hp
  · rw [depth_append hcs.closed, hcs.level, hdepth]
    rfl

/-- A solid text has no space outside brackets, and so no write there. -/
theorem Solid.not_assigns (h : Solid cs) : ¬ Assigns cs := by
  intro hassigns
  obtain ⟨p, hp, hclosed, hdepth⟩ := hassigns
  have hspace : p ++ [' '] <+: cs := by
    refine List.IsPrefix.trans ?_ hp
    exact (List.prefix_append_right_inj p).mpr ⟨['=', ' '], rfl⟩
  exact h.no_space p ' ' hspace ⟨hclosed, hdepth, rfl⟩

end

/-- What a text shows outside its brackets: a write, or no space at all. -/
structure Exposes (assigns : Bool) (text : String) : Prop where
  solid : assigns = false → Solid text.toList
  write : assigns = true → Assigns text.toList

namespace Exposes

variable {assigns : Bool} {a b : String}

theorem of_solid (h : Solid a.toList) : Exposes false a where
  solid := fun _ => h
  write := fun hfalse => absurd hfalse Bool.false_ne_true

theorem of_assigns (h : Assigns a.toList) : Exposes true a where
  solid := fun htrue => absurd htrue.symm Bool.false_ne_true
  write := fun _ => h

theorem append_solid (ha : Exposes assigns a) (hb : Solid b.toList) : Exposes assigns (a ++ b) where
  solid := by
    intro hfalse
    rw [String.toList_append]
    exact (ha.solid hfalse).append hb
  write := by
    intro htrue
    rw [String.toList_append]
    exact (ha.write htrue).append_right b.toList

theorem solid_append (ha : Solid a.toList) (hb : Exposes assigns b) : Exposes assigns (a ++ b) where
  solid := by
    intro hfalse
    rw [String.toList_append]
    exact ha.append (hb.solid hfalse)
  write := by
    intro htrue
    rw [String.toList_append]
    exact (hb.write htrue).append_left ha.balanced

/-- The flag of a text is what can be seen of it. -/
theorem assigns_iff (h : Exposes assigns a) : Assigns a.toList ↔ assigns = true := by
  constructor
  · intro hassigns
    rw [← Bool.not_eq_false]
    intro hfalse
    exact (h.solid hfalse).not_assigns hassigns
  · exact h.write

end Exposes

/-! ### Solid pieces -/

/-- A text without spaces, quotes and brackets. -/
theorem Solid.plain {text : String} (h : text.toList.all isPlain = true ∧ ' ' ∉ text.toList) :
    Solid text.toList where
  balanced := Balanced.plain h.1
  no_space := by
    intro p c hp hstop
    have hmem : c ∈ text.toList := hp.subset (List.mem_append_right p List.mem_cons_self)
    have hspace : c = ' ' := hstop.2.2
    exact h.2 (hspace ▸ hmem)

theorem Solid.append_text {a b : String} (ha : Solid a.toList) (hb : Solid b.toList) :
    Solid (a ++ b).toList := by
  rw [String.toList_append]
  exact ha.append hb

theorem Solid.parens {text : String} (h : Balanced bracket text.toList) :
    Solid ("(" ++ text ++ ")").toList := by
  have hlist : ("(" ++ text ++ ")").toList = '(' :: text.toList ++ [')'] := by simp
  rw [hlist]
  exact Solid.wrap h rfl rfl

theorem Solid.squares {text : String} (h : Balanced bracket text.toList) :
    Solid ("[" ++ text ++ "]").toList := by
  have hlist : ("[" ++ text ++ "]").toList = '[' :: text.toList ++ [']'] := by simp
  rw [hlist]
  exact Solid.wrap h rfl rfl

/-- A chunk that nothing splits is solid, if its square brackets are paired. -/
theorem Unbroken.solid {cs : List Char} (h : Unbroken cs) (hbalanced : Balanced bracket cs) :
    Solid cs where
  balanced := hbalanced
  no_space := by
    intro p c hp hstop
    obtain ⟨hclosed, _, hspace⟩ := hstop
    have hmem := mem_bare_of_closed hclosed (by rw [hspace]; decide) hp
    have hblank := (h.bare c hmem).1
    rw [hspace] at hblank
    exact absurd hblank (by decide)

/-! ### Signs -/

/-- The text begins with a sign. -/
def Signed (text : String) : Prop :=
  text.toList.head? = some '-' ∨ text.toList.head? = some '!'

instance (text : String) : Decidable (Signed text) :=
  inferInstanceAs (Decidable (text.toList.head? = some '-' ∨ text.toList.head? = some '!'))

/-- The first of two texts decides about the sign, if it is not empty or the second has
    none. -/
theorem signed_append_iff {a b : String} (h : a ≠ "" ∨ ¬ Signed b) :
    Signed (a ++ b) ↔ Signed a := by
  unfold Signed at h ⊢
  rw [String.toList_append]
  cases ha : a.toList with
  | nil =>
    rw [String.toList_eq_nil_iff] at ha
    simpa [ha] using h
  | cons c cs => rfl

end Text

open Text (Solid Balanced bracket Assigns Exposes Signed)

/-! ### Operations -/

namespace Operation

/-- The operand that no brackets are put around: the one behind a sign, and the one in front
    of a method. -/
def open? {α : Type} (operands : List α) : Operation → Option α
  | unary _ => operands[0]?
  | method _ => operands[1]?
  | _ => none

/-- Whether an operation shows a write outside brackets, by what its operands show. -/
def exposes (flags : List Bool) : Operation → Bool
  | assign => true
  | op => (op.open? flags).getD false

theorem solid_word_ofName {name : String} (h : Solid name.toList) :
    Solid (ofName name).word.toList := by
  have hbinary : ∀ entry ∈ binaryOperators,
      entry.2.toList.all Text.isPlain = true ∧ ' ' ∉ entry.2.toList := by decide
  have hunary : ∀ entry ∈ unaryOperators,
      entry.2.toList.all Text.isPlain = true ∧ ' ' ∉ entry.2.toList := by decide
  have hempty : Solid "".toList := Solid.plain (by decide)
  apply word_ofName_of_symbols (p := fun text => Solid text.toList) h hempty
  · exact fun entry hmem => Solid.plain (hbinary entry hmem)
  · exact fun entry hmem => Solid.plain (hunary entry hmem)

section render
variable {slots : String} {flags : List Bool} {operands : List String}

theorem exposes_operand (h : List.Forall₂ Exposes flags operands) (i : Nat) :
    Exposes (flags[i]?.getD false) (operand operands i) := by
  unfold operand
  induction h generalizing i with
  | nil =>
    show Exposes false undefinedText
    exact .of_solid (Solid.plain (by decide))
  | cons htext _ ih =>
    cases i with
    | zero => exact htext
    | succ i => exact ih i

/-- A write is outside brackets, whatever is written. -/
theorem exposes_define {name : String} (hslots : Balanced bracket slots.toList)
    (hname : Balanced bracket name.toList) (value : String) :
    Exposes true (define slots name value) := by
  have hdot : Balanced bracket ".".toList := Balanced.plain (by decide)
  have hfront := (hslots.append_text hdot).append_text hname
  have hequals : Assigns " = ".toList := by decide
  have hall := (hequals.append_left hfront).append_right value.toList
  apply Exposes.of_assigns
  simpa [define] using hall

/-- What an operation shows is what its open operand shows, if it is no write itself. -/
theorem exposes_render (op : Operation) (hword : Solid op.word.toList)
    (hslots : Balanced bracket slots.toList)
    (hbalanced : ∀ text ∈ operands, Balanced bracket text.toList)
    (h : List.Forall₂ Exposes flags operands) :
    Exposes (op.exposes flags) (op.render slots operands) := by
  have hcomma : Balanced bracket ", ".toList := Balanced.plain (by decide)
  have hspace : Balanced bracket " ".toList := Balanced.plain (by decide)
  have hlist := hcomma.intercalate_text hbalanced
  cases op with
  | binary symbol =>
    have hseparator := (hspace.append_text hword.balanced).append_text hspace
    exact .of_solid (Solid.parens (hseparator.intercalate_text hbalanced))
  | unary symbol => exact .solid_append hword (exposes_operand h 0)
  | array => exact .of_solid (Solid.squares hlist)
  | method name =>
    -- The first operand is the one in parens.
    have hdot : Solid ".".toList := Solid.plain (by decide)
    have happly := Solid.parens (balanced_operand hbalanced 0)
    have hrest : Solid ("." ++ name ++ ("(" ++ operand operands 0 ++ ")")).toList :=
      (hdot.append_text hword).append_text happly
    have hall := (exposes_operand h 1).append_solid hrest
    simpa [render, exposes, open?, String.append_assoc] using hall
  | exit =>
    have hname : Solid "process.exit".toList := Solid.plain (by decide)
    have hzero : Balanced bracket "0".toList := Balanced.plain (by decide)
    rw [render, exitText_eq]
    exact .of_solid (hname.append_text (Solid.parens hzero))
  | assign => exact exposes_define hslots (balanced_operand hbalanced 0) _
  | call name =>
    have hname : Solid name.toList := hword
    have hcall := hname.append_text (Solid.parens hlist)
    apply Exposes.of_solid
    simpa [render, String.append_assoc] using hcall

/-- Whether an operation begins with a sign, by whether its operands do. -/
def startsSigned (signs : List Bool) : Operation → Bool
  | unary _ => true
  | method _ => signs[1]?.getD false
  | call name => decide (Signed name)
  | _ => false

theorem signed_operand_iff {signs : List Bool}
    (h : List.Forall₂ (fun sign text => Signed text ↔ sign = true) signs operands) (i : Nat) :
    Signed (operand operands i) ↔ signs[i]?.getD false = true := by
  unfold operand
  induction h generalizing i with
  | nil => exact iff_of_false (by show ¬ Signed undefinedText; decide) (by simp)
  | cons htext _ ih =>
    cases i with
    | zero => exact htext
    | succ i => exact ih i

theorem not_signed_define (hslots : ¬ Signed slots) (name value : String) :
    ¬ Signed (define slots name value) := by
  have hdot : ¬ Signed "." := by decide
  have hdefine : define slots name value = slots ++ "." ++ (name ++ " = " ++ value) := by
    simp [define, String.append_assoc]
  rw [hdefine, Text.signed_append_iff (.inl (by simp)), Text.signed_append_iff (.inr hdot)]
  exact hslots

/-- An operation begins with a sign if its name does, or the operand that is written first. -/
theorem signed_render_iff (name : String) (hslots : ¬ Signed slots) {signs : List Bool}
    (h : List.Forall₂ (fun sign text => Signed text ↔ sign = true) signs operands) :
    Signed ((ofName name).render slots operands) ↔ (ofName name).startsSigned signs = true := by
  have hunary : ∀ entry ∈ unaryOperators, Signed entry.2 := by decide
  have hopening (opening rest : String) (hne : opening ≠ "") (hsign : ¬ Signed opening) :
      ¬ Signed (opening ++ rest) := by
    rw [Text.signed_append_iff (.inl hne)]
    exact hsign
  rcases ofName_cases name with ⟨symbol, _, hop⟩ | ⟨symbol, hmem, hop⟩ | ⟨_, hop⟩ | ⟨_, hop⟩ |
    ⟨_, hop⟩ | ⟨_, hop⟩ | ⟨_, hop⟩ <;> rw [hop]
  · refine iff_of_false ?_ Bool.false_ne_true
    rw [render, String.append_assoc]
    exact hopening "(" _ (by decide) (by decide)
  · have hsymbol := operatorSymbols_ne_empty.2 _ hmem
    rw [render, Text.signed_append_iff (.inl hsymbol)]
    exact iff_of_true (hunary _ hmem) rfl
  · refine iff_of_false ?_ Bool.false_ne_true
    rw [render, String.append_assoc]
    exact hopening "[" _ (by decide) (by decide)
  · have hrest := hopening "." (name ++ "(" ++ operand operands 0 ++ ")") (by decide) (by decide)
    have hmethod : render slots operands (.method name) =
        operand operands 1 ++ ("." ++ (name ++ "(" ++ operand operands 0 ++ ")")) := by
      simp [render, String.append_assoc]
    rw [hmethod, Text.signed_append_iff (.inr hrest)]
    exact signed_operand_iff h 1
  · exact iff_of_false (by show ¬ Signed exitText; decide) Bool.false_ne_true
  · exact iff_of_false (not_signed_define hslots _ _) Bool.false_ne_true
  · have hrest := hopening "(" (", ".intercalate operands ++ ")") (by decide) (by decide)
    have hcall : render slots operands (.call name) =
        name ++ ("(" ++ (", ".intercalate operands ++ ")")) := by
      simp [render, String.append_assoc]
    rw [hcall, Text.signed_append_iff (.inr hrest)]
    exact decide_eq_true_iff.symm

end render

end Operation

/-! ### Forms -/

namespace Form

mutual

/-- Whether a write is outside brackets in what is written for a form. -/
def assigns : Form → Bool
  | .empty => false
  | .leaf _ => false
  | .call name args => (Operation.ofName name).exposes (assignsAll args)
  | .defconstant _ _ => true
  | .defvar _ _ => true
  | .defun _ _ _ => true

/-- The same for several forms, each on its own. -/
def assignsAll : List Form → List Bool
  | [] => []
  | form :: forms => assigns form :: assignsAll forms

end

mutual

/-- Whether what is written for a form begins with a sign. -/
def signed : Form → Bool
  | .leaf t => decide (Signed t.text)
  | .call name args => (Operation.ofName name).startsSigned (signedAll args)
  | _ => false

/-- The same for several forms, each on its own. -/
def signedAll : List Form → List Bool
  | [] => []
  | form :: forms => signed form :: signedAll forms

end

mutual

/-- The text of a form made from solid atoms shows a write outside brackets or is solid
    itself. -/
theorem exposes_write {slots : String} (hslots : Solid slots.toList) :
    (form : Form) → (∀ a ∈ atoms form, Solid a.toList) → Exposes (assigns form) (write slots form)
  | .empty, _ => .of_solid (show Solid "".toList from Solid.plain (by decide))
  | .leaf t, h => .of_solid (h t.text List.mem_cons_self)
  | .call name args, h => by
    have hname := h name List.mem_cons_self
    have hatoms : ∀ a ∈ atomsAll args, Solid a.toList := fun a ha => h a (List.mem_cons_of_mem _ ha)
    have hbalanced := balanced_writeAll hslots.balanced args fun a ha => (hatoms a ha).balanced
    exact Operation.exposes_render _ (Operation.solid_word_ofName hname) hslots.balanced hbalanced
      (exposes_writeAll hslots args hatoms)
  | .defconstant name value, h =>
    Operation.exposes_define hslots.balanced (h name (by simp [atoms])).balanced value
  | .defvar name value, h =>
    Operation.exposes_define hslots.balanced (h name (by simp [atoms])).balanced value
  | .defun name params body, h => by
    have hdefine := Operation.exposes_define hslots.balanced (h name (by simp [atoms])).balanced
      (arrow params (writeAll slots body))
    exact hdefine.append_solid (Solid.plain (by decide))

/-- So do the texts of several. -/
theorem exposes_writeAll {slots : String} (hslots : Solid slots.toList) :
    (forms : List Form) → (∀ a ∈ atomsAll forms, Solid a.toList) →
      List.Forall₂ Exposes (assignsAll forms) (writeAll slots forms)
  | [], _ => .nil
  | form :: forms, h =>
    .cons (exposes_write hslots form fun a ha => h a (List.mem_append_left _ ha))
      (exposes_writeAll hslots forms fun a ha => h a (List.mem_append_right _ ha))

end

mutual

/-- The text of a form begins with a sign if the form says so. -/
theorem signed_write_iff {slots : String} (hslots : ¬ Signed slots) :
    (form : Form) → (Signed (write slots form) ↔ signed form = true)
  | .empty => iff_of_false (by show ¬ Signed ""; decide) Bool.false_ne_true
  | .leaf _ => decide_eq_true_iff.symm
  | .call name args => Operation.signed_render_iff name hslots (signed_writeAll_iff hslots args)
  | .defconstant name value =>
    iff_of_false (Operation.not_signed_define hslots name value) Bool.false_ne_true
  | .defvar name value =>
    iff_of_false (Operation.not_signed_define hslots name value) Bool.false_ne_true
  | .defun name params body => by
    rw [write, Text.signed_append_iff (.inl (Operation.define_ne_empty _ _ _))]
    exact iff_of_false (Operation.not_signed_define hslots _ _) Bool.false_ne_true

/-- So do the texts of several. -/
theorem signed_writeAll_iff {slots : String} (hslots : ¬ Signed slots) : (forms : List Form) →
    List.Forall₂ (fun sign text => Signed text ↔ sign = true) (signedAll forms)
      (writeAll slots forms)
  | [] => .nil
  | form :: forms => .cons (signed_write_iff hslots form) (signed_writeAll_iff hslots forms)

end

end Form

/-! ### Groupings -/

/-- The square brackets of every token come in pairs.  Parens are tokens of their own. -/
def BracketsPaired (source : String) : Prop :=
  ∀ t ∈ tokenize source, t.Plain → t.kind ≠ .comment → Balanced bracket t.text.toList

instance (source : String) : Decidable (BracketsPaired source) :=
  inferInstanceAs (Decidable (∀ t ∈ tokenize source,
    (t.kind ≠ .openParen ∧ t.kind ≠ .closeParen) → t.kind ≠ .comment → _))

namespace Operation

/-- The operand from which the operation would take a sign away: the one behind a minus, and
    the one in front of a method. -/
def tight? {α : Type} (operands : List α) : Operation → Option α
  | unary symbol => if symbol = "-" then operands[0]? else none
  | method _ => operands[1]?
  | _ => none

theorem mem_of_mem_used {α : Type} {op : Operation} {operands : List α} {a : α}
    (h : a ∈ op.used operands) : a ∈ operands := by
  cases op with
  | binary _ => exact h
  | unary _ => exact List.mem_of_mem_take h
  | array => exact h
  | method _ => exact List.mem_of_mem_take h
  | exit => exact absurd h List.not_mem_nil
  | assign => exact List.mem_of_mem_take h
  | call _ => exact h

end Operation

namespace Form

/-- Whether a form is a single token. -/
def isLeaf : Form → Bool
  | .leaf _ => true
  | _ => false

/-- The operation takes its operands as a whole.  None of the forms among them shows a write
    outside brackets, and none begins with a sign where the operation would come before
    it. -/
structure KeepsGrouping (slots : String) (op : Operation) (args : List Form) : Prop where
  no_write : ∀ arg ∈ op.used args, arg.isLeaf = false → ¬ Assigns (arg.write slots).toList
  no_sign : ∀ arg ∈ op.tight? args, arg.isLeaf = false → ¬ Signed (arg.write slots)

/-- The atoms of an accepted source are solid, if comments stand apart and square brackets are
    paired. -/
theorem solid_of_mem_atoms {source : String} {forms : List Form}
    (h : ofTokens (tokenize source) = .ok forms) (hapart : CommentsApart source)
    (hpaired : BracketsPaired source) : ∀ a ∈ atomsAll forms, Solid a.toList := by
  intro a ha
  have hunbroken := unbroken_of_mem_atoms h hapart a ha
  obtain ⟨t, ht, hplain, rfl⟩ := isTextOf_of_isProgram (isProgram_of_ofTokens h) a ha
  obtain ⟨hmem, hkind⟩ := List.mem_filter.mp ht
  exact hunbroken.solid (hpaired t hmem hplain (of_decide_eq_true hkind))

/-- An operation on solid atoms keeps its operands whole exactly if no form that it uses is a
    write outside brackets or begins with a sign where it must not. -/
theorem keepsGrouping_iff {slots : String} (hslots : Solid slots.toList) (hsign : ¬ Signed slots)
    (op : Operation) {args : List Form} (hatoms : ∀ a ∈ atomsAll args, Solid a.toList) :
    KeepsGrouping slots op args ↔
      (∀ arg ∈ op.used args, arg.isLeaf = false → arg.assigns = false) ∧
        ∀ arg ∈ op.tight? args, arg.isLeaf = false → arg.signed = false := by
  have hwrite : ∀ arg ∈ op.used args,
      (¬ Assigns (arg.write slots).toList ↔ arg.assigns = false) := by
    intro arg harg
    have harg_atoms : ∀ a ∈ arg.atoms, Solid a.toList := fun a ha =>
      hatoms a (mem_atomsAll (Operation.mem_of_mem_used harg) a ha)
    rw [(exposes_write hslots arg harg_atoms).assigns_iff, Bool.not_eq_true]
  have hsigned (arg : Form) : ¬ Signed (arg.write slots) ↔ arg.signed = false := by
    rw [signed_write_iff hsign arg, Bool.not_eq_true]
  constructor
  · intro h
    exact ⟨fun arg harg hleaf => (hwrite arg harg).mp (h.no_write arg harg hleaf),
      fun arg harg hleaf => (hsigned arg).mp (h.no_sign arg harg hleaf)⟩
  · intro h
    exact ⟨fun arg harg hleaf => (hwrite arg harg).mpr (h.1 arg harg hleaf),
      fun arg harg hleaf => (hsigned arg).mpr (h.2 arg harg hleaf)⟩

end Form

namespace Compiler

/-- What operators capture.  Let the slot object be solid and begin with no sign, the comments
    of the source stand apart and its square brackets be paired.  Then every call in it keeps
    its operands whole exactly if, among the forms that it uses, none is a write or passes
    one on through signs and methods, and none begins with a sign where a minus or a method
    would come before it. -/
theorem keepsGrouping_of_forms {c : Compiler} {source : String} {forms : List Form}
    (hslots : Solid c.slots.toList) (hsign : ¬ Signed c.slots) (hapart : CommentsApart source)
    (hpaired : BracketsPaired source) (h : c.forms source = .ok forms) :
    ∀ name args, Form.call name args ∈ Form.partsAll forms →
      (Form.KeepsGrouping c.slots (Operation.ofName name) args ↔
        (∀ arg ∈ (Operation.ofName name).used args, arg.isLeaf = false → arg.assigns = false) ∧
          ∀ arg ∈ (Operation.ofName name).tight? args,
            arg.isLeaf = false → arg.signed = false) := by
  intro name args hcall
  apply Form.keepsGrouping_iff hslots hsign
  intro a ha
  have hatom : a ∈ Form.atomsAll forms :=
    Form.mem_atomsAll_of_mem_partsAll (List.mem_cons_of_mem name ha) forms hcall
  exact Form.solid_of_mem_atoms (forms_eq_ok.mp h) hapart hpaired a hatom

/-- A write in an array in front of a method behind a minus: the brackets of the array close
    it off. -/
theorem keepsGrouping_of_forms_array :
    Solid ({} : Compiler).slots.toList ∧ ¬ Signed ({} : Compiler).slots ∧
      CommentsApart "(neg (map f (list (set x a[0]))))" ∧
      BracketsPaired "(neg (map f (list (set x a[0]))))" ∧
      ({} : Compiler).program "(neg (map f (list (set x a[0]))))" =
        .ok ["-[global.x = a[0]].map(f)"] ∧
      Form.KeepsGrouping "global" (Operation.ofName "neg")
        [.call "map" [.leaf ⟨.identifier, "f"⟩,
          .call "list" [.call "set" [.leaf ⟨.identifier, "x"⟩, .leaf ⟨.identifier, "a[0]"⟩]]]] := by
  have hslots : Solid ({} : Compiler).slots.toList :=
    show Solid "global".toList from Solid.plain (by decide)
  have hsign : ¬ Signed ({} : Compiler).slots := by decide
  have hapart : CommentsApart "(neg (map f (list (set x a[0]))))" := by decide +kernel
  have hpaired : BracketsPaired "(neg (map f (list (set x a[0]))))" := by decide +kernel
  have hforms : ({} : Compiler).forms "(neg (map f (list (set x a[0]))))" =
      .ok [.call "neg" [.call "map" [.leaf ⟨.identifier, "f"⟩,
        .call "list" [.call "set" [.leaf ⟨.identifier, "x"⟩, .leaf ⟨.identifier, "a[0]"⟩]]]]] := by
    have htokens : tokenize "(neg (map f (list (set x a[0]))))" =
        ["(", "neg", "(", "map", "f", "(", "list", "(", "set", "x", "a[0]", ")", ")", ")", ")"].map
          Token.ofChunk := by decide +kernel
    rw [forms_eq_ok, htokens]
    rfl
  refine ⟨hslots, hsign, hapart, hpaired, by decide +kernel, ?_⟩
  exact (keepsGrouping_of_forms hslots hsign hapart hpaired hforms "neg" _ (by simp [Form.partsAll,
    Form.parts])).mpr (by decide +kernel)

/-- A sum takes the value of a write away from it, and a method the operand of a minus. -/
theorem operators_capture_operands :
    ({} : Compiler).forms "(+ (set x 1) 2)" =
        .ok [.call "+" [.call "set" [.leaf ⟨.identifier, "x"⟩, .leaf ⟨.number, "1"⟩],
          .leaf ⟨.number, "2"⟩]] ∧
      ({} : Compiler).program "(+ (set x 1) 2)" = .ok ["(global.x = 1 + 2)"] ∧
      ¬ Form.KeepsGrouping "global" (Operation.ofName "+")
        [.call "set" [.leaf ⟨.identifier, "x"⟩, .leaf ⟨.number, "1"⟩], .leaf ⟨.number, "2"⟩] ∧
      ({} : Compiler).forms "(map f (neg x))" =
        .ok [.call "map" [.leaf ⟨.identifier, "f"⟩, .call "neg" [.leaf ⟨.identifier, "x"⟩]]] ∧
      ({} : Compiler).program "(map f (neg x))" = .ok ["-x.map(f)"] ∧
      ¬ Form.KeepsGrouping "global" (Operation.ofName "map")
        [.leaf ⟨.identifier, "f"⟩, .call "neg" [.leaf ⟨.identifier, "x"⟩]] := by
  refine ⟨rfl, by decide +kernel, ?_, rfl, by decide +kernel, ?_⟩
  · intro h
    have hwrite : ¬ Assigns "global.x = 1".toList :=
      h.no_write _ List.mem_cons_self rfl
    exact hwrite (by decide +kernel)
  · intro h
    have hsign : ¬ Signed "-x" := h.no_sign (.call "neg" [.leaf ⟨.identifier, "x"⟩]) rfl rfl
    exact hsign (by decide)

end Compiler

end SexpScript
