import SexpScript.Proofs.Operands

/-! # Where the slot object stands

    The text of a form is a template: texts, and between them places where the slot object
    is put.  The template is a matter of the form alone.

    - `Template.fill` puts the slot object into a template, and `Template.segments` are the
      texts between its places (`intercalate_segments`, `length_segments`).
    - Operations and definitions are templates over the templates of their operands
      (`fill_template` for operations and for forms).
    - There is one place for each definition that is written (`count_template`).  Operands
      that are left out are not written, so definitions in them have no place.
    - A statement is blank under one slot object exactly if it is under another, so what is
      written for it in a function is a template as well (`Template.orUndefined`).
-/

namespace SexpScript

/-! ### Templates -/

/-- A text with places for the slot object, which are `none`. -/
abbrev Template := List (Option String)

namespace Template

/-- The text of a template for a slot object. -/
def fill (slots : String) : Template → String
  | [] => ""
  | piece :: t => piece.getD slots ++ fill slots t

/-- The texts between the places of a template. -/
def segments : Template → List String
  | [] => [""]
  | none :: t => "" :: segments t
  | some text :: t => (segments t).modifyHead (text ++ ·)

theorem segments_ne_nil (t : Template) : segments t ≠ [] := by
  induction t with
  | nil => exact List.cons_ne_nil _ _
  | cons piece t ih =>
    cases piece with
    | none => exact List.cons_ne_nil _ _
    | some text => simpa [segments] using ih

/-- The segments with the slot object between them are the text. -/
theorem intercalate_segments (slots : String) (t : Template) :
    slots.intercalate (segments t) = fill slots t := by
  induction t with
  | nil => rfl
  | cons piece t ih =>
    cases piece with
    | none =>
      rw [segments, String.intercalate_cons_of_ne_nil (segments_ne_nil t), ih, String.empty_append]
      rfl
    | some text =>
      -- A text goes to the front of the first segment after it.
      obtain ⟨first, rest, hsegments⟩ := List.exists_cons_of_ne_nil (segments_ne_nil t)
      rw [hsegments] at ih
      rw [segments, hsegments, List.modifyHead_cons, String.intercalate_cons_append, ih]
      rfl

/-- There is one segment more than there are places. -/
theorem length_segments (t : Template) : (segments t).length = t.count none + 1 := by
  induction t with
  | nil => rfl
  | cons piece t ih =>
    cases piece with
    | none => rw [segments, List.length_cons, ih, List.count_cons_self]
    | some text =>
      rw [segments, List.length_modifyHead, ih, List.count_cons_of_ne (by simp)]

theorem fill_append (slots : String) (t u : Template) :
    fill slots (t ++ u) = fill slots t ++ fill slots u := by
  induction t with
  | nil => exact String.empty_append.symm
  | cons piece t ih =>
    show piece.getD slots ++ fill slots (t ++ u) = _
    rw [ih, ← String.append_assoc]
    rfl

@[simp] theorem fill_singleton (slots text : String) : fill slots [some text] = text :=
  String.append_empty

/-- Templates with a text between any two. -/
def join (separator : String) (ts : List Template) : Template := [some separator].intercalate ts

theorem join_cons_cons (separator : String) (t next : Template) (ts : List Template) :
    join separator (t :: next :: ts) = t ++ [some separator] ++ join separator (next :: ts) :=
  List.intercalate_cons_cons

theorem fill_join (slots separator : String) (ts : List Template) :
    fill slots (join separator ts) = separator.intercalate (ts.map (fill slots)) := by
  induction ts with
  | nil => rfl
  | cons t ts ih =>
    cases ts with
    | nil => simp [join]
    | cons next ts =>
      rw [join_cons_cons, fill_append, fill_append, fill_singleton, ih]
      exact String.intercalate_cons_cons.symm

theorem count_join (separator : String) (ts : List Template) :
    (join separator ts).count none = (ts.map (List.count none)).sum := by
  induction ts with
  | nil => rfl
  | cons t ts ih =>
    cases ts with
    | nil => simp [join]
    | cons next ts =>
      rw [join_cons_cons, List.count_append, List.count_append, ih, List.map_cons, List.sum_cons]
      simp

/-- A template between two texts. -/
def enclose (opening closing : String) (t : Template) : Template :=
  [some opening] ++ t ++ [some closing]

theorem fill_enclose (slots opening closing : String) (t : Template) :
    fill slots (enclose opening closing t) = opening ++ fill slots t ++ closing := by
  rw [enclose, fill_append, fill_append, fill_singleton, fill_singleton]

theorem count_enclose (opening closing : String) (t : Template) :
    (enclose opening closing t).count none = t.count none := by
  simp [enclose]

/-- A write into the slot object, the only template that has a place of its own. -/
def define (name value : Template) : Template :=
  [none, some "."] ++ name ++ [some " = "] ++ value

theorem fill_define (slots : String) (name value : Template) :
    fill slots (define name value) =
      Operation.define slots (fill slots name) (fill slots value) := by
  simp [define, Operation.define, fill_append, fill, String.append_assoc]

theorem count_define (name value : Template) :
    (define name value).count none = name.count none + value.count none + 1 := by
  simp only [define, List.count_append, List.count_cons, List.count_nil]
  simp
  omega

/-- The template itself, or `undefined` for one that is blank. -/
def orUndefined (t : Template) : Template :=
  if fill "" t = "" then [some Operation.undefinedText] else t

/-- Blank under one slot object means blank under any other. -/
def Steady (t : Template) : Prop := ∀ slots, fill slots t = "" ↔ fill "" t = ""

theorem Steady.fill_orUndefined {t : Template} (h : Steady t) (slots : String) :
    fill slots (orUndefined t) = Form.orUndefined (fill slots t) := by
  unfold orUndefined Form.orUndefined
  by_cases hblank : fill slots t = ""
  · rw [if_pos hblank, if_pos ((h slots).mp hblank), fill_singleton]
  · rw [if_neg hblank, if_neg fun hempty => hblank ((h slots).mpr hempty)]

/-- No place is lost to `undefined`: a blank template has none, if it is steady. -/
theorem Steady.count_orUndefined {t : Template} (h : Steady t) :
    (orUndefined t).count none = t.count none := by
  unfold orUndefined
  split
  · next hblank =>
    -- A place would show under a slot object that is not empty.
    have hplace : fill "x" t = "" := (h "x").mpr hblank
    have hnone : none ∉ t := by
      intro hmem
      obtain ⟨front, rest, hsplit⟩ := List.append_of_mem hmem
      rw [hsplit, fill_append] at hplace
      simp [fill] at hplace
    rw [List.count_eq_zero.mpr hnone]
    rfl
  · rfl

end Template

/-! ### Operations -/

namespace Operation

open Template (fill join enclose)

/-- The template at a position. -/
def operandTemplate (operands : List Template) (i : Nat) : Template :=
  operands.getD i [some undefinedText]

/-- The template of an operation over the templates of its operands. -/
def template (operands : List Template) : Operation → Template
  | binary symbol => enclose "(" ")" (join (" " ++ symbol ++ " ") operands)
  | unary symbol => [some symbol] ++ operandTemplate operands 0
  | array => enclose "[" "]" (join ", " operands)
  | method name =>
      operandTemplate operands 1 ++ enclose ("." ++ name ++ "(") ")" (operandTemplate operands 0)
  | exit => [some exitText]
  | assign => Template.define (operandTemplate operands 0) (operandTemplate operands 1)
  | call name => enclose (name ++ "(") ")" (join ", " operands)

theorem fill_operandTemplate (slots : String) (operands : List Template) (i : Nat) :
    fill slots (operandTemplate operands i) = operand (operands.map (fill slots)) i := by
  unfold operandTemplate operand
  simp only [List.getD_eq_getElem?_getD, List.getElem?_map]
  cases operands[i]? with
  | none => exact Template.fill_singleton slots undefinedText
  | some t => rfl

theorem fill_template (slots : String) (operands : List Template) (op : Operation) :
    fill slots (op.template operands) = op.render slots (operands.map (fill slots)) := by
  cases op with
  | binary symbol => rw [template, Template.fill_enclose, Template.fill_join]; rfl
  | unary symbol =>
    rw [template, Template.fill_append, Template.fill_singleton, fill_operandTemplate]
    rfl
  | array => rw [template, Template.fill_enclose, Template.fill_join]; rfl
  | method name =>
    rw [template, Template.fill_append, Template.fill_enclose, fill_operandTemplate,
      fill_operandTemplate]
    simp only [render, String.append_assoc]
  | exit => exact Template.fill_singleton slots exitText
  | assign => rw [template, Template.fill_define, fill_operandTemplate, fill_operandTemplate]; rfl
  | call name => rw [template, Template.fill_enclose, Template.fill_join]; rfl

theorem count_operandTemplate (operands : List Template) (i : Nat) :
    (operandTemplate operands i).count none = (operands.map (List.count none)).getD i 0 := by
  unfold operandTemplate
  simp only [List.getD_eq_getElem?_getD, List.getElem?_map]
  cases operands[i]? with
  | none => rfl
  | some t => rfl

/-- The places of an operation are those of the operands that it writes, and one more if it is
    an assignment. -/
theorem count_template (operands : List Template) (op : Operation) :
    (op.template operands).count none =
      (op.used (operands.map (List.count none))).sum + if op = assign then 1 else 0 := by
  cases op with
  | binary symbol => simp [template, used, Template.count_enclose, Template.count_join]
  | unary symbol => simp [template, used, count_operandTemplate, sum_take_one]
  | array => simp [template, used, Template.count_enclose, Template.count_join]
  | method name =>
    -- The second operand is written first.
    simp [template, used, Template.count_enclose, count_operandTemplate, sum_take_two, Nat.add_comm]
  | exit => rfl
  | assign => simp [template, used, Template.count_define, count_operandTemplate, sum_take_two]
  | call name => simp [template, used, Template.count_enclose, Template.count_join]

theorem ofName_eq_assign_iff (name : String) : ofName name = .assign ↔ name = "set" := by
  rcases ofName_cases name with ⟨symbol, hmem, hop⟩ | ⟨symbol, hmem, hop⟩ | ⟨hname, hop⟩ |
    ⟨hmem, hop⟩ | ⟨hname, hop⟩ | ⟨hname, hop⟩ | ⟨hnone, hop⟩ <;> rw [hop]
  · refine iff_of_false nofun fun hset => ?_
    have hother : ∀ entry ∈ binaryOperators, entry.1 ≠ "set" := by decide
    exact hother _ hmem hset
  · refine iff_of_false nofun fun hset => ?_
    have hother : ∀ entry ∈ unaryOperators, entry.1 ≠ "set" := by decide
    exact hother _ hmem hset
  · exact iff_of_false nofun (by rw [hname]; decide)
  · refine iff_of_false nofun fun hset => ?_
    have hother : ∀ method ∈ arrayMethods, method ≠ "set" := by decide
    exact hother _ hmem hset
  · exact iff_of_false nofun (by rw [hname]; decide)
  · exact iff_of_true rfl hname
  · -- A name that is called as it is stands in no table, and `set` does.
    refine iff_of_false nofun fun hset => ?_
    exact hnone .special (by decide) (by rw [hset]; decide)

theorem used_map {α β : Type} (f : α → β) (operands : List α) (op : Operation) :
    op.used (operands.map f) = (op.used operands).map f := by
  cases op <;> simp [used, List.map_take]

end Operation

/-! ### Forms -/

namespace Form

open Template (fill join enclose Steady)

/-- The template of the statements in an arrow. -/
def bodyTemplate (statements : List Template) : Template :=
  join ", " (statements.map fun t => enclose "(" ")" (Template.orUndefined t))

/-- The template of an arrow over the templates of its statements. -/
def arrowTemplate (params : List String) (statements : List Template) : Template :=
  enclose ("(" ++ ", ".intercalate params ++ ") => (") ")"
    (Template.orUndefined (bodyTemplate statements))

mutual

/-- The template of a form. -/
def template : Form → Template
  | .empty => []
  | .leaf t => [some t.text]
  | .call name args => (Operation.ofName name).template (templates args)
  | .defconstant name value => Template.define [some name] [some value]
  | .defvar name value => Template.define [some name] [some value]
  | .defun name params body =>
      Template.define [some name] (arrowTemplate params (templates body)) ++ [some ";"]

/-- The templates of several forms. -/
def templates : List Form → List Template
  | [] => []
  | form :: forms => template form :: templates forms

end

/-- A body is blank only if there are no statements, since each of them has its parens. -/
theorem steady_bodyTemplate (statements : List Template) : Steady (bodyTemplate statements) := by
  have hblank (slots : String) : fill slots (bodyTemplate statements) = "" ↔ statements = [] := by
    cases statements with
    | nil => exact iff_of_true rfl rfl
    | cons t ts =>
      refine iff_of_false ?_ (List.cons_ne_nil t ts)
      rw [bodyTemplate, Template.fill_join, List.map_cons, List.map_cons, Template.fill_enclose,
        String.append_assoc, String.intercalate_cons_append]
      simp
  intro slots
  rw [hblank, hblank]

section arrow
variable {statements : List Template} (h : ∀ t ∈ statements, Steady t)
include h

theorem fill_arrowTemplate (slots : String) (params : List String) :
    fill slots (arrowTemplate params statements) =
      arrow params (statements.map (fill slots)) := by
  have hbody : fill slots (bodyTemplate statements) =
      ", ".intercalate ((statements.map (fill slots)).map fun text =>
        "(" ++ orUndefined text ++ ")") := by
    rw [bodyTemplate, Template.fill_join, List.map_map, List.map_map]
    congr 1
    refine List.map_congr_left fun t ht => ?_
    show fill slots (enclose "(" ")" (Template.orUndefined t)) = _
    rw [Template.fill_enclose, (h t ht).fill_orUndefined]
    rfl
  unfold arrowTemplate arrow
  rw [Template.fill_enclose, (steady_bodyTemplate statements).fill_orUndefined, hbody]

theorem count_arrowTemplate (params : List String) :
    (arrowTemplate params statements).count none = (statements.map (List.count none)).sum := by
  rw [arrowTemplate, Template.count_enclose, (steady_bodyTemplate statements).count_orUndefined,
    bodyTemplate, Template.count_join, List.map_map]
  congr 1
  refine List.map_congr_left fun t ht => ?_
  show (enclose "(" ")" (Template.orUndefined t)).count none = _
  rw [Template.count_enclose, (h t ht).count_orUndefined]

end arrow

/-- A form whose template gives its text under every slot object is steady, because blank
    forms are blank under all of them. -/
theorem steady_template_of_fill {form : Form}
    (h : ∀ slots, fill slots form.template = form.write slots) : Steady form.template := by
  intro slots
  rw [h, h, write_eq_empty_iff, write_eq_empty_iff]

mutual

/-- The template of a form gives its text. -/
theorem fill_template : (form : Form) → ∀ slots, fill slots form.template = form.write slots
  | .empty, _ => rfl
  | .leaf t, slots => Template.fill_singleton slots t.text
  | .call name args, slots => by
    show fill slots ((Operation.ofName name).template (templates args)) = _
    rw [Operation.fill_template, map_fill_templates args slots]
    rfl
  | .defconstant name value, slots => by
    show fill slots (Template.define [some name] [some value]) = _
    rw [Template.fill_define, Template.fill_singleton, Template.fill_singleton]
    rfl
  | .defvar name value, slots => by
    show fill slots (Template.define [some name] [some value]) = _
    rw [Template.fill_define, Template.fill_singleton, Template.fill_singleton]
    rfl
  | .defun name params body, slots => by
    -- Under all slot objects the same statements are blank, so one template serves for all.
    have hsteady := steady_templates body
    show fill slots (Template.define _ (arrowTemplate params (templates body)) ++ _) = _
    rw [Template.fill_append, Template.fill_define, Template.fill_singleton,
      Template.fill_singleton, fill_arrowTemplate hsteady, map_fill_templates body slots]
    rfl

/-- The same for several forms. -/
theorem map_fill_templates :
    (forms : List Form) → ∀ slots, (templates forms).map (fill slots) = writeAll slots forms
  | [], _ => rfl
  | form :: forms, slots => by
    rw [templates, List.map_cons, fill_template form slots, map_fill_templates forms slots]
    rfl

/-- What is blank in a function body does not depend on the slot object. -/
theorem steady_templates : (forms : List Form) → ∀ t ∈ templates forms, Steady t
  | form :: forms, t, ht => by
    rcases List.mem_cons.mp ht with heq | hrest
    · rw [heq]
      exact steady_template_of_fill (fill_template form)
    · exact steady_templates forms t hrest

end

/-! ### Definitions that are written -/

mutual

/-- The forms in a form whose texts stand in its text, itself first. -/
def written : Form → List Form
  | .call name args =>
      .call name args :: ((Operation.ofName name).used (writtenAll args)).flatten
  | .defun name params body => .defun name params body :: (writtenAll body).flatten
  | form => [form]

/-- The same for several forms, one list for each. -/
def writtenAll : List Form → List (List Form)
  | [] => []
  | form :: forms => written form :: writtenAll forms

end

/-- Whether a form writes into the slot object itself. -/
def defines : Form → Bool
  | .call name _ => name = "set"
  | .defconstant _ _ => true
  | .defvar _ _ => true
  | .defun _ _ _ => true
  | _ => false

mutual

/-- There is one place for each definition that is written. -/
theorem count_template :
    (form : Form) → form.template.count none = form.written.countP defines
  | .empty => rfl
  | .leaf _ => rfl
  | .call name args => by
    show ((Operation.ofName name).template (templates args)).count none = _
    -- What is left out of the text is left out of the count as well.
    rw [Operation.count_template, map_count_templates args, Operation.used_map, written,
      List.countP_cons, List.countP_flatten]
    simp [Operation.ofName_eq_assign_iff, defines]
  | .defconstant _ _ => rfl
  | .defvar _ _ => rfl
  | .defun name params body => by
    show (Template.define _ (arrowTemplate params (templates body)) ++ _).count none = _
    rw [List.count_append, Template.count_define, count_arrowTemplate (steady_templates body),
      map_count_templates body, written, List.countP_cons, List.countP_flatten]
    simp [defines]

/-- The same for several forms. -/
theorem map_count_templates :
    (forms : List Form) →
      (templates forms).map (List.count none) = (writtenAll forms).map (List.countP defines)
  | [] => rfl
  | form :: forms => by
    rw [templates, writtenAll, List.map_cons, List.map_cons, count_template form,
      map_count_templates forms]

end

/-- The texts between the places of a form for the slot object. -/
def segments (form : Form) : List String := form.template.segments

/-- The slot object stands at the definitions only.  Within the nesting limit, the text of a
    form is its segments with the slot object between any two of them, and there is one such
    place for each definition that is written.  Without a definition the text is the same
    under all slot objects, and under all of them the same statements are replaced by
    `undefined`. -/
theorem write?_eq_intercalate_segments {form : Form} (h : form.depth ≤ Nesting.scripts) :
    (∀ slots, form.write? Nesting.scripts slots = some (slots.intercalate form.segments)) ∧
      form.segments.length = form.written.countP defines + 1 ∧
      ((∀ part ∈ form.written, part.defines = false) →
        ∀ slots slots', form.write? Nesting.scripts slots = form.write? Nesting.scripts slots') ∧
      ∀ slots slots', orUndefined (form.write slots) ≠ form.write slots ↔
        orUndefined (form.write slots') ≠ form.write slots' := by
  have hlength : form.segments.length = form.written.countP defines + 1 := by
    rw [segments, Template.length_segments, count_template]
  have htext (slots : String) :
      form.write? Nesting.scripts slots = some (slots.intercalate form.segments) := by
    rw [segments, Template.intercalate_segments, fill_template, write?, if_pos h]
  refine ⟨htext, hlength, ?_, ?_⟩
  · intro hnone slots slots'
    have hzero : form.written.countP defines = 0 := by
      rw [List.countP_eq_zero]
      intro part hpart
      simp [hnone part hpart]
    -- One segment has nothing between it and another.
    obtain ⟨segment, hsegment⟩ := List.length_eq_one_iff.mp (hzero ▸ hlength)
    rw [htext, htext, hsegment, String.intercalate_singleton, String.intercalate_singleton]
  · have hreplaced (slots : String) :
        orUndefined (form.write slots) ≠ form.write slots ↔ form.isBlank = true := by
      rw [← write_eq_empty_iff slots form]
      unfold orUndefined
      split
      · next hempty => simp [hempty, Operation.undefinedText]
      · next hne => simp [hne]
    intro slots slots'
    rw [hreplaced, hreplaced]

/-- A function with an empty statement and an assignment.  The second operand of `not` is not
    written, so three of the four definitions have a place. -/
theorem write?_eq_intercalate_segments_defun :
    let form : Form := .defun "f" [] [.empty, .call "set" [.leaf ⟨.identifier, "x"⟩,
      .call "not" [.defvar "y" "1", .defvar "z" "2"]]]
    form.depth ≤ Nesting.scripts ∧
      form.segments = ["", ".f = () => ((undefined), (", ".x = !", ".y = 1));"] ∧
      form.written.countP defines = 3 ∧
      (∀ slots, form.write? Nesting.scripts slots = some (slots.intercalate form.segments)) ∧
      ∀ slots, orUndefined (form.write slots) ≠ form.write slots ↔
        orUndefined (form.write "") ≠ form.write "" := by
  intro form
  have hdepth : form.depth ≤ Nesting.scripts := by decide +kernel
  have h := write?_eq_intercalate_segments hdepth
  exact ⟨hdepth, by decide +kernel, by decide +kernel, h.1, fun slots => h.2.2.2 slots ""⟩

end Form

end SexpScript
