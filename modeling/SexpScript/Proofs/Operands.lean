import SexpScript.Proofs.Terminators

/-! # Operands that are left blank

    Nothing is written for an empty form.  In the body of a function `undefined` stands
    in its place, among the operands of a call nothing does.

    - `parts` are all the forms in a form.  What is true of the atoms of a source is true of
      the atoms of each part (`mem_atomsAll_of_mem_partsAll`).
    - Of all forms made from atoms that are there, the empty form is the only one for which
      nothing is written (`write_eq_empty_iff`).
    - Operators between operands, arrays and calls write all their operands in one way: a
      `Frame` says what stands around and between them (`render_of_frame?`).
-/

namespace SexpScript

/-! ### Parts -/

namespace Form

mutual

/-- The forms in a form, itself first. -/
def parts : Form → List Form
  | .call name args => .call name args :: partsAll args
  | .defun name params body => .defun name params body :: partsAll body
  | form => [form]

/-- The forms in several forms. -/
def partsAll : List Form → List Form
  | [] => []
  | form :: forms => parts form ++ partsAll forms

end

mutual

/-- The atoms of a part are atoms of the whole. -/
theorem mem_atoms_of_mem_parts {part : Form} {a : String} (ha : a ∈ atoms part) :
    (form : Form) → part ∈ parts form → a ∈ atoms form
  | .empty, h => List.mem_singleton.mp h ▸ ha
  | .leaf _, h => List.mem_singleton.mp h ▸ ha
  | .defconstant _ _, h => List.mem_singleton.mp h ▸ ha
  | .defvar _ _, h => List.mem_singleton.mp h ▸ ha
  | .call name args, h => by
    rcases List.mem_cons.mp h with heq | hargs
    · exact heq ▸ ha
    · exact List.mem_cons_of_mem _ (mem_atomsAll_of_mem_partsAll ha args hargs)
  | .defun name params body, h => by
    rcases List.mem_cons.mp h with heq | hbody
    · exact heq ▸ ha
    · exact List.mem_append_right _ (mem_atomsAll_of_mem_partsAll ha body hbody)

/-- The same for several forms. -/
theorem mem_atomsAll_of_mem_partsAll {part : Form} {a : String} (ha : a ∈ atoms part) :
    (forms : List Form) → part ∈ partsAll forms → a ∈ atomsAll forms
  | form :: forms, h => by
    rcases List.mem_append.mp h with hform | hforms
    · exact List.mem_append_left _ (mem_atoms_of_mem_parts ha form hform)
    · exact List.mem_append_right _ (mem_atomsAll_of_mem_partsAll ha forms hforms)

end

end Form

/-! ### Blank forms -/

namespace Operation

theorem define_ne_empty (slots name value : String) : define slots name value ≠ "" := by
  simp [define]

theorem operatorSymbols_ne_empty :
    (∀ entry ∈ binaryOperators, entry.2 ≠ "") ∧ ∀ entry ∈ unaryOperators, entry.2 ≠ "" := by
  decide

/-- Every operation writes something, whatever its operands. -/
theorem render_ofName_ne_empty (slots name : String) (operands : List String) :
    (ofName name).render slots operands ≠ "" := by
  rcases ofName_cases name with ⟨symbol, _, hop⟩ | ⟨symbol, hmem, hop⟩ | ⟨_, hop⟩ | ⟨_, hop⟩ |
    ⟨_, hop⟩ | ⟨_, hop⟩ | ⟨_, hop⟩ <;> rw [hop]
  · simp [render]
  · -- A sign is there even if its operand is not.
    have hsymbol := operatorSymbols_ne_empty.2 _ hmem
    simp [render, hsymbol]
  · simp [render]
  · simp [render]
  · show exitText ≠ ""
    decide
  · exact define_ne_empty _ _ _
  · simp [render]

end Operation

namespace Form

/-- Whether there is nothing to write for a form: it is empty, or a leaf without a text. -/
def isBlank : Form → Bool
  | .empty => true
  | .leaf t => t.text = ""
  | _ => false

/-- Nothing is written for blank forms, and for no others.  The slot object is no matter. -/
theorem write_eq_empty_iff (slots : String) (form : Form) :
    write slots form = "" ↔ form.isBlank = true := by
  cases form with
  | empty => exact iff_of_true rfl rfl
  | leaf t => exact decide_eq_true_iff.symm
  | call name args =>
    exact iff_of_false (Operation.render_ofName_ne_empty slots name _) Bool.false_ne_true
  | defconstant name value =>
    exact iff_of_false (Operation.define_ne_empty slots name value) Bool.false_ne_true
  | defvar name value =>
    exact iff_of_false (Operation.define_ne_empty slots name value) Bool.false_ne_true
  | defun name params body =>
    refine iff_of_false ?_ Bool.false_ne_true
    simp [write]

/-- The atoms of an accepted source are chunks of it. -/
theorem mem_chunks_of_mem_atoms {source : String} {forms : List Form}
    (h : ofTokens (tokenize source) = .ok forms) : ∀ a ∈ atomsAll forms, a ∈ chunks source := by
  intro a ha
  obtain ⟨t, ht, _, rfl⟩ := isTextOf_of_isProgram (isProgram_of_ofTokens h) a ha
  obtain ⟨chunk, hchunk, rfl⟩ := List.mem_map.mp (List.mem_of_mem_filter ht)
  exact hchunk

/-- The atoms of an accepted source are there: a chunk has at least one character. -/
theorem ne_empty_of_mem_atoms {source : String} {forms : List Form}
    (h : ofTokens (tokenize source) = .ok forms) : ∀ a ∈ atomsAll forms, a ≠ "" := by
  intro a ha hempty
  obtain ⟨cs, hcs, rfl⟩ := List.mem_map.mp (mem_chunks_of_mem_atoms h a ha)
  have hnil : cs = [] := by
    rw [← String.toList_inj, String.toList_ofList] at hempty
    exact hempty
  exact Scan.ne_nil_of_mem_chunks hcs hnil

/-- Made from atoms that are there, only the empty form is blank. -/
theorem write_eq_empty_iff_of_atoms {form : Form} (h : ∀ a ∈ atoms form, a ≠ "") (slots : String) :
    write slots form = "" ↔ form = .empty := by
  rw [write_eq_empty_iff]
  cases form with
  | empty => exact iff_of_true rfl rfl
  | leaf t =>
    have htext : t.text ≠ "" := h t.text List.mem_cons_self
    exact iff_of_false (fun hblank => htext (of_decide_eq_true hblank)) (by simp)
  | _ => exact iff_of_false Bool.false_ne_true (by simp)

end Form

/-! ### Frames -/

namespace Operation

/-- What is written around and between operands. -/
structure Frame where
  opening : String
  separator : String
  closing : String

/-- Operands in a frame. -/
def Frame.around (frame : Frame) (operands : List String) : String :=
  frame.opening ++ frame.separator.intercalate operands ++ frame.closing

/-- The frame of an operation that writes all its operands. -/
def frame? : Operation → Option Frame
  | binary symbol => some ⟨"(", " " ++ symbol ++ " ", ")"⟩
  | array => some ⟨"[", ", ", "]"⟩
  | call name => some ⟨name ++ "(", ", ", ")"⟩
  | _ => none

theorem render_of_frame? {op : Operation} {frame : Frame} (h : op.frame? = some frame)
    (slots : String) (operands : List String) :
    op.render slots operands = frame.around operands := by
  cases op with
  | binary symbol => cases h; rfl
  | array => cases h; rfl
  | call name => cases h; rfl
  | _ => cases h

end Operation

namespace Form

/-- An arrow puts `undefined` for the statements that are blank, so it is the arrow of
    statements that are there. -/
theorem arrow_map_orUndefined (params statements : List String) :
    arrow params (statements.map orUndefined) = arrow params statements := by
  have htwice (text : String) : orUndefined (orUndefined text) = orUndefined text := by
    by_cases hempty : text = ""
    · rw [hempty]
      rfl
    · have hself : orUndefined text = text := if_neg hempty
      rw [hself, hself]
  unfold arrow
  simp only [List.map_map, Function.comp_def, htwice]

theorem orUndefined_ne_empty (text : String) : orUndefined text ≠ "" := by
  unfold orUndefined
  split
  · decide
  · next hne => exact hne

/-- A text that is written for an argument.  It is blank only if the argument is an empty
    form. -/
structure WritesOperand (slots : String) (arg : Form) (operand : String) : Prop where
  text : operand = arg.write slots
  blank : operand = "" ↔ arg = .empty

/-- A text that is written for a statement.  It is never blank, because `undefined` stands in
    the place of an empty form. -/
structure WritesStatement (slots : String) (form : Form) (statement : String) : Prop where
  there : statement ≠ ""
  empty : form = .empty → statement = Operation.undefinedText
  text : form ≠ .empty → statement = form.write slots

section atoms
variable {form : Form} (h : ∀ a ∈ atoms form, a ≠ "") (slots : String)
include h

theorem writesOperand : WritesOperand slots form (form.write slots) where
  text := rfl
  blank := write_eq_empty_iff_of_atoms h slots

theorem writesStatement : WritesStatement slots form (orUndefined (form.write slots)) where
  there := orUndefined_ne_empty _
  empty := by
    intro hempty
    rw [hempty]
    rfl
  text := fun hne => if_neg fun htext => hne ((write_eq_empty_iff_of_atoms h slots).mp htext)

end atoms

end Form

namespace Compiler

/-- Where operands are blank.  In an accepted source, the operands of an operator between
    operands, of an array and of a call are written one by one into a frame.  The one of an
    empty form is blank and no other is.  The statements of a function are never blank:
    `undefined` is written for an empty form. -/
theorem blank_operands_of_forms {c : Compiler} {source : String} {forms : List Form}
    (h : c.forms source = .ok forms) :
    (∀ name args frame, Form.call name args ∈ Form.partsAll forms →
      (Operation.ofName name).frame? = some frame →
      ∃ operands, (Form.call name args).write c.slots = frame.around operands ∧
        List.Forall₂ (Form.WritesOperand c.slots) args operands) ∧
      ∀ name params body, Form.defun name params body ∈ Form.partsAll forms →
        ∃ statements, (Form.defun name params body).write c.slots =
            Operation.define c.slots name (Form.arrow params statements) ++ ";" ∧
          List.Forall₂ (Form.WritesStatement c.slots) body statements := by
  have hatoms : ∀ part ∈ Form.partsAll forms, ∀ a ∈ part.atoms, a ≠ "" := fun part hpart a ha =>
    Form.ne_empty_of_mem_atoms (forms_eq_ok.mp h) a
      (Form.mem_atomsAll_of_mem_partsAll ha forms hpart)
  refine ⟨?_, ?_⟩
  · intro name args frame hcall hframe
    refine ⟨Form.writeAll c.slots args, Operation.render_of_frame? hframe _ _, ?_⟩
    rw [Form.writeAll_eq_map, List.forall₂_map_right_iff, List.forall₂_same]
    intro arg harg
    have harg_atoms : ∀ a ∈ arg.atoms, a ≠ "" := fun a ha =>
      hatoms _ hcall a (List.mem_cons_of_mem _ (Form.mem_atomsAll harg a ha))
    exact Form.writesOperand harg_atoms c.slots
  · intro name params body hdefun
    refine ⟨(Form.writeAll c.slots body).map Form.orUndefined, ?_, ?_⟩
    · rw [Form.arrow_map_orUndefined]
      rfl
    · rw [Form.writeAll_eq_map, List.map_map, List.forall₂_map_right_iff, List.forall₂_same]
      intro form hform
      have hform_atoms : ∀ a ∈ form.atoms, a ≠ "" := fun a ha =>
        hatoms _ hdefun a (List.mem_append_right _ (Form.mem_atomsAll hform a ha))
      exact Form.writesStatement hform_atoms c.slots

/-- An empty form in an array inside a function, and one as a statement of it. -/
theorem blank_operands_of_forms_list :
    ({} : Compiler).forms "(defun f () () (list () 1))" =
        .ok [.defun "f" [] [.empty, .call "list" [.empty, .leaf ⟨.number, "1"⟩]]] ∧
      ({} : Compiler).program "(defun f () () (list () 1))" =
        .ok ["global.f = () => ((undefined), ([, 1]));"] ∧
      (∃ operands, (Form.call "list" [.empty, .leaf ⟨.number, "1"⟩]).write "global" =
          Operation.Frame.around ⟨"[", ", ", "]"⟩ operands ∧
        List.Forall₂ (Form.WritesOperand "global") [.empty, .leaf ⟨.number, "1"⟩] operands) ∧
      ∃ statements, (Form.defun "f" [] [.empty, .call "list" [.empty, .leaf ⟨.number, "1"⟩]]).write
            "global" = Operation.define "global" "f" (Form.arrow [] statements) ++ ";" ∧
        List.Forall₂ (Form.WritesStatement "global")
          [.empty, .call "list" [.empty, .leaf ⟨.number, "1"⟩]] statements := by
  have hforms : ({} : Compiler).forms "(defun f () () (list () 1))" =
      .ok [.defun "f" [] [.empty, .call "list" [.empty, .leaf ⟨.number, "1"⟩]]] := by
    have htokens : tokenize "(defun f () () (list () 1))" =
        ["(", "defun", "f", "(", ")", "(", ")", "(", "list", "(", ")", "1", ")", ")"].map
          Token.ofChunk := by decide +kernel
    rw [forms_eq_ok, htokens]
    rfl
  have h := blank_operands_of_forms hforms
  exact ⟨hforms, by decide +kernel, h.1 _ _ _ (by simp [Form.partsAll, Form.parts]) rfl,
    h.2 _ _ _ (by simp [Form.partsAll, Form.parts])⟩

/-- An empty form after an operator leaves the operator without its operand. -/
theorem blank_operand_of_sum :
    ({} : Compiler).forms "(+ 1 ())" = .ok [.call "+" [.leaf ⟨.number, "1"⟩, .empty]] ∧
      Form.empty.write "global" = "" ∧ ({} : Compiler).program "(+ 1 ())" = .ok ["(1 + )"] :=
  ⟨rfl, rfl, by decide +kernel⟩

end Compiler

end SexpScript
