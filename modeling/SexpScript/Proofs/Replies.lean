import Mathlib.Data.List.Forall2
import Mathlib.Data.List.TakeWhile
import SexpScript.Proofs.Actions
import SexpScript.Proofs.JsonWriting
import SexpScript.Session

/-! # Replies in step with requests

    A session that evaluates text after text gets for each the answer to that text.

    - A pipe may change the line ends of what the child prints.  It changes nothing else, so the
      NUL and the reply behind it come as they were printed (`Pipe.toList_hear_append`).
    - Reading goes line by line, and output may hold line breaks anywhere.  What is read
      for an answer is its output up to the NUL and its reply up to the end of the line,
      and nothing beyond (`takeAnswer_reply`).
    - So one evaluation uses up one turn of the child and leaves nothing in the buffer
      (`emits_execute_reply`), whether the reply can be read or is too much for the reader, and a
      run of evaluations takes the replies in order.
    - When the child ends without a reply, that is reported once, and the session is over
      (`emits_execute_ending`, `emits_execute_over`).
-/

namespace SexpScript

namespace Text

/-! ### Lines -/

theorem flatten_linesFrom (current cs : List Char) :
    (linesFrom current cs).flatten = current.reverse ++ cs := by
  induction cs generalizing current with
  | nil =>
    rw [linesFrom, List.append_nil]
    cases current with
    | nil => rfl
    | cons c current => simp
  | cons c cs ih =>
    rw [linesFrom]
    by_cases hbreak : c = '\n'
    · rw [if_pos hbreak, List.flatten_cons, ih]
      simp
    · rw [if_neg hbreak, ih]
      simp

/-- What has no line break before its end is one line. -/
theorem linesFrom_line {cs : List Char} (h : '\n' ∉ cs) (current rest : List Char) :
    linesFrom current (cs ++ '\n' :: rest) =
      (current.reverse ++ (cs ++ ['\n'])) :: linesFrom [] rest := by
  induction cs generalizing current with
  | nil => simp [linesFrom]
  | cons c cs ih =>
    have hc : c ≠ '\n' := fun hc => h (hc ▸ List.mem_cons_self)
    have hcs : '\n' ∉ cs := fun hcs => h (List.mem_cons_of_mem c hcs)
    rw [List.cons_append, linesFrom, if_neg hc, ih hcs]
    simp

/-! ### Line ends -/

/-- Without a `\r` every character is kept, a `\n` too. -/
theorem foldl_unifyStep {cs : List Char} (h : '\r' ∉ cs) (written : List Char) :
    cs.foldl unifyStep (written, false) = (cs.reverse ++ written, false) := by
  induction cs generalizing written with
  | nil => rfl
  | cons c cs ih =>
    obtain ⟨hc, hcs⟩ := not_or.mp (mt List.mem_cons.mpr h)
    have hstep : unifyStep (written, false) c = (c :: written, false) := by
      simp [unifyStep, Ne.symm hc]
    rw [List.foldl_cons, hstep, ih hcs, List.reverse_cons, List.append_assoc,
      List.singleton_append]

/-- No character is added but `\n`. -/
theorem mem_foldl_unifyStep {c : Char} {cs : List Char} {state : List Char × Bool}
    (h : c ∈ (cs.foldl unifyStep state).1) : c = '\n' ∨ c ∈ state.1 ∨ c ∈ cs := by
  induction cs generalizing state with
  | nil => exact .inr (.inl h)
  | cons d cs ih =>
    have hstep : ∀ b ∈ (unifyStep state d).1, b = '\n' ∨ b ∈ state.1 ∨ b = d := by
      unfold unifyStep
      split_ifs <;> simp <;> tauto
    rcases ih h with hbreak | hwritten | hcs
    · exact .inl hbreak
    · rcases hstep c hwritten with hbreak | hstate | rfl
      · exact .inl hbreak
      · exact .inr (.inl hstate)
      · exact .inr (.inr List.mem_cons_self)
    · exact .inr (.inr (List.mem_cons_of_mem d hcs))

end Text

namespace Pipe

variable (pipe : Pipe)

/-- A text without `\r` is heard as it is, and so is any text through a plain pipe. -/
theorem hear_eq_self {pipe : Pipe} {printed : String}
    (h : pipe = .plain ∨ '\r' ∉ printed.toList) : pipe.hear printed = printed := by
  cases pipe with
  | plain => rfl
  | text =>
    rcases h with h | h
    · cases h
    · show Text.unifyNewlines printed = printed
      rw [Text.unifyNewlines, Text.foldl_unifyStep h, List.append_nil, List.reverse_reverse,
        String.ofList_toList]

/-- A pipe brings no NUL of its own. -/
theorem sentinel_not_mem_hear {printed : String} (h : Session.sentinel ∉ printed.toList) :
    Session.sentinel ∉ (pipe.hear printed).toList := by
  cases pipe with
  | plain => exact h
  | text =>
    show Session.sentinel ∉ (Text.unifyNewlines printed).toList
    rw [Text.unifyNewlines, String.toList_ofList, List.mem_reverse]
    intro hmem
    rcases Text.mem_foldl_unifyStep hmem with hbreak | hnil | hprinted
    · exact absurd hbreak (by decide)
    · cases hnil
    · exact h hprinted

/-- From a NUL on, a text without `\r` is heard as it was printed, whatever stands before it: a
    NUL is part of no line end. -/
theorem toList_hear_append (printed : String) {reply : List Char} (h : '\r' ∉ reply) :
    (pipe.hear (printed ++ String.ofList (Session.sentinel :: reply))).toList =
      (pipe.hear printed).toList ++ Session.sentinel :: reply := by
  cases pipe with
  | plain => simp [hear]
  | text =>
    have hstep : ∀ state, Text.unifyStep state Session.sentinel =
        (Session.sentinel :: state.1, false) := by
      intro state
      simp [Text.unifyStep, Session.sentinel, Char.ext_iff]
    show (Text.unifyNewlines _).toList = (Text.unifyNewlines _).toList ++ _
    simp only [Text.unifyNewlines, String.toList_append, String.toList_ofList, List.foldl_append,
      List.foldl_cons, hstep, Text.foldl_unifyStep h, List.reverse_append, List.reverse_reverse,
      List.reverse_cons, List.append_assoc, List.singleton_append]

end Pipe

namespace Session

/-! ### Taking an answer -/

theorem takeAnswerFrom_plain {line : List Char} (h : sentinel ∉ line)
    (read lines : List (List Char)) :
    takeAnswerFrom read (line :: lines) = takeAnswerFrom (line :: read) lines := by
  have hdrop : line.dropWhile (· ≠ sentinel) = [] := by
    apply List.dropWhile_eq_nil_iff.mpr
    intro c hc
    exact decide_eq_true fun heq => h (heq ▸ hc)
  rw [takeAnswerFrom, hdrop]

theorem takeAnswerFrom_sentinel {line : List Char} (h : sentinel ∉ line) (reply : List Char)
    (read lines : List (List Char)) :
    takeAnswerFrom read ((line ++ sentinel :: reply) :: lines) =
      (.reply (String.ofList (read.reverse.flatten ++ line)) (String.ofList reply),
        lines.flatten) := by
  have hline : ∀ c ∈ line, decide (c ≠ sentinel) = true := by
    intro c hc
    exact decide_eq_true fun heq => h (heq ▸ hc)
  have hdrop : (line ++ sentinel :: reply).dropWhile (· ≠ sentinel) = sentinel :: reply := by
    rw [List.dropWhile_append_of_pos hline]
    simp
  have htake : (line ++ sentinel :: reply).takeWhile (· ≠ sentinel) = line := by
    rw [List.takeWhile_append_of_pos hline]
    simp
  rw [takeAnswerFrom, hdrop]
  simp only [htake]
  simp

/-- Output without a NUL is read, wherever its lines end.  Some of it stands in whole
    lines after that, and the rest in the line that has begun. -/
theorem takeAnswerFrom_output {current output : List Char} (hcurrent : sentinel ∉ current)
    (houtput : sentinel ∉ output) (read : List (List Char)) (rest : List Char) :
    ∃ read' current', sentinel ∉ current' ∧
      read'.reverse.flatten ++ current'.reverse =
        read.reverse.flatten ++ current.reverse ++ output ∧
      takeAnswerFrom read (Text.linesFrom current (output ++ rest)) =
        takeAnswerFrom read' (Text.linesFrom current' rest) := by
  induction output generalizing current read with
  | nil => exact ⟨read, current, hcurrent, (List.append_nil _).symm, rfl⟩
  | cons c output ih =>
    obtain ⟨hc, hoc⟩ := not_or.mp (mt List.mem_cons.mpr houtput)
    have hline : sentinel ∉ c :: current := by
      intro h
      rcases List.mem_cons.mp h with h | h
      · exact hc h
      · exact hcurrent h
    rw [List.cons_append, Text.linesFrom]
    by_cases hbreak : c = '\n'
    · -- The line is whole, and the next one has not begun.
      obtain ⟨read', current', hplain, hread, htake⟩ :=
        ih List.not_mem_nil hoc ((c :: current).reverse :: read)
      refine ⟨read', current', hplain, by simpa using hread, ?_⟩
      rw [if_pos hbreak, takeAnswerFrom_plain (mt List.mem_reverse.mp hline), htake]
    · obtain ⟨read', current', hplain, hread, htake⟩ := ih hline hoc read
      refine ⟨read', current', hplain, by simpa using hread, ?_⟩
      rw [if_neg hbreak, htake]

/-- Output without a NUL is all of the answer. -/
theorem takeAnswer_silence {output : List Char} (h : sentinel ∉ output) :
    takeAnswer output = (.silence (String.ofList output), []) := by
  obtain ⟨read, current, hplain, hread, htake⟩ :=
    takeAnswerFrom_output List.not_mem_nil h [] []
  rw [List.append_nil] at htake
  unfold takeAnswer
  rw [htake]
  cases current with
  | nil =>
    have hread' : read.reverse.flatten = output := by simpa using hread
    show (Answer.silence (String.ofList read.reverse.flatten), []) = _
    rw [hread']
  | cons c current =>
    have hread' : ((c :: current).reverse :: read).reverse.flatten = output := by simpa using hread
    show takeAnswerFrom read [(c :: current).reverse] = _
    rw [takeAnswerFrom_plain (mt List.mem_reverse.mp hplain), takeAnswerFrom, hread']

/-- The answer is the output up to the NUL and the reply up to the end of its line, and
    nothing that stands behind. -/
theorem takeAnswer_reply {output reply : List Char} (houtput : sentinel ∉ output)
    (hreply : '\n' ∉ reply) (rest : List Char) :
    takeAnswer (output ++ sentinel :: (reply ++ '\n' :: rest)) =
      (.reply (String.ofList output) (String.ofList (reply ++ ['\n'])), rest) := by
  obtain ⟨read, current, hplain, hread, htake⟩ :=
    takeAnswerFrom_output List.not_mem_nil houtput [] (sentinel :: (reply ++ '\n' :: rest))
  have hline : '\n' ∉ sentinel :: reply := by
    intro h
    rcases List.mem_cons.mp h with h | h
    · cases h
    · exact hreply h
  have hread' : read.reverse.flatten ++ current.reverse = output := by simpa using hread
  unfold takeAnswer
  rw [htake, ← List.cons_append, Text.linesFrom_line hline, List.cons_append,
    takeAnswerFrom_sentinel (mt List.mem_reverse.mp hplain), Text.flatten_linesFrom, hread']
  rfl

/-! ### What a child answers -/

/-- An answer with a reply: output without a NUL, and a JSON object on one line.  The
    reply of code that failed gives its error as a string, or not at all. -/
structure Reply where
  /-- What the code prints. -/
  output : String
  /-- The line of the reply. -/
  line : List Char
  /-- The fields of the reply. -/
  fields : List (List Nat × Json)
  output_plain : sentinel ∉ output.toList
  line_single : '\n' ∉ line ∧ '\r' ∉ line
  denotes : Json.Denotes line (.object fields)
  error_string : ((Json.field? fields "ok").getD .null).truth = false →
    ∀ error, Json.field? fields "error" = some error → ∃ units, error = .string units

namespace Reply

variable (pipe : Pipe) (reply : Reply)

/-- Whether the reply says that the code ran without an error. -/
def ok : Bool := ((Json.field? reply.fields "ok").getD .null).truth

/-- The first thing in a reply that is too much for the reader. -/
def excess? : Option Json.Obstacle := Json.excess? Nesting.replies (.object reply.fields)

/-- The turn of a child that answers so. -/
def turn : Turn :=
  .prints pipe (reply.output ++ String.ofList (sentinel :: (reply.line ++ ['\n']))) false none

/-- The outcome that a reply stands for. -/
structure Reports (result : Result) : Prop where
  output : result.output = pipe.hear reply.output
  output_verbatim : pipe = .plain ∨ '\r' ∉ reply.output.toList → result.output = reply.output
  value : result.value = (Json.field? reply.fields "value").getD .null
  error_null : result.error = .null ↔ reply.ok = true
  error : reply.ok = false →
    result.error = (Json.field? reply.fields "error").getD (.ofText "unknown error")
  closed : result.closed = false

/-- What an evaluation comes to that is answered so: the outcome of the reply, or the obstacle
    that is met in reading it. -/
def Settles (answer : Except Fault Result) : Prop :=
  match reply.excess? with
  | none => ∃ result, answer = .ok result ∧ reply.Reports pipe result
  | some obstacle => answer = .error (.unreadReply obstacle)

end Reply

/-- A child that answers the next text with output alone, and then ends. -/
inductive Ending (pipe : Pipe) : List Turn → String → Prop
  | silent {printed : String} {exit : Option Int} {turns : List Turn}
      (h : sentinel ∉ printed.toList) :
      Ending pipe (.prints pipe printed false exit :: turns) printed
  | exhausted : Ending pipe [] ""

theorem Reply.settles_ofReply (pipe : Pipe) (reply : Reply) : reply.Settles pipe
    (Result.ofReply (pipe.hear reply.output) (String.ofList (reply.line ++ ['\n']))) := by
  have hgap : Json.IsGap ['\n'] := List.forall_mem_singleton.mpr rfl
  have hread := Json.read_of_denotes reply.denotes hgap
  unfold Settles
  cases hexcess : reply.excess? with
  | some obstacle =>
    rw [← excess?, hexcess] at hread
    rw [Result.ofReply, hread]
    rfl
  | none =>
    rw [← excess?, hexcess] at hread
    rw [Result.ofReply, hread]
    refine ⟨_, rfl, rfl, Pipe.hear_eq_self, rfl, ?_, ?_, rfl⟩
    · -- An error that the reply gives is a string, and no string is null.
      by_cases hok : reply.ok = true
      · exact iff_of_true (if_pos hok) hok
      · have hfalse : reply.ok = false := Bool.eq_false_iff.mpr hok
        refine iff_of_false ?_ hok
        show ¬(if reply.ok = true then Json.null else _) = .null
        rw [if_neg hok]
        cases herror : Json.field? reply.fields "error" with
        | none => exact Json.noConfusion
        | some error =>
          obtain ⟨units, rfl⟩ := reply.error_string hfalse error herror
          exact Json.noConfusion
    · intro hfalse
      exact if_neg (Bool.eq_false_iff.mp hfalse)

/-- The line of a reply to code that ran, with one more field than that. -/
def okLine (name : String) (cs : List Char) : List Char :=
  '\x7b' :: (Json.quote "ok").toList ++ ':' :: "true".toList ++
    ',' :: (Json.quote name).toList ++ ':' :: cs ++ ['\x7d']

theorem denotes_okLine (name : String) {cs : List Char} {value : Json} (h : Json.Denotes cs value) :
    Json.Denotes (okLine name cs)
      (.object [(Text.unitsOf "ok", .bool true), (Text.unitsOf name, value)]) := by
  have htrue : Json.Denotes "true".toList (.bool true) := .word (by simp [Json.words])
  have hok := Json.denotesField_quote "ok" htrue
  have hmore := Json.DenotesFields.last (Json.denotesField_quote name h) Json.isGap_nil
  have hline := Json.Denotes.object Json.isGap_nil
    (.cons hok Json.isGap_nil Json.isGap_nil hmore)
  simpa only [okLine, List.cons_append, List.nil_append, List.append_assoc] using hline

/-- A reply to code that ran, with one more field than that. -/
def Reply.ofField (output name : String) {cs : List Char} {value : Json}
    (houtput : sentinel ∉ output.toList) (hline : '\n' ∉ okLine name cs ∧ '\r' ∉ okLine name cs)
    (hname : (Text.unitsOf "ok" == Text.unitsOf name) = false) (h : Json.Denotes cs value) :
    Reply where
  output := output
  line := okLine name cs
  fields := [(Text.unitsOf "ok", .bool true), (Text.unitsOf name, value)]
  output_plain := houtput
  line_single := hline
  denotes := denotes_okLine name h
  error_string := by simp [Json.field?, List.lookup_cons, hname, Json.truth]

/-- Of such a reply only the value of that field may be too much. -/
theorem Reply.excess?_ofField {output name : String} {cs : List Char} {value : Json}
    (houtput : sentinel ∉ output.toList) (hline : '\n' ∉ okLine name cs ∧ '\r' ∉ okLine name cs)
    (hname : (Text.unitsOf "ok" == Text.unitsOf name) = false) (h : Json.Denotes cs value) :
    (Reply.ofField output name houtput hline hname h).excess? =
      Json.excess? (Nesting.replies - 1) value := by
  have hlevels : Nesting.replies = Nesting.replies - 1 + 1 := rfl
  unfold excess? ofField
  rw [hlevels]
  simp only [Json.excess?, Json.excessOfFields?, Nat.add_sub_cancel]
  cases Json.excess? (Nesting.replies - 1) value <;> rfl

end Session

/-! ### Writing to a child -/

/-- The texts that were written to children. -/
def Journal.writes (journal : Journal) : List String :=
  journal.filterMap fun
    | .request (.write data) => some data
    | _ => none

theorem Journal.writes_append (xs ys : Journal) : writes (xs ++ ys) = writes xs ++ writes ys :=
  List.filterMap_append

namespace Child

/-- Of a child whose turn is an answer the answer is heard, and it goes on. -/
theorem emits_write_answer {child : Child} {heard : String} {interrupt : Bool} {turns : List Turn}
    (h : child.turns = .answer heard interrupt none :: turns) (data : String) :
    Emits (child.write data) fun written entries =>
      written = (true, { child with turns, interrupt, buffer := child.buffer ++ heard.toList }) ∧
        entries = [.request (.write data)] := by
  unfold write
  apply Emits.record_bind rfl
  rw [h]
  exact Emits.pure ⟨rfl, rfl⟩

/-- A child that is about to end prints what it has, whether it ends now or when it is
    waited for. -/
theorem emits_write_ending {pipe : Pipe} {child : Child} {output : String}
    (h : Session.Ending pipe child.turns output) (data : String) :
    Emits (child.write data) fun written entries =>
      written.1 = true ∧ written.2.buffer = child.buffer ++ (pipe.hear output).toList ∧
        written.2.interrupt = false ∧ Journal.writes entries = [data] := by
  unfold write
  apply Emits.record_bind rfl
  cases hturns : child.turns with
  | nil =>
    rw [hturns] at h
    cases h
    apply (emits_finish _ 0).bind
    rintro _ _ ⟨rfl, rfl⟩
    have hempty : pipe.hear "" = "" := Pipe.hear_eq_self (.inr List.not_mem_nil)
    rw [hempty]
    exact Emits.pure ⟨rfl, (List.append_nil _).symm, rfl, rfl⟩
  | cons turn turns =>
    rw [hturns] at h
    cases h with
    | @silent _ exit _ hplain =>
      rw [Turn.prints]
      cases exit with
      | none => exact Emits.pure ⟨rfl, rfl, rfl, rfl⟩
      | some code =>
        apply (emits_finish _ code).bind
        rintro _ _ ⟨rfl, rfl⟩
        exact Emits.pure ⟨rfl, rfl, rfl, rfl⟩

/-- Waiting without a limit lasts until the child has ended. -/
theorem emits_wait (child : Child) : Emits (child.wait none) fun waited entries =>
    waited.2.alive = false ∧ waited.2.buffer = child.buffer ∧ Journal.writes entries = [] := by
  unfold wait
  apply Emits.record_bind rfl
  cases hexit : child.exitCode with
  | some code =>
    refine Emits.pure ⟨?_, rfl, rfl⟩
    rw [alive, hexit]
    rfl
  | none =>
    rw [Option.isSome_none, Bool.and_false]
    apply (emits_finish child 0).bind
    rintro _ _ ⟨rfl, rfl⟩
    exact Emits.pure ⟨rfl, rfl, rfl⟩

end Child

namespace Session

/-! ### One evaluation -/

/-- A session whose child waits for text, with these turns to come and nothing left to
    read. -/
def Waits (session : Session) (turns : List Turn) : Prop :=
  ∃ child, session.child = some child ∧ child.alive = true ∧ child.buffer = [] ∧
    child.turns = turns

/-- A session whose child has ended, with nothing left to read. -/
def Over (session : Session) : Prop :=
  ∃ child, session.child = some child ∧ child.alive = false ∧ child.buffer = []

/-- A session waits for text from its start on, unless the child prints before it is asked. -/
theorem waits_of_start {session : Session} {host : Host} {plan : Plan}
    {plans : List (Except Refusal Plan)} (hplans : host.plans = .ok plan :: plans)
    (hout : plan.out = "") :
    ∃ started, (session.start host).1 = .ok started ∧ started.Waits plan.turns := by
  have hbuffer : plan.out.toList = [] := by
    rw [hout]
    rfl
  refine ⟨{ session with child := some (.ofPlan host.started plan) }, ?_, _, rfl, rfl, hbuffer, rfl⟩
  cases host
  cases hplans
  rfl

/-- From a buffer that holds one answer its reply is received, and the buffer is used up. -/
theorem receive_reply {pipe : Pipe} {child : Child} {reply : Reply}
    (hbuffer : child.buffer =
      (pipe.hear reply.output).toList ++ sentinel :: (reply.line ++ ['\n'])) :
    receive child = pure
      (Result.ofReply (pipe.hear reply.output) (String.ofList (reply.line ++ ['\n'])),
        { child with buffer := [] }) := by
  unfold receive
  rw [hbuffer, takeAnswer_reply (pipe.sentinel_not_mem_hear reply.output_plain)
    reply.line_single.1 [], String.ofList_toList]

/-- From a buffer without a reply all is output, and the child has ended after it. -/
theorem emits_receive_silence {child : Child} {output : String}
    (hbuffer : child.buffer = output.toList) (houtput : sentinel ∉ output.toList)
    (hinterrupt : child.interrupt = false) :
    Emits (receive child) fun received entries =>
      received.1 = .ok { output, closed := true } ∧ received.2.alive = false ∧
        received.2.buffer = [] ∧ Journal.writes entries = [] := by
  unfold receive
  rw [hbuffer, takeAnswer_silence houtput, String.ofList_toList]
  simp only [hinterrupt, Bool.false_eq_true, if_false]
  apply (Child.emits_wait _).bind
  intro waited entries hwaited
  obtain ⟨halive, hrest, hwrites⟩ := hwaited
  apply Emits.record_bind rfl
  refine Emits.pure ⟨rfl, halive, hrest, ?_⟩
  rw [Journal.writes_append, hwrites]
  rfl

/-- One evaluation takes one reply, the first, and leaves the others. -/
theorem emits_execute_reply {pipe : Pipe} {session : Session} {reply : Reply} {turns : List Turn}
    (h : session.Waits (reply.turn pipe :: turns)) (code : String) :
    Emits (session.execute code) fun answer entries =>
      reply.Settles pipe answer.1 ∧ answer.2.Waits turns ∧
        Journal.writes entries = [request code] := by
  obtain ⟨child, hchild, halive, hbuffer, hturns⟩ := h
  have hline : '\r' ∉ reply.line ++ ['\n'] := by
    simp [reply.line_single.2]
  unfold execute
  rw [hchild]
  simp only [halive, Bool.not_true, Bool.false_eq_true, if_false]
  apply (Child.emits_write_answer hturns (request code)).bind
  rintro _ _ ⟨rfl, rfl⟩
  apply Emits.record_bind rfl
  rw [hbuffer, List.nil_append, pipe.toList_hear_append _ hline, receive_reply rfl]
  exact Emits.pure ⟨reply.settles_ofReply pipe, ⟨_, rfl, halive, rfl, rfl⟩, rfl⟩

/-- The end of a child is reported with the output before it, and the session is over. -/
theorem emits_execute_ending {pipe : Pipe} {session : Session} {turns : List Turn}
    {output : String} (h : session.Waits turns) (hending : Ending pipe turns output)
    (code : String) :
    Emits (session.execute code) fun answer entries =>
      answer.1 = .ok { output := pipe.hear output, closed := true } ∧ answer.2.Over ∧
        Journal.writes entries = [request code] := by
  obtain ⟨child, hchild, halive, hbuffer, hturns⟩ := h
  have hplain : sentinel ∉ output.toList := by
    cases hending with
    | silent hplain => exact hplain
    | exhausted => exact List.not_mem_nil
  unfold execute
  rw [hchild]
  simp only [halive, Bool.not_true, Bool.false_eq_true, if_false]
  rw [← hturns] at hending
  apply (Child.emits_write_ending hending (request code)).bind
  intro written entries hwritten
  obtain ⟨hsent, hprinted, hinterrupt, hwrites⟩ := hwritten
  simp only [hsent, Bool.not_true, Bool.false_eq_true, if_false]
  apply Emits.record_bind rfl
  rw [hbuffer, List.nil_append] at hprinted
  apply (emits_receive_silence hprinted (pipe.sentinel_not_mem_hear hplain) hinterrupt).bind
  intro received more hreceived
  obtain ⟨hanswer, hended, hempty, hmore⟩ := hreceived
  refine Emits.pure ⟨hanswer, ⟨received.2, rfl, hended, hempty⟩, ?_⟩
  rw [Journal.writes_append, hwrites, List.append_nil]
  show [request code] ++ Journal.writes more = [request code]
  rw [hmore, List.append_nil]

/-- A session that is not alive takes no text, and stays as it is. -/
theorem execute_of_not_alive {session : Session} (h : session.alive = false) (code : String) :
    session.execute code = pure (.error (.lost .notRunning), session) := by
  unfold alive at h
  unfold execute
  cases hchild : session.child with
  | none => rfl
  | some child =>
    rw [hchild] at h
    have hended : child.alive = false := h
    simp only [hended, Bool.not_false, if_true]

/-- A session that is over evaluates nothing and writes nothing. -/
theorem emits_execute_over {session : Session} (h : session.Over) (code : String) :
    Emits (session.execute code) fun answer entries =>
      answer = (.error (.lost .notRunning), session) ∧ entries = [] := by
  obtain ⟨child, hchild, halive, _⟩ := h
  have hended : session.alive = false := by
    rw [alive, hchild]
    exact halive
  rw [execute_of_not_alive hended]
  exact Emits.pure ⟨rfl, rfl⟩

/-! ### Text after text -/

/-- Evaluate texts of code one after another: what each comes to, and the session after
    the last. -/
def executeAll (session : Session) : List String → Action (List (Except Fault Result) × Session)
  | [] => pure ([], session)
  | code :: codes => do
      let (answer, session) ← session.execute code
      let (answers, session) ← session.executeAll codes
      return (answer :: answers, session)

/-- A run of evaluations takes the replies in the order of the texts. -/
theorem emits_executeAll_replies {pipe : Pipe} {session : Session} {replies : List Reply}
    {turns : List Turn} {codes : List String}
    (h : session.Waits (replies.map (Reply.turn pipe) ++ turns))
    (hlength : codes.length = replies.length) :
    Emits (session.executeAll codes) fun answered entries =>
      List.Forall₂ (Reply.Settles pipe) replies answered.1 ∧ answered.2.Waits turns ∧
        Journal.writes entries = codes.map request := by
  induction replies generalizing session codes with
  | nil =>
    obtain rfl := List.length_eq_zero_iff.mp hlength
    exact Emits.pure ⟨.nil, h, rfl⟩
  | cons reply replies ih =>
    cases codes with
    | nil => cases hlength
    | cons code codes =>
      unfold executeAll
      apply (emits_execute_reply h code).bind
      intro answer entries hanswer
      obtain ⟨hsettles, hwaits, hwrites⟩ := hanswer
      apply (ih hwaits (Nat.succ.inj hlength)).bind
      intro answered more hanswered
      obtain ⟨hall, hrest, hmore⟩ := hanswered
      refine Emits.pure ⟨.cons hsettles hall, hrest, ?_⟩
      rw [List.append_nil, Journal.writes_append, hwrites, hmore]
      rfl

theorem emits_executeAll_over {session : Session} (h : session.Over) (codes : List String) :
    Emits (session.executeAll codes) fun answered entries =>
      answered = (codes.map fun _ => .error (.lost .notRunning), session) ∧ entries = [] := by
  induction codes with
  | nil => exact Emits.pure ⟨rfl, rfl⟩
  | cons code codes ih =>
    unfold executeAll
    apply (emits_execute_over h code).bind
    rintro _ _ ⟨rfl, rfl⟩
    apply ih.bind
    rintro _ _ ⟨rfl, rfl⟩
    exact Emits.pure ⟨rfl, rfl⟩

/-- When the child ends, the first text is told so, and all others find no child. -/
theorem emits_executeAll_ending {pipe : Pipe} {session : Session} {turns : List Turn}
    {output : String} (h : session.Waits turns) (hending : Ending pipe turns output)
    (code : String) (codes : List String) :
    Emits (session.executeAll (code :: codes)) fun answered entries =>
      answered.1 = .ok { output := pipe.hear output, closed := true } ::
          codes.map (fun _ => .error (.lost .notRunning)) ∧
        answered.2.Over ∧ Journal.writes entries = [request code] := by
  unfold executeAll
  apply (emits_execute_ending h hending code).bind
  intro answer entries hanswer
  obtain ⟨hanswer, hover, hwrites⟩ := hanswer
  apply (emits_executeAll_over hover codes).bind
  rintro _ _ ⟨rfl, rfl⟩
  refine Emits.pure ⟨?_, hover, ?_⟩
  · rw [hanswer]
  · rw [List.append_nil, List.append_nil, hwrites]

/-- Replies stay in step with requests.  A session whose child answers text after text
    comes, for each text, to what the reply to that text stands for, in order, with nothing left
    to read and each text written once.  A reply is taken as such unless it has a whole number
    of too many digits or is nested too deeply, and output is given as it was printed but for the
    line ends that a pipe changes.  When the child then ends without a reply, that is
    reported with the output before it, and later texts fail and are not written. -/
theorem executeAll_in_step {pipe : Pipe} {session : Session} {replies : List Reply}
    {turns : List Turn} {codes : List String}
    (h : session.Waits (replies.map (Reply.turn pipe) ++ turns))
    (hlength : codes.length = replies.length) (host : Host) :
    let answered := session.executeAll codes host
    List.Forall₂ (Reply.Settles pipe) replies answered.1.1 ∧
      answered.1.2.Waits turns ∧
      answered.2.journal.writes = host.journal.writes ++ codes.map request ∧
      ∀ output code more, Ending pipe turns output →
        let ended := answered.1.2.executeAll (code :: more) answered.2
        ended.1.1 = .ok { output := pipe.hear output, closed := true } ::
            more.map (fun _ => .error (.lost .notRunning)) ∧
          (pipe = .plain ∨ '\r' ∉ output.toList → pipe.hear output = output) ∧
          ended.1.2.Over ∧
          ended.2.journal.writes = answered.2.journal.writes ++ [request code] := by
  intro answered
  obtain ⟨entries, hentries, _, hsettles, hwaits, hwrites⟩ :=
    emits_executeAll_replies h hlength host
  refine ⟨hsettles, hwaits, ?_, ?_⟩
  · show Journal.writes (session.executeAll codes host).2.journal = _
    rw [hentries, Journal.writes_append, hwrites]
  · intro output code more hending ended
    obtain ⟨entries', hentries', _, hanswers, hover, hwrites'⟩ :=
      emits_executeAll_ending hwaits hending code more answered.2
    refine ⟨hanswers, Pipe.hear_eq_self, hover, ?_⟩
    show Journal.writes (answered.1.2.executeAll (code :: more) answered.2).2.journal = _
    rw [hentries', Journal.writes_append, hwrites']

/-- The first text prints a line and a part of one, the second fails, at the third the
    child ends, and the fourth finds no child. -/
theorem executeAll_in_step_partial_line : ∃ (session : Session) (printed failed : Reply),
    printed.output = "1\n2" ∧ printed.excess? = none ∧ failed.ok = false ∧ failed.excess? = none ∧
      session.Waits ([printed, failed].map (Reply.turn .text) ++
        [.prints .text "bye\r" false (some 1)]) ∧
      let answered := session.executeAll ["f()", "g()"] {}
      List.Forall₂ (Reply.Settles .text) [printed, failed] answered.1.1 ∧
        (answered.1.2.executeAll ["h()", "k()"] answered.2).1.1 =
          [.ok { output := "bye\n", closed := true }, .error (.lost .notRunning)] := by
  let printed : Reply := .ofField "1\n2" "value" (by decide) (by decide +kernel) (by decide)
    (Json.denotes_quote "3")
  let failed : Reply := {
    output := ""
    line := "\x7b\x7d".toList
    fields := []
    output_plain := by decide
    line_single := by decide
    denotes := .emptyObject Json.isGap_nil
    error_string := nofun }
  let plan : Plan := {
    turns := [printed, failed].map (Reply.turn .text) ++ [.prints .text "bye\r" false (some 1)]
    stuck := false
    out := "" }
  let host : Host := { plans := [.ok plan] }
  have hstart : ∃ started, (start { binary := "node" } host).1 = .ok started ∧
      started.Waits plan.turns := waits_of_start rfl rfl
  obtain ⟨session, _, hwaits⟩ := hstart
  have hlength : ["f()", "g()"].length = [printed, failed].length := rfl
  obtain ⟨hsettles, _, _, hended⟩ := executeAll_in_step hwaits hlength {}
  obtain ⟨hanswers, _⟩ := hended "bye\r" "h()" ["k()"] (.silent (by decide))
  exact ⟨session, printed, failed, rfl, rfl, rfl, rfl, hwaits, hsettles, hanswers⟩

/-- Some session has a child with given turns to come. -/
theorem exists_waits (turns : List Turn) : ∃ session : Session, session.Waits turns :=
  ⟨{ binary := "node", child := some (.ofPlan 0 { turns, stuck := false, out := "" }) },
    _, rfl, rfl, rfl, rfl⟩

/-- A reply with a field that is too much for the reader is not taken, though it says that the
    code ran. -/
theorem exists_execute_excess {cs : List Char} {value : Json} {obstacle : Json.Obstacle}
    (h : Json.Denotes cs value) (hline : '\n' ∉ cs ∧ '\r' ∉ cs)
    (hexcess : Json.excess? (Nesting.replies - 1) value = some obstacle) :
    ∃ (session : Session) (reply : Reply), reply.output = "" ∧ reply.ok = true ∧
      reply.line = okLine "n" cs ∧ session.Waits [reply.turn .plain] ∧
      (session.execute "f()" {}).1.1 = .error (.unreadReply obstacle) := by
  have hsingle : '\n' ∉ okLine "n" cs ∧ '\r' ∉ okLine "n" cs := by
    simp [okLine, Json.quote, Json.escape, hline.1, hline.2]
  have hplain : sentinel ∉ "".toList := List.not_mem_nil
  have hname : (Text.unitsOf "ok" == Text.unitsOf "n") = false := by decide
  have hreply := Reply.excess?_ofField hplain hsingle hname h
  rw [hexcess] at hreply
  obtain ⟨session, hsession⟩ :=
    exists_waits [(Reply.ofField "" "n" hplain hsingle hname h).turn .plain]
  obtain ⟨_, _, _, hsettles, _⟩ := emits_execute_reply hsession "f()" {}
  rw [Reply.Settles, hreply] at hsettles
  exact ⟨session, _, rfl, rfl, rfl, hsession, hsettles⟩

theorem exists_execute_digits {count : Nat} (h : Json.digitLimit < count) :
    ∃ (session : Session) (reply : Reply), reply.output = "" ∧ reply.ok = true ∧
      reply.line = okLine "n" (List.replicate count '1') ∧ session.Waits [reply.turn .plain] ∧
      (session.execute "f()" {}).1.1 = .error (.unreadReply .tooManyDigits) := by
  obtain ⟨rest, rfl⟩ := Nat.exists_eq_add_one.mpr (Nat.zero_lt_of_lt h)
  have hdigits : Json.AreDigits (List.replicate (rest + 1) '1') :=
    ⟨List.cons_ne_nil _ _, fun c hc => (List.eq_of_mem_replicate hc) ▸ rfl⟩
  have hwhole : Json.IsWhole (List.replicate (rest + 1) '1') := .digits (by decide) hdigits
  exact exists_execute_excess (.number (.whole hwhole)) (by simp)
    (Json.excess?_integer hwhole (by rwa [List.length_replicate]) _)

theorem exists_execute_nested {count : Nat} (h : Nesting.replies ≤ count) :
    ∃ (session : Session) (reply : Reply), reply.output = "" ∧ reply.ok = true ∧
      reply.line = okLine "n" (List.replicate count '[' ++ List.replicate count ']') ∧
      session.Waits [reply.turn .plain] ∧
      (session.execute "f()" {}).1.1 = .error (.unreadReply .tooDeep) := by
  have hpositive : 0 < Nesting.replies := by decide
  obtain ⟨rest, rfl⟩ := Nat.exists_eq_add_one.mpr (Nat.lt_of_lt_of_le hpositive h)
  exact exists_execute_excess (Json.denotes_nested rest) (by simp)
    (Json.excess?_nested (Nat.sub_le_of_le_add h))

/-- Five thousand digits are too many, a hundred thousand arrays are too deep, and through a pipe
    of text the `\r` of a progress line comes as `\n`. -/
theorem execute_excess_and_line_ends :
    (∃ (session : Session) (reply : Reply), reply.output = "" ∧ reply.ok = true ∧
      reply.line = okLine "n" (List.replicate 5000 '1') ∧ session.Waits [reply.turn .plain] ∧
      (session.execute "f()" {}).1.1 = .error (.unreadReply .tooManyDigits)) ∧
    (∃ (session : Session) (reply : Reply), reply.output = "" ∧ reply.ok = true ∧
      reply.line = okLine "n" (List.replicate 100000 '[' ++ List.replicate 100000 ']') ∧
      session.Waits [reply.turn .plain] ∧
      (session.execute "f()" {}).1.1 = .error (.unreadReply .tooDeep)) ∧
    ∃ (session : Session) (reply : Reply) (result : Result), reply.output = "50%\r" ∧
      reply.excess? = none ∧ session.Waits [reply.turn .text] ∧
      (session.execute "f()" {}).1.1 = .ok result ∧ result.output = "50%\n" := by
  refine ⟨exists_execute_digits (by decide), exists_execute_nested (by decide), ?_⟩
  let reply : Reply := .ofField "50%\r" "value" (by decide) (by decide +kernel) (by decide)
    (Json.denotes_quote "3")
  obtain ⟨session, hsession⟩ := exists_waits [reply.turn .text]
  obtain ⟨_, _, _, ⟨result, hresult, hreports⟩, _⟩ := emits_execute_reply hsession "f()" {}
  have hheard : Pipe.text.hear "50%\r" = "50%\n" := by decide +kernel
  exact ⟨session, reply, result, rfl, rfl, hsession, hresult, hreports.output.trans hheard⟩

end Session

end SexpScript
