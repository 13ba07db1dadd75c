import SexpScript.Proofs.Transcript

/-! # Replies that cannot be used

    The reply of a child shares its stream with what the code prints.  Whatever stands behind the
    first NUL, up to the end of its line, is taken for the reply, and where that is no JSON
    object, or too much of one, the evaluation ends in a fault that nobody expects.

    - The first NUL divides what is heard, wherever the lines end (`takeAnswer_first`).  `Hears`
      is what comes of what is heard, and `Garbled` says what is wrong behind the NUL.
    - An evaluation gives a result, a lost session or an interrupt, unless it comes upon such a
      text (`garbles_iff`).
    - Two more things end a shell by a fault (`EndsShell`): a verdict that is no text, and an
      interrupt behind which the program is there and cannot be started.
    - Whether it can be started is known from the next plan, and all that is done before a start
      leaves the plans as they are (`Given`).  So a line ends the shell by a fault exactly if it
      meets one of the three, and a run exactly if it is refused at its start or comes to such a
      line (`State.finish_fault_iff`).
-/

namespace SexpScript

namespace Text

/-! ### First lines -/

/-- The first line of a text, with its end if it has one. -/
def firstLine (cs : List Char) : String := String.ofList ((linesFrom [] cs).headD [])

/-- A line that has begun goes on to the end of the first line of the rest. -/
theorem linesFrom_begun {current : List Char} (h : current ≠ []) (cs : List Char) :
    linesFrom current cs =
      (current.reverse ++ (linesFrom [] cs).headD []) :: (linesFrom [] cs).tail := by
  induction cs generalizing current with
  | nil =>
    cases current with
    | nil => exact absurd rfl h
    | cons c current => simp [linesFrom]
  | cons c cs ih =>
    by_cases hbreak : c = '\n'
    · simp [linesFrom, hbreak]
    · rw [linesFrom, if_neg hbreak, linesFrom, if_neg hbreak, ih (List.cons_ne_nil c current),
        ih (List.cons_ne_nil c [])]
      simp

end Text

namespace Session

/-! ### The first NUL -/

/-- The first NUL divides what is printed: the output is before it, and the reply is the rest of
    its line. -/
theorem takeAnswer_first {output : List Char} (h : sentinel ∉ output) (rest : List Char) :
    takeAnswer (output ++ sentinel :: rest) =
      (.reply (String.ofList output) (Text.firstLine rest),
        (Text.linesFrom [] rest).tail.flatten) := by
  obtain ⟨read, current, hplain, hread, htake⟩ :=
    takeAnswerFrom_output List.not_mem_nil h [] (sentinel :: rest)
  have hread' : read.reverse.flatten ++ current.reverse = output := by simpa using hread
  have hbreak : sentinel ≠ '\n' := by decide
  unfold takeAnswer
  rw [htake, Text.linesFrom, if_neg hbreak, Text.linesFrom_begun (List.cons_ne_nil _ _),
    List.reverse_cons, List.append_assoc, List.singleton_append,
    takeAnswerFrom_sentinel (mt List.mem_reverse.mp hplain), hread']
  rfl

/-- What is heard has a NUL, and what stands behind the first on its line is not read, or is no JSON
    object. -/
inductive Garbled : List Char → Fault → Prop
  | unread {output rest : List Char} {obstacle : Json.Obstacle} (h : sentinel ∉ output)
      (hreply : Json.read (Text.firstLine rest) = .error obstacle) :
      Garbled (output ++ sentinel :: rest) (.unreadReply obstacle)
  | shapeless {output rest : List Char} {value : Json} (h : sentinel ∉ output)
      (hreply : Json.read (Text.firstLine rest) = .ok value)
      (hvalue : ∀ fields, value ≠ .object fields) :
      Garbled (output ++ sentinel :: rest) .shapelessReply

theorem ofReply_eq_error_iff {output reply : String} {fault : Fault} :
    Result.ofReply output reply = .error fault ↔
      (∃ obstacle, Json.read reply = .error obstacle ∧ fault = .unreadReply obstacle) ∨
        ∃ value, Json.read reply = .ok value ∧ (∀ fields, value ≠ .object fields) ∧
          fault = .shapelessReply := by
  unfold Result.ofReply
  cases Json.read reply with
  | error obstacle => simp [eq_comm]
  | ok value =>
    cases value with
    | object fields => simp
    | _ => simp [eq_comm]

/-- What an evaluation comes to, by what is heard and by whether the user interrupts then. -/
inductive Hears : List Char → Bool → Except Fault Result → Prop
  | reply {output rest : List Char} {interrupt : Bool} (h : sentinel ∉ output) :
      Hears (output ++ sentinel :: rest) interrupt
        (Result.ofReply (String.ofList output) (Text.firstLine rest))
  | interrupt {heard : List Char} (h : sentinel ∉ heard) : Hears heard true (.error .interrupted)
  | silence {heard : List Char} (h : sentinel ∉ heard) :
      Hears heard false (.ok { output := String.ofList heard, closed := true })

theorem emits_receive_hears (child : Child) :
    Emits (receive child) fun received _ => Hears child.buffer child.interrupt received.1 := by
  unfold receive
  by_cases hmem : sentinel ∈ child.buffer
  · obtain ⟨output, rest, hbuffer, houtput⟩ := List.eq_append_cons_of_mem hmem
    rw [hbuffer, takeAnswer_first houtput]
    exact Emits.pure (.reply houtput)
  · rw [takeAnswer_silence hmem]
    show Emits (if child.interrupt = true then _ else _) _
    cases child.interrupt with
    | true => exact Emits.pure (.interrupt hmem)
    | false =>
      apply (Child.emits_wait _).bind
      intro waited _ _
      apply Emits.record_bind rfl
      exact Emits.pure (.silence hmem)

theorem Hears.takes {heard : List Char} {interrupt : Bool} {answer : Except Fault Result}
    (h : Hears heard interrupt answer) :
    (∃ output reply, (takeAnswer heard).1 = .reply output reply ∧
        answer = Result.ofReply output reply) ∨
      ∃ output, (takeAnswer heard).1 = .silence output ∧
        answer = if interrupt then .error .interrupted else .ok { output, closed := true } := by
  cases h with
  | reply houtput => exact .inl ⟨_, _, by rw [takeAnswer_first houtput], rfl⟩
  | interrupt hplain => exact .inr ⟨_, by rw [takeAnswer_silence hplain], rfl⟩
  | silence hplain => exact .inr ⟨_, by rw [takeAnswer_silence hplain], rfl⟩

/-- What is heard has one first NUL, so there is one thing that it comes to. -/
theorem Hears.unique {heard : List Char} {interrupt : Bool} {answer answer' : Except Fault Result}
    (h : Hears heard interrupt answer) (h' : Hears heard interrupt answer') : answer = answer' := by
  -- Both are what comes of the one answer that is taken.
  rcases h.takes with ⟨_, _, htake, rfl⟩ | ⟨_, htake, rfl⟩ <;>
    rcases h'.takes with ⟨_, _, htake', rfl⟩ | ⟨_, htake', rfl⟩ <;>
      cases htake.symm.trans htake' <;> rfl

end Session

/-! ### One evaluation -/

/-- Whether a fault is one that an evaluation is known to end in: the session is gone, or the
    user interrupted. -/
def Fault.isForeseen : Fault → Bool
  | .lost _ => true
  | .interrupted => true
  | _ => false

/-- What is heard of a child after a text was sent to it, and whether the user interrupts then,
    unless it is gone. -/
def Child.heard? (child : Child) : Option (List Char × Bool) :=
  match child.turns with
  | [] => some (child.buffer, false)
  | .brokenPipe :: _ => none
  | .answer heard interrupt _ :: _ => some (child.buffer ++ heard.toList, interrupt)

theorem Child.emits_write_heard (child : Child) (data : String) :
    Emits (child.write data) fun written _ =>
      child.heard? = if written.1 then some (written.2.buffer, written.2.interrupt) else none := by
  unfold write heard?
  apply Emits.record_bind rfl
  cases child.turns with
  | nil =>
    apply (emits_finish _ 0).bind
    rintro _ _ ⟨rfl, rfl⟩
    exact Emits.pure rfl
  | cons turn turns =>
    cases turn with
    | brokenPipe => exact Emits.pure rfl
    | answer heard interrupt exit =>
      cases exit with
      | none => exact Emits.pure rfl
      | some code =>
        apply (emits_finish _ code).bind
        rintro _ _ ⟨rfl, rfl⟩
        exact Emits.pure rfl

namespace Session

/-- What the evaluation of a text comes to: the session is not alive, its child is gone, or
    something is heard of it. -/
inductive Comes (session : Session) : Except Fault Result → Prop
  | notRunning (h : session.alive = false) : Comes session (.error (.lost .notRunning))
  | exited {child : Child} (hchild : session.child = some child) (halive : child.alive = true)
      (h : child.heard? = none) : Comes session (.error (.lost .exited))
  | heard {child : Child} {heard : List Char} {interrupt : Bool} {answer : Except Fault Result}
      (hchild : session.child = some child) (halive : child.alive = true)
      (hheard : child.heard? = some (heard, interrupt)) (h : Hears heard interrupt answer) :
      Comes session answer

theorem emits_execute_comes (session : Session) (code : String) :
    Emits (session.execute code) fun answer _ => session.Comes answer.1 := by
  cases halive : session.alive with
  | false =>
    rw [execute_of_not_alive halive]
    exact Emits.pure (.notRunning halive)
  | true =>
    unfold Session.alive at halive
    cases hchild : session.child with
    | none =>
      rw [hchild] at halive
      cases halive
    | some child =>
      rw [hchild] at halive
      change child.alive = true at halive
      unfold execute
      rw [hchild]
      simp only [halive, Bool.not_true, Bool.false_eq_true, if_false]
      apply (child.emits_write_heard (request code)).bind
      rintro ⟨sent, written⟩ _ hheard
      cases sent with
      | false => exact Emits.pure (.exited hchild halive hheard)
      | true =>
        apply Emits.record_bind rfl
        apply (emits_receive_hears written).bind
        rintro ⟨result, received⟩ _ hresult
        exact Emits.pure (.heard hchild halive hheard hresult)

theorem Comes.unique {session : Session} {answer answer' : Except Fault Result}
    (h : session.Comes answer) (h' : session.Comes answer') : answer = answer' := by
  -- A session that has a live child is alive, and there is one thing that is heard of the child.
  have hlive : ∀ {child : Child}, session.child = some child → child.alive = true →
      session.alive ≠ false := by
    intro child hchild halive hdead
    rw [alive, hchild] at hdead
    exact Bool.noConfusion (halive.symm.trans hdead)
  cases h with
  | notRunning hdead =>
    cases h' with
    | notRunning => rfl
    | exited hchild halive => exact absurd hdead (hlive hchild halive)
    | heard hchild halive => exact absurd hdead (hlive hchild halive)
  | exited hchild halive hheard =>
    cases h' with
    | notRunning hdead => exact absurd hdead (hlive hchild halive)
    | exited => rfl
    | heard hchild' _ hheard' =>
      cases hchild.symm.trans hchild'
      cases hheard.symm.trans hheard'
  | heard hchild halive hheard h =>
    cases h' with
    | notRunning hdead => exact absurd hdead (hlive hchild halive)
    | exited hchild' _ hheard' =>
      cases hchild.symm.trans hchild'
      cases hheard.symm.trans hheard'
    | heard hchild' _ hheard' h' =>
      cases hchild.symm.trans hchild'
      cases hheard.symm.trans hheard'
      exact h.unique h'

/-- A text that is sent now comes upon a garbled answer: the child is alive, takes the text, and
    what is heard of it then is garbled. -/
def Garbles (session : Session) (fault : Fault) : Prop :=
  ∃ child heard interrupt, session.child = some child ∧ child.alive = true ∧
    child.heard? = some (heard, interrupt) ∧ Garbled heard fault

/-- An evaluation ends in a fault that is not foreseen exactly if it comes upon a garbled
    answer. -/
theorem garbles_iff {session : Session} {fault : Fault} :
    session.Garbles fault ↔ session.Comes (.error fault) ∧ fault.isForeseen = false := by
  constructor
  · rintro ⟨child, heard, interrupt, hchild, halive, hheard, hgarbled⟩
    cases hgarbled with
    | unread houtput hreply =>
      have hcomes := Comes.heard hchild halive hheard (.reply houtput)
      rw [ofReply_eq_error_iff.mpr (.inl ⟨_, hreply, rfl⟩)] at hcomes
      exact ⟨hcomes, rfl⟩
    | shapeless houtput hreply hvalue =>
      have hcomes := Comes.heard hchild halive hheard (.reply houtput)
      rw [ofReply_eq_error_iff.mpr (.inr ⟨_, hreply, hvalue, rfl⟩)] at hcomes
      exact ⟨hcomes, rfl⟩
  · rintro ⟨hcomes, hforeseen⟩
    generalize hanswer : (.error fault : Except Fault Result) = answer at hcomes
    cases hcomes with
    | notRunning =>
      cases hanswer
      cases hforeseen
    | exited =>
      cases hanswer
      cases hforeseen
    | heard hchild halive hheard h =>
      refine ⟨_, _, _, hchild, halive, hheard, ?_⟩
      cases h with
      | reply houtput =>
        rcases ofReply_eq_error_iff.mp hanswer.symm with
          ⟨obstacle, hread, rfl⟩ | ⟨value, hread, hvalue, rfl⟩
        · exact .unread houtput hread
        · exact .shapeless houtput hread hvalue
      | interrupt =>
        cases hanswer
        cases hforeseen
      | silence => cases hanswer

/-- Of a child that prints a text the text is heard through its pipe. -/
theorem garbles_prints_iff {session : Session} {child : Child} {pipe : Pipe} {printed : String}
    {interrupt : Bool} {exit : Option Int} {turns : List Turn} {fault : Fault}
    (hchild : session.child = some child) (halive : child.alive = true)
    (hturns : child.turns = .prints pipe printed interrupt exit :: turns) :
    session.Garbles fault ↔ Garbled (child.buffer ++ (pipe.hear printed).toList) fault := by
  have hheard : child.heard? = some (child.buffer ++ (pipe.hear printed).toList, interrupt) := by
    unfold Child.heard?
    rw [hturns]
    rfl
  constructor
  · rintro ⟨_, _, _, hchild', _, hheard', hgarbled⟩
    cases hchild.symm.trans hchild'
    cases hheard.symm.trans hheard'
    exact hgarbled
  · intro hgarbled
    exact ⟨child, _, _, hchild, halive, hheard, hgarbled⟩

end Session

/-! ### The next plan -/

theorem Accounts.nextPlan_eq {before after : Host} {entries : Journal}
    (h : Accounts before entries after) (hentries : ∀ entry ∈ entries, entry.isSpawn = false) :
    after.nextPlan = before.nextPlan := by
  have hnone : entries.countP Entry.isSpawn = 0 := by
    rw [List.countP_eq_zero]
    intro entry hentry
    rw [hentries entry hentry]
    exact Bool.false_ne_true
  unfold Host.nextPlan
  rw [h.plans, hnone, List.drop_zero]

theorem spares_of_idle {entries : Journal} (h : ∀ entry ∈ entries, entry.isIdle = true) :
    ∀ entry ∈ entries, entry.isSpawn = false :=
  fun entry hentry => (Entry.isIdle_iff.mp (h entry hentry)).1

/-- On every host with the next plan given, the result of the action is such that `post`. -/
def Given {α : Type} (plan : Except Refusal Plan) (action : Action α) (post : α → Prop) : Prop :=
  ∀ host : Host, host.nextPlan = plan → post (action host).1

namespace Given

variable {α β : Type} {plan : Except Refusal Plan} {post : α → Prop}

protected theorem pure {a : α} (h : post a) : Given plan (pure a) post :=
  fun _ _ => h

/-- What starts nothing leaves the next plan as it is. -/
protected theorem bind {action : Action β} {next : β → Action α} {mid : β → Prop}
    (h : Emits action fun b entries => mid b ∧ ∀ entry ∈ entries, entry.isSpawn = false)
    (hnext : ∀ b, mid b → Given plan (next b) post) : Given plan (action >>= next) post := by
  intro host hplan
  obtain ⟨entries, _, haccounts, hmid, hentries⟩ := h host
  exact hnext _ hmid _ ((haccounts.nextPlan_eq hentries).trans hplan)

theorem idle_bind {action : Action β} {next : β → Action α} (h : Only Entry.isIdle action)
    (hnext : ∀ b, Given plan (next b) post) : Given plan (action >>= next) post := by
  have hspares : Emits action fun _ entries =>
      True ∧ ∀ entry ∈ entries, entry.isSpawn = false :=
    Emits.mono h fun _ _ hidle => ⟨trivial, spares_of_idle hidle⟩
  exact Given.bind hspares fun b _ => hnext b

theorem idle_ite_bind {c : Prop} [Decidable c] {action : Action Unit} {next : Unit → Action α}
    (h : Only Entry.isIdle action) (hnext : Given plan (next ()) post) :
    Given plan (if c then action >>= next else next ()) post := by
  by_cases hc : c
  · rw [if_pos hc]
    exact idle_bind h fun _ => hnext
  · rw [if_neg hc]
    exact hnext

end Given

/-- An evaluation starts no program. -/
theorem Session.emits_execute_spares (session : Session) (code : String) :
    Emits (session.execute code) fun _ entries => ∀ entry ∈ entries, entry.isSpawn = false := by
  cases halive : session.alive with
  | true =>
    apply Emits.mono (posts_execute halive code)
    rintro _ _ ⟨rest, rfl, hrest⟩
    exact List.forall_mem_cons.mpr ⟨rfl, spares_of_idle hrest⟩
  | false =>
    apply (emits_execute_not_alive halive code).mono
    rintro _ _ rfl
    exact List.forall_mem_nil _

namespace Shell

/-! ### The shell -/

/-- The verdict of an outcome is no text: it has a surrogate without its partner. -/
def Unshowable (result : Session.Result) : Prop :=
  ∃ units paint, verdict? result = some (.string units, paint) ∧
    (Text.points units).any Text.isSurrogate = true

theorem display?_eq_none_iff {value : Json} :
    value.display? = none ↔
      ∃ units, value = .string units ∧ (Text.points units).any Text.isSurrogate = true := by
  cases value with
  | string units => simp [Json.display?, Text.ofUnits?]
  | _ => simp [Json.display?]

theorem emits_showVerdict_fault (result : Session.Result) :
    Emits (showVerdict (verdict? result)) fun presented _ => ∀ fault,
      presented = .error fault ↔ Unshowable result ∧ fault = .unencodable := by
  unfold Unshowable
  cases verdict? result with
  | none => exact Emits.pure (by simp)
  | some verdict =>
    obtain ⟨value, paint⟩ := verdict
    have hvalue := @display?_eq_none_iff value
    rw [showVerdict]
    cases hshown : value.display? with
    | none =>
      obtain ⟨units, rfl, hunits⟩ := hvalue.mp hshown
      apply Emits.pure
      intro fault
      constructor
      · rintro ⟨⟩
        exact ⟨⟨units, paint, rfl, hunits⟩, rfl⟩
      · rintro ⟨_, rfl⟩
        rfl
    | some text =>
      apply Emits.record_bind rfl
      apply Emits.pure
      intro fault
      refine iff_of_false (by simp) ?_
      rintro ⟨⟨units, _, hverdict, hunits⟩, _⟩
      cases hverdict
      cases hshown.symm.trans (hvalue.mpr ⟨units, rfl, hunits⟩)

theorem emits_present_fault (result : Session.Result) :
    Emits (present result) fun presented _ => ∀ fault,
      presented = .error fault ↔ Unshowable result ∧ fault = .unencodable := by
  unfold present
  exact Emits.record_ite_bind rfl (emits_showVerdict_fault result)

/-- An evaluation in a session ends the shell by a fault: its answer is garbled, its verdict is no
    text, or it is interrupted and the program, which is there, cannot be started again. -/
inductive EndsShell (settings : Settings) (plan : Except Refusal Plan) (session : Session) :
    Fault → Prop
  | garbled {fault : Fault} (h : session.Garbles fault) : EndsShell settings plan session fault
  | unshowable {result : Session.Result} (h : session.Comes (.ok result))
      (hresult : Unshowable result) : EndsShell settings plan session .unencodable
  | refused {fault : Fault} (h : session.Comes (.error .interrupted))
      (hrefuses : Refuses settings plan fault) : EndsShell settings plan session fault

section outcomes
variable {settings : Settings} {plan : Except Refusal Plan} {session : Session} {fault : Fault}

theorem endsShell_of_ok {result : Session.Result} (h : session.Comes (.ok result)) :
    EndsShell settings plan session fault ↔ Unshowable result ∧ fault = .unencodable := by
  constructor
  · intro hends
    cases hends with
    | garbled hgarbles => cases h.unique (Session.garbles_iff.mp hgarbles).1
    | unshowable hcomes hresult =>
      cases h.unique hcomes
      exact ⟨hresult, rfl⟩
    | refused hcomes => cases h.unique hcomes
  · rintro ⟨hresult, rfl⟩
    exact .unshowable h hresult

theorem endsShell_of_interrupted (h : session.Comes (.error .interrupted)) :
    EndsShell settings plan session fault ↔ Refuses settings plan fault := by
  constructor
  · intro hends
    cases hends with
    | garbled hgarbles =>
      obtain ⟨hcomes, hforeseen⟩ := Session.garbles_iff.mp hgarbles
      cases h.unique hcomes
      cases hforeseen
    | unshowable hcomes => cases h.unique hcomes
    | refused _ hrefuses => exact hrefuses
  · exact .refused h

/-- Any other fault ends the shell if it is not foreseen. -/
theorem endsShell_of_error {answer : Fault} (h : session.Comes (.error answer))
    (hanswer : answer ≠ .interrupted) :
    EndsShell settings plan session fault ↔ answer.isForeseen = false ∧ answer = fault := by
  constructor
  · intro hends
    cases hends with
    | garbled hgarbles =>
      obtain ⟨hcomes, hforeseen⟩ := Session.garbles_iff.mp hgarbles
      cases h.unique hcomes
      exact ⟨hforeseen, rfl⟩
    | unshowable hcomes => cases h.unique hcomes
    | refused hcomes =>
      cases h.unique hcomes
      exact absurd rfl hanswer
  · rintro ⟨hforeseen, rfl⟩
    exact .garbled (Session.garbles_iff.mpr ⟨h, hforeseen⟩)

end outcomes

/-- The fault by which the shell ends after a line. -/
def Next.EndsIn (next : Next) (fault : Fault) : Prop :=
  ∃ session, next = .stop session (.error fault)

theorem not_endsIn_again (session : Option Session) (fault : Fault) :
    ¬ (Next.again session).EndsIn fault := by
  rintro ⟨_, h⟩
  cases h

theorem not_endsIn_ok (session : Option Session) (code : Int) (fault : Fault) :
    ¬ (Next.stop session (.ok code)).EndsIn fault := by
  rintro ⟨_, h⟩
  cases h

theorem endsIn_error_iff {session : Option Session} {fault fault' : Fault} :
    (Next.stop session (.error fault)).EndsIn fault' ↔ fault = fault' := by
  constructor
  · rintro ⟨_, ⟨⟩⟩
    rfl
  · rintro rfl
    exact ⟨session, rfl⟩

/-- A restart ends the shell if the program is refused. -/
theorem given_restart (settings : Settings) (plan : Except Refusal Plan) (session : Session) :
    Given plan (restart settings session) fun next => ∀ fault,
      next.EndsIn fault ↔ Refuses settings plan fault := by
  unfold restart
  refine Given.idle_bind (Only.record rfl rfl) ?_
  intro _
  refine Given.idle_bind (only_endSession (some session)) ?_
  -- Nothing was started so far, so the start meets the plan that is given.
  rintro _ host rfl fault
  rw [← startSession_eq_error_iff]
  cases hstart : startSession settings host with
  | mk started host' =>
    rw [Action.bind_of_eq hstart]
    cases started with
    | ok session => exact iff_of_false (not_endsIn_again session fault) nofun
    | error refused => exact endsIn_error_iff.trans (by simp)

theorem given_evaluate (settings : Settings) (plan : Except Refusal Plan) (session : Session)
    (text : String) :
    Given plan (evaluate settings session text) fun next => ∀ fault,
      next.EndsIn fault ↔ EndsShell settings plan session fault := by
  unfold evaluate
  refine Given.bind ((session.emits_execute_comes text).and (session.emits_execute_spares text)) ?_
  rintro ⟨answer, after⟩ hcomes
  cases answer with
  | ok result =>
    simp only [endsShell_of_ok hcomes]
    have hpresented : Emits (present result) fun presented entries =>
        (∀ fault, presented = .error fault ↔ Unshowable result ∧ fault = .unencodable) ∧
          ∀ entry ∈ entries, entry.isSpawn = false := by
      apply ((emits_present_fault result).and (only_present result)).mono
      rintro _ _ ⟨hfault, hidle⟩
      exact ⟨hfault, spares_of_idle hidle⟩
    refine Given.bind hpresented ?_
    intro presented hfault
    simp only [← hfault]
    cases presented with
    | error fault => exact Given.pure fun fault' => endsIn_error_iff.trans (by simp)
    | ok _ =>
      refine Given.pure ?_
      intro fault
      refine iff_of_false ?_ nofun
      -- A session that has ended gives an exit code, and any other goes on.
      by_cases hclosed : result.closed = true
      · rw [if_pos hclosed]
        exact not_endsIn_ok _ 0 fault
      · rw [if_neg hclosed]
        exact not_endsIn_again _ fault
  | error fault =>
    cases fault with
    | interrupted =>
      simp only [endsShell_of_interrupted hcomes]
      exact given_restart settings plan after
    | lost loss =>
      simp only [endsShell_of_error hcomes nofun]
      refine Given.idle_bind (Only.record rfl rfl) ?_
      intro _
      refine Given.pure ?_
      intro fault
      exact iff_of_false (not_endsIn_ok _ 1 fault) fun h => nomatch h.1
    | _ =>
      simp only [endsShell_of_error hcomes nofun]
      exact Given.pure fun fault => endsIn_error_iff.trans (and_iff_right rfl).symm

/-- A line ends the shell by a fault: it has a text, and there is a session in which the evaluation
    of the text does so. -/
def Breaks (settings : Settings) (plan : Except Refusal Plan) (session : Option Session)
    (line : String) (fault : Fault) : Prop :=
  ∃ text target, (compiler settings).line line = .ok text ∧ text ≠ "" ∧ session = some target ∧
    EndsShell settings plan target fault

theorem given_respond (settings : Settings) (plan : Except Refusal Plan)
    (session : Option Session) (line : String) :
    Given plan (respond settings session line) fun next => ∀ fault,
      next.EndsIn fault ↔ Breaks settings plan session line fault := by
  unfold respond
  refine Given.idle_bind (.forM (fun _ => .record rfl rfl) _) ?_
  intro _
  cases hline : (compiler settings).line line with
  | error error =>
    refine Given.idle_bind (Only.record rfl rfl) ?_
    intro _
    refine Given.pure ?_
    intro fault
    refine iff_of_false (not_endsIn_again _ fault) ?_
    rintro ⟨text, _, htext, _⟩
    cases hline.symm.trans htext
  | ok text =>
    have hbreaks : ∀ fault, Breaks settings plan session line fault ↔
        text ≠ "" ∧ ∃ target, session = some target ∧ EndsShell settings plan target fault := by
      intro fault
      constructor
      · rintro ⟨_, target, hline', htext, hsession, hends⟩
        cases hline.symm.trans hline'
        exact ⟨htext, target, hsession, hends⟩
      · rintro ⟨htext, target, hsession, hends⟩
        exact ⟨text, target, hline, htext, hsession, hends⟩
    simp only [hbreaks]
    refine Given.idle_ite_bind (Only.record rfl rfl) ?_
    cases session with
    | none =>
      refine Given.pure ?_
      intro fault
      refine iff_of_false ?_ ?_
      · by_cases hexit : text = Operation.exitText
        · rw [if_pos hexit]
          exact not_endsIn_ok none 0 fault
        · rw [if_neg hexit]
          exact not_endsIn_again none fault
      · rintro ⟨_, _, ⟨⟩, _⟩
    | some target =>
      show Given plan (if text = "" then _ else _) _
      by_cases hempty : text = ""
      · rw [if_pos hempty]
        refine Given.pure ?_
        intro fault
        exact iff_of_false (not_endsIn_again _ fault) fun h => h.1 hempty
      · rw [if_neg hempty]
        intro host hplan fault
        rw [given_evaluate settings plan target text host hplan fault]
        constructor
        · intro hends
          exact ⟨hempty, target, rfl, hends⟩
        · rintro ⟨_, _, ⟨⟩, hends⟩
          exact hends

/-- So it is with the prompt before it. -/
theorem answer_fault_iff {settings : Settings} {session : Option Session} {line : String}
    {host host' : Host} {next : Next} (h : answer settings session line host = (next, host'))
    (fault : Fault) : next.EndsIn fault ↔ Breaks settings host.nextPlan session line fault := by
  have hanswer : Given host.nextPlan (answer settings session line) fun next => ∀ fault,
      next.EndsIn fault ↔ Breaks settings host.nextPlan session line fault :=
    Given.idle_bind (Only.record rfl rfl) fun _ =>
      given_respond settings host.nextPlan session line
  have hnext := hanswer host rfl fault
  rw [h] at hnext
  exact hnext

/-- Some line that the shell comes to ends it by a fault. -/
def State.ComesToBreak (settings : Settings) (state : State) (fault : Fault) : Prop :=
  ∃ n reached line rest, state.after? settings n = some reached ∧ reached.lines = line :: rest ∧
    Breaks settings reached.host.nextPlan reached.session line fault

theorem State.comesToBreak_of_next? {settings : Settings} {state next : State} {fault : Fault}
    {line : String} {rest : List String} (hnext : state.next? settings = some next)
    (hlines : state.lines = line :: rest)
    (hline : ¬ Breaks settings state.host.nextPlan state.session line fault) :
    state.ComesToBreak settings fault ↔ next.ComesToBreak settings fault := by
  constructor
  · rintro ⟨n, reached, line', rest', hreached, hlines', hbreaks⟩
    cases n with
    | zero =>
      cases hreached
      cases hlines.symm.trans hlines'
      exact absurd hbreaks hline
    | succ n =>
      rw [after?, hnext, Option.bind_some] at hreached
      exact ⟨n, reached, line', rest', hreached, hlines', hbreaks⟩
  · rintro ⟨n, reached, line', rest', hreached, hlines', hbreaks⟩
    refine ⟨n + 1, reached, line', rest', ?_, hlines', hbreaks⟩
    rw [after?, hnext, Option.bind_some]
    exact hreached

/-- Where no line is left to come, only the first can end the shell by a fault. -/
theorem State.comesToBreak_of_next?_eq_none {settings : Settings} {state : State} {fault : Fault}
    (hnext : state.next? settings = none) :
    state.ComesToBreak settings fault ↔
      ∃ line rest, state.lines = line :: rest ∧
        Breaks settings state.host.nextPlan state.session line fault := by
  constructor
  · rintro ⟨n, reached, line, rest, hreached, hlines, hbreaks⟩
    cases n with
    | zero =>
      cases hreached
      exact ⟨line, rest, hlines, hbreaks⟩
    | succ n =>
      rw [after?, hnext] at hreached
      cases hreached
  · rintro ⟨line, rest, hlines, hbreaks⟩
    exact ⟨0, state, line, rest, rfl, hlines, hbreaks⟩

/-- A shell whose input just ends comes to a fault exactly if one of its lines does. -/
theorem State.finish_fault_iff (settings : Settings) (state : State) (fault : Fault) :
    (state.finish settings false).1 = .error fault ↔ state.ComesToBreak settings fault := by
  obtain ⟨session, lines, host⟩ := state
  induction lines generalizing session host with
  | nil =>
    have hfinish : (finish settings false { session, lines := [], host }).1 = .ok 0 := rfl
    rw [comesToBreak_of_next?_eq_none rfl, hfinish]
    exact iff_of_false nofun fun ⟨_, _, hlines, _⟩ => nomatch hlines
  | cons line lines ih =>
    cases hanswer : answer settings session line host with
    | mk next host' =>
      have hfault := answer_fault_iff hanswer
      cases next with
      | again after =>
        have hnext : State.next? settings { session, lines := line :: lines, host } =
            some { session := after, lines, host := host' } := by
          unfold next?
          simp only [hanswer]
        have hline : ¬ Breaks settings host.nextPlan session line fault :=
          fun hbreaks => not_endsIn_again after fault ((hfault fault).mpr hbreaks)
        rw [finish_of_next? false hnext, ih, comesToBreak_of_next? hnext rfl hline]
      | stop after result =>
        have hnext : State.next? settings { session, lines := line :: lines, host } = none := by
          unfold next?
          simp only [hanswer]
        have hfinish : (finish settings false { session, lines := line :: lines, host }).1 =
            result := by
          unfold finish
          rw [loop_cons, Action.bind_of_eq hanswer]
          rfl
        rw [comesToBreak_of_next?_eq_none hnext, hfinish]
        constructor
        · rintro rfl
          exact ⟨line, lines, rfl, (hfault fault).mp ⟨after, rfl⟩⟩
        · rintro ⟨_, _, ⟨⟩, hbreaks⟩
          obtain ⟨_, hstop⟩ := (hfault fault).mpr hbreaks
          cases hstop
          rfl

/-- What a child prints can end the shell.  An evaluation gives a result, finds the session gone
    or is interrupted, unless a NUL is heard behind which, up to the end of its line, there is no
    JSON object that can be read; then it ends in a fault that says so.  What is heard is what the
    child prints, with its line ends as the pipe gives them.  A shell whose input just ends gives
    an exit code, unless its program is there and cannot be started at first, or a line that it
    comes to ends it: by such an answer, by a verdict that is no text, or by an interrupt behind
    which the program cannot be started again.  Then it ends in that fault. -/
theorem faults_iff_garbled (settings : Settings) (execute : Bool) (lines : List String)
    (host : Host) :
    (∀ (session : Session) (code : String) (fault : Fault),
      (session.execute code host).1.1 = .error fault ∧ fault.isForeseen = false ↔
        session.Garbles fault) ∧
    (∀ (session : Session) (child : Child) (pipe : Pipe) (printed : String) (interrupt : Bool)
      (exit : Option Int) (turns : List Turn) (fault : Fault), session.child = some child →
      child.alive = true → child.turns = .prints pipe printed interrupt exit :: turns →
      (session.Garbles fault ↔
        Session.Garbled (child.buffer ++ (pipe.hear printed).toList) fault)) ∧
    ∀ fault, (run settings execute { lines } host).1 = .error fault ↔
      execute = true ∧ Refuses settings host.nextPlan fault ∨
        ∃ opened, State.opening? settings execute { lines } host = some opened ∧
          opened.ComesToBreak settings fault := by
  refine ⟨?_, ?_, ?_⟩
  · intro session code fault
    obtain ⟨_, _, _, hcomes⟩ := session.emits_execute_comes code host
    rw [Session.garbles_iff]
    constructor
    · rintro ⟨hfault, hforeseen⟩
      exact ⟨hfault ▸ hcomes, hforeseen⟩
    · rintro ⟨hcomes', hforeseen⟩
      exact ⟨hcomes.unique hcomes', hforeseen⟩
  · intro session child pipe printed interrupt exit turns fault hchild halive hturns
    exact Session.garbles_prints_iff hchild halive hturns
  · intro fault
    rw [← start_eq_error_iff]
    cases hstart : start settings execute host with
    | mk started host' =>
      cases started with
      | error refused =>
        have hopened : State.opening? settings execute { lines } host = none := by
          unfold State.opening?
          rw [hstart]
        rw [run_of_start_error (congrArg Prod.fst hstart), hopened]
        simp
      | ok session =>
        rw [run_of_start hstart, State.opening?_of_start hstart, State.finish_fault_iff]
        simp

/-- A reply that is laid out in two lines by a `\r` is cut there by a pipe of text. -/
theorem faults_iff_garbled_line_end :
    let turn : Turn := .prints .text "\x00\x7b\r\"ok\": true\x7d\n" false none
    let plan : Plan := { turns := [turn], stuck := false, out := "" }
    Session.Garbles { binary := "node", child := some (.ofPlan 0 plan) }
      (.unreadReply .malformed) := by
  intro turn plan
  obtain ⟨_, hprints, _⟩ := faults_iff_garbled {} true [] {}
  have hheard : (Pipe.text.hear "\x00\x7b\r\"ok\": true\x7d\n").toList =
      [] ++ Session.sentinel :: '\x7b' :: '\n' :: "\"ok\": true\x7d\n".toList := by decide +kernel
  have hbuffer : (Child.ofPlan 0 plan).buffer = [] := rfl
  refine (hprints _ (.ofPlan 0 plan) .text _ false none [] _ rfl rfl rfl).mpr ?_
  rw [hbuffer, List.nil_append, hheard]
  exact .unread List.not_mem_nil rfl

/-- The code prints a NUL and a line break, and then comes its reply.  What stands between them
    is taken for the reply. -/
theorem run_garbled_output :
    let reply := "\x00\x7b\"ok\": true, \"value\": null\x7d\n"
    let plan : Plan :=
      { turns := [.prints .text ("\x00\n" ++ reply) false none], stuck := false, out := "" }
    (run {} true { lines := ["(f)\n"] } { plans := [.ok plan] }).1 =
      .error (.unreadReply .malformed) := by
  intro reply plan
  decide +kernel

end Shell

end SexpScript
