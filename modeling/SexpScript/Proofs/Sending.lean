import SexpScript.Proofs.Messages

/-! # Each line is sent once

    What a shell writes to its children are the requests of the lines that it takes from its
    input, in their order: one for each line that has a text and meets a live session, and
    none for any other line.

    - An evaluation writes first of all, and nothing after that (`emits_evaluate`).  A line
      that is interrupted costs a child, and the entries of the next start write nothing.
    - A start that fails leaves the shell without a session, and it stays without one
      (`session_respond_none`).
    - `follow` is the loop of the shell with a note of each line that is taken and of the
      session it meets.  Without the notes it is the loop itself (`map_follow`).
    - Line after line, what is sent are the requests of the notes (`emits_follow`).
-/

namespace SexpScript

/-! ### Children and sessions -/

/-- The action writes `data` first of all, and after that it neither writes nor starts
    anything. -/
def Posts {α : Type} (data : String) (action : Action α) : Prop :=
  Emits action fun _ entries => ∃ rest, entries = .request (.write data) :: rest ∧
    ∀ entry ∈ rest, entry.isIdle = true

namespace Posts

variable {α β : Type} {data : String}

theorem record_bind {next : Unit → Action α} (h : Only Entry.isIdle (next ())) :
    Posts data (Host.record (.request (.write data)) >>= next) := by
  apply Emits.record_bind rfl
  exact Emits.mono h fun _ entries hidle => ⟨entries, rfl, hidle⟩

protected theorem bind {action : Action β} {next : β → Action α} (h : Posts data action)
    (hnext : ∀ b, Only Entry.isIdle (next b)) : Posts data (action >>= next) := by
  apply Emits.bind h
  intro b xs ⟨rest, hxs, hrest⟩
  apply Emits.mono (hnext b)
  intro _ ys hys
  refine ⟨rest ++ ys, ?_, List.forall_mem_append.mpr ⟨hrest, hys⟩⟩
  rw [hxs]
  rfl

end Posts

namespace Child

theorem only_finish (child : Child) (code : Int) : Only Entry.isIdle (child.finish code) :=
  (Only.record rfl rfl).bind fun _ => Only.pure _

theorem only_wait (child : Child) (seconds : Option Nat) :
    Only Entry.isIdle (child.wait seconds) := by
  unfold wait
  apply (Only.record rfl rfl).bind
  intro _
  cases child.exitCode with
  | some code => exact Only.pure _
  | none => exact .ite (.pure _) ((child.only_finish 0).bind fun _ => Only.pure _)

theorem only_terminate (child : Child) : Only Entry.isIdle child.terminate :=
  (Only.record rfl rfl).bind fun _ => .ite (.pure child) (child.only_finish (-15))

theorem only_kill (child : Child) : Only Entry.isIdle child.kill :=
  (Only.record rfl rfl).bind fun _ => child.only_finish (-9)

/-- Whatever turn the child takes, nothing happens behind the write but that it may end. -/
theorem posts_write (child : Child) (data : String) : Posts data (child.write data) := by
  apply Posts.record_bind
  cases child.turns with
  | nil => exact (only_finish _ 0).bind fun _ => Only.pure _
  | cons turn turns =>
    cases turn with
    | brokenPipe => exact Only.pure _
    | answer out interrupt exit =>
      cases exit with
      | none => exact Only.pure _
      | some code => exact (only_finish _ code).bind fun _ => Only.pure _

/-- A program that can be started begins at once. -/
theorem emits_spawn (command : List String) :
    Emits (spawn command) fun started entries =>
      match started with
      | .ok child => entries = [.request (.spawn command), .began child.number]
      | .error _ => entries = [.request (.spawn command)] := by
  intro host
  cases host with
  | mk plans started =>
    cases plans with
    | nil => exact ⟨_, rfl, ⟨.of_begun_eq_nil rfl _, rfl⟩, rfl⟩
    | cons plan plans =>
      cases plan with
      | error refusal => exact ⟨_, rfl, ⟨.of_begun_eq_nil rfl _, rfl⟩, rfl⟩
      | ok plan => exact ⟨_, List.append_assoc _ _ _, ⟨⟨1, rfl, rfl⟩, rfl⟩, rfl⟩

end Child

namespace Session

theorem only_stop (child : Child) : Only Entry.isIdle (stop child) := by
  unfold stop
  apply child.only_terminate.bind
  intro asked
  apply (asked.only_wait (some grace)).bind
  intro ⟨code, waited⟩
  apply Only.ite
  · exact Only.pure waited
  · apply waited.only_kill.bind
    intro killed
    exact (killed.only_wait none).bind fun _ => Only.pure _

theorem only_close (session : Session) : Only Entry.isIdle session.close := by
  unfold close
  cases session.child with
  | none => exact Only.pure session
  | some child => exact .ite ((only_stop child).bind fun _ => Only.pure _) (.pure _)

theorem only_receive (child : Child) : Only Entry.isIdle (receive child) := by
  unfold receive
  cases takeAnswer child.buffer with
  | mk answer rest =>
    cases answer with
    | reply output reply => exact Only.pure _
    | silence output =>
      apply Only.ite
      · exact Only.pure _
      · apply (Child.only_wait _ none).bind
        intro ⟨code, waited⟩
        exact (Only.record rfl rfl).bind fun _ => Only.pure _

/-- A session that is started has a child that began, and one that is not has none. -/
theorem emits_start (session : Session) :
    Emits session.start fun started entries => ∃ command,
      match started with
      | .ok _ => ∃ child, entries =
          [.notice (.sessionStarting session.binary), .request (.spawn command), .began child]
      | .error _ => entries =
          [.notice (.sessionStarting session.binary), .request (.spawn command)] := by
  unfold start
  apply Emits.record_bind rfl
  apply (Child.emits_spawn _).bind
  intro started entries hstarted
  cases started with
  | ok child =>
    apply Emits.pure
    rw [hstarted]
    exact ⟨_, child.number, rfl⟩
  | error refusal =>
    apply Emits.pure
    rw [hstarted]
    exact ⟨_, rfl⟩

/-- A live session sends a text at once and no second time. -/
theorem posts_execute {session : Session} (h : session.alive = true) (code : String) :
    Posts (request code) (session.execute code) := by
  unfold alive at h
  unfold execute
  cases hchild : session.child with
  | none =>
    rw [hchild] at h
    cases h
  | some child =>
    rw [hchild] at h
    have halive : child.alive = true := h
    simp only [halive, Bool.not_true, Bool.false_eq_true, if_false]
    apply (child.posts_write (request code)).bind
    intro ⟨sent, written⟩
    apply Only.ite
    · exact Only.pure _
    · apply (Only.record rfl rfl).bind
      intro _
      exact (only_receive written).bind fun _ => Only.pure _

/-- Nothing is done in a session that is not alive. -/
theorem emits_execute_not_alive {session : Session} (h : session.alive = false) (code : String) :
    Emits (session.execute code) fun _ entries => entries = [] := by
  rw [execute_of_not_alive h]
  exact Emits.pure rfl

end Session

/-! ### The shell -/

namespace Shell

open Journal (Resumes Starts)

/-- A start writes nothing, and there is a session after it exactly if a child began. -/
theorem emits_startSession (settings : Settings) :
    Emits (startSession settings) fun started entries =>
      Resumes started.toOption.join entries := by
  have hnotice : ∀ notice : Notice, ∀ entry ∈ [Entry.notice notice], entry.isIdle = true :=
    fun _ => List.forall_mem_singleton.mpr rfl
  unfold startSession
  apply (Session.emits_start _).bind
  intro started entries ⟨command, hentries⟩
  cases started with
  | ok session =>
    obtain ⟨child, hentries⟩ := hentries
    apply Emits.pure
    rw [hentries, List.append_nil]
    exact (Resumes.began session command child).idle_append (hnotice _)
  | error refusal =>
    have hfailed : Resumes none entries := by
      rw [hentries]
      exact (Resumes.failed command).idle_append (hnotice _)
    show Emits (if refusal = .missing then _ else _) _
    by_cases hmissing : refusal = .missing
    · rw [if_pos hmissing]
      apply Emits.record_bind rfl
      exact Emits.pure (hfailed.append_idle (List.forall_mem_singleton.mpr rfl))
    · rw [if_neg hmissing]
      apply Emits.pure
      rw [List.append_nil]
      exact hfailed

theorem only_endSession (session : Option Session) : Only Entry.isIdle (endSession session) := by
  cases session with
  | none => exact Only.pure ()
  | some session => exact session.only_close.bind fun _ => Only.pure ()

theorem only_showVerdict (verdict : Option (Json × (String → String))) :
    Only Entry.isIdle (showVerdict verdict) := by
  cases verdict with
  | none => exact Only.pure _
  | some verdict =>
    obtain ⟨value, paint⟩ := verdict
    rw [showVerdict]
    cases value.display? with
    | none => exact Only.pure _
    | some text => exact (Only.record rfl rfl).bind fun _ => Only.pure _

theorem only_present (result : Session.Result) : Only Entry.isIdle (present result) :=
  .ite ((Only.record rfl rfl).bind fun _ => only_showVerdict _) (only_showVerdict _)

/-- The session after a line. -/
def Next.session : Next → Option Session
  | .again session => session
  | .stop session _ => session

/-- An action after which the shell goes on, or ends, with the session of its result. -/
def Settles (action : Action Next) : Prop :=
  Emits action fun next entries => Resumes next.session entries

namespace Settles

theorem of_only {action : Action Next} (h : Only Entry.isIdle action) : Settles action :=
  Emits.mono h fun _ _ hidle => .of_idle hidle

theorem idle_bind {α : Type} {action : Action α} {next : α → Action Next}
    (h : Only Entry.isIdle action) (hnext : ∀ a, Settles (next a)) : Settles (action >>= next) := by
  apply Emits.bind h
  intro a xs hxs
  exact (hnext a).mono fun _ _ hys => hys.idle_append hxs

end Settles

/-- A line is not sent again: the old session is ended and another one started. -/
theorem settles_restart (settings : Settings) (session : Session) :
    Settles (restart settings session) := by
  apply Settles.idle_bind (Only.record rfl rfl)
  intro _
  apply Settles.idle_bind (only_endSession (some session))
  intro _
  apply (emits_startSession settings).bind
  intro restarted entries hentries
  cases restarted with
  | ok session =>
    apply Emits.pure
    rw [List.append_nil]
    exact hentries
  | error fault =>
    apply Emits.pure
    rw [List.append_nil]
    exact hentries

/-- What comes behind an evaluation writes nothing, even if another session is started. -/
theorem emits_evaluate (settings : Settings) (session : Session) (text : String)
    {post : Journal → Prop} (h : Emits (session.execute text) fun _ entries => post entries) :
    Emits (evaluate settings session text) fun next entries =>
      ∃ xs ys, entries = xs ++ ys ∧ post xs ∧ Resumes next.session ys := by
  unfold evaluate
  apply h.bind
  intro ⟨answer, session⟩ xs hxs
  have hsettles : ∀ {action : Action Next}, Settles action → Emits action fun next ys =>
      ∃ xs' ys', xs ++ ys = xs' ++ ys' ∧ post xs' ∧ Resumes next.session ys' := by
    intro action haction
    exact haction.mono fun _ ys hys => ⟨xs, ys, rfl, hxs, hys⟩
  apply hsettles
  cases answer with
  | ok result =>
    apply Settles.of_only
    apply (only_present result).bind
    intro presented
    cases presented with
    | error fault => exact Only.pure _
    | ok _ => exact Only.pure _
  | error fault =>
    cases fault with
    | interrupted => exact settles_restart settings session
    | lost loss => exact .of_only ((Only.record rfl rfl).bind fun _ => Only.pure _)
    | _ => exact .of_only (Only.pure _)

/-! ### One line -/

/-- A line that the shell took from its input, and the session that it met. -/
structure Taken where
  line : String
  session : Option Session

/-- Whether the line met a session whose child had not ended. -/
def Taken.live (taken : Taken) : Bool := taken.session.any Session.alive

/-- What is sent for a line, with the child that runs then.  Nothing is sent for a line that
    is refused or has no text, or that met no live session. -/
def Taken.request? (settings : Settings) (taken : Taken) : Option (List Nat × String) :=
  match (compiler settings).line taken.line with
  | .ok text =>
      if text ≠ "" ∧ taken.live = true then some (runningOf taken.session, Session.request text)
      else none
  | .error _ => none

section request
variable {settings : Settings} {session : Option Session} {line : String}

theorem Taken.request?_of_error {error : SyntaxError}
    (h : (compiler settings).line line = .error error) :
    Taken.request? settings { line, session } = none := by
  simp only [request?, h]

theorem Taken.request?_of_empty (h : (compiler settings).line line = .ok "") :
    Taken.request? settings { line, session } = none := by
  simp only [request?, h]
  exact if_neg fun hsent => hsent.1 rfl

theorem Taken.request?_none : Taken.request? settings { line, session := none } = none := by
  unfold request?
  split
  · exact if_neg fun hsent => Bool.noConfusion hsent.2
  · rfl

/-- A session is alive if its child runs. -/
theorem exists_runningOf {session : Session} (h : session.alive = true) :
    ∃ child, runningOf (some session) = [child] := by
  unfold Session.alive at h
  show ∃ child, Child.runningOf session.child = [child]
  cases hchild : session.child with
  | none =>
    rw [hchild] at h
    cases h
  | some child =>
    rw [hchild] at h
    exact ⟨child.number, if_pos h⟩

/-- A request goes to one child. -/
theorem Taken.exists_child_of_request? {taken : Taken} {request : List Nat × String}
    (h : taken.request? settings = some request) : ∃ child, request.1 = [child] := by
  unfold request? at h
  split at h
  · split at h
    · next hsent =>
      cases h
      obtain ⟨session, hsession, halive⟩ := (Option.any_eq_true _ _).mp hsent.2
      show ∃ child, runningOf taken.session = [child]
      rw [hsession]
      exact exists_runningOf halive
    · cases h
  · cases h

theorem Taken.request?_of_text {text : String} (h : (compiler settings).line line = .ok text)
    (htext : text ≠ "") {session : Session} :
    Taken.request? settings { line, session := some session } =
      if session.alive = true then some (runningOf session, Session.request text) else none := by
  simp only [request?, h, htext, ne_eq, not_false_eq_true, true_and]
  rfl

end request

/-- The entries of a line: they send the request, if there is one, and leave the shell with the
    session or without one. -/
structure Answers (running : List Nat) (request : Option (List Nat × String))
    (session : Option Session) (entries : Journal) : Prop where
  sent : Journal.sentFrom running entries = request.toList
  next : ∀ later, Starts later → (session = none → Journal.writes later = []) →
    Starts (entries ++ later)

namespace Answers

variable {running : List Nat} {request : Option (List Nat × String)} {session : Option Session}

theorem of_resumes {entries : Journal} (h : Resumes session entries) :
    Answers running none session entries where
  sent := Journal.sentFrom_eq_nil_iff.mpr h.mute
  next := h.next

theorem of_write {data : String} {rest : Journal} (h : Resumes session rest) :
    Answers running (some (running, data)) session (.request (.write data) :: rest) where
  sent := by
    show [(running, data)] ++ Journal.sentFrom running rest = [(running, data)]
    rw [Journal.sentFrom_eq_nil_iff.mpr h.mute, List.append_nil]
  next := fun later hlater hnone => ⟨nofun, h.next later hlater hnone⟩

/-- Talk may come first, since the same children run after it. -/
theorem talk_append {xs ys : Journal} (hxs : ∀ entry ∈ xs, entry.isTalk = true)
    (hys : Answers running request session ys) : Answers running request session (xs ++ ys) := by
  have hidle : ∀ entry ∈ xs, entry.isIdle = true :=
    fun entry hentry => entry.isIdle_of_isTalk (hxs entry hentry)
  constructor
  · rw [Journal.sentFrom_append, Journal.sentFrom_eq_nil_iff.mpr (Journal.writes_of_idle hidle),
      Journal.foldl_track_of_talk hxs, List.nil_append]
    exact hys.sent
  · intro later hlater hnone
    rw [List.append_assoc]
    exact Journal.starts_append_of_idle hidle (hys.next later hlater hnone)

theorem talk_bind {α : Type} {action : Action α} {next : α → Action Next}
    (h : Only Entry.isTalk action)
    (hnext : ∀ a, Emits (next a) fun next entries =>
      Answers running request next.session entries) :
    Emits (action >>= next) fun next entries => Answers running request next.session entries := by
  apply Emits.bind h
  intro a xs hxs
  exact (hnext a).mono fun _ _ hys => hys.talk_append hxs

theorem talk_ite_bind {c : Prop} [Decidable c] {action : Action Unit} {next : Unit → Action Next}
    (h : Only Entry.isTalk action)
    (hnext : Emits (next ()) fun next entries => Answers running request next.session entries) :
    Emits (if c then action >>= next else next ()) fun next entries =>
      Answers running request next.session entries := by
  by_cases hc : c
  · rw [if_pos hc]
    exact talk_bind h fun _ => hnext
  · rw [if_neg hc]
    exact hnext

end Answers

/-- A text is sent exactly if the session is alive. -/
theorem answers_evaluate (settings : Settings) (session : Session) (text : String) :
    Emits (evaluate settings session text) fun next entries =>
      Answers (runningOf (some session))
        (if session.alive = true then some (runningOf (some session), Session.request text)
          else none)
        next.session entries := by
  cases halive : session.alive with
  | true =>
    apply (emits_evaluate settings session text (Session.posts_execute halive text)).mono
    intro next entries ⟨xs, ys, hentries, ⟨rest, hxs, hrest⟩, hys⟩
    rw [hentries, hxs]
    exact Answers.of_write (hys.idle_append hrest)
  | false =>
    apply (emits_evaluate settings session text (Session.emits_execute_not_alive halive text)).mono
    intro next entries ⟨xs, ys, hentries, hxs, hys⟩
    rw [hentries, hxs]
    exact Answers.of_resumes hys

/-- A line is answered by its own request, if it has one. -/
theorem answers_respond (settings : Settings) (session : Option Session) (line : String) :
    Emits (respond settings session line) fun next entries =>
      Answers (runningOf session) (Taken.request? settings { line, session }) next.session
        entries := by
  have hquiet : ∀ next : Next, Answers (runningOf session) none next.session [] :=
    fun _ => .of_resumes .nil
  unfold respond
  apply Answers.talk_bind (.forM (fun _ => .record rfl rfl) _)
  intro _
  cases hline : (compiler settings).line line with
  | error error =>
    rw [Taken.request?_of_error hline]
    apply Answers.talk_bind (.record rfl rfl)
    intro _
    exact Emits.pure (hquiet _)
  | ok text =>
    -- The text is shown before it is sent, if it is shown at all.
    apply Answers.talk_ite_bind (.record rfl rfl)
    cases session with
    | none =>
      rw [Taken.request?_none]
      exact Emits.pure (hquiet _)
    | some session =>
      show Emits (if text = "" then _ else _) _
      by_cases hempty : text = ""
      · rw [if_pos hempty, Taken.request?_of_empty (hempty ▸ hline)]
        exact Emits.pure (hquiet _)
      · rw [if_neg hempty, Taken.request?_of_text hline hempty]
        exact answers_evaluate settings session text

/-- A shell without a session stays without one. -/
theorem session_respond_none (settings : Settings) (line : String) :
    Emits (respond settings none line) fun next _ => next.session = none := by
  have hnotices : Only Entry.isTalk (((compiler settings).notices line).forM Host.notify) :=
    .forM (fun _ => .record rfl rfl) _
  unfold respond
  apply Emits.bind hnotices
  intro _ _ _
  cases (compiler settings).line line with
  | error error => exact Emits.record_bind rfl (Emits.pure rfl)
  | ok text =>
    have hend : Emits
        (pure (if text = Operation.exitText then Next.stop none (.ok 0) else .again none))
        fun next _ => next.session = none := by
      apply Emits.pure
      split <;> rfl
    show Emits (if settings.echo = true then _ else _) _
    split
    · exact Emits.record_bind rfl hend
    · exact hend

theorem Next.running_eq (next : Next) : next.running = runningOf next.session := by
  cases next with
  | again session => rfl
  | stop session result => rfl

theorem length_runningOf_le (session : Option Session) : (runningOf session).length ≤ 1 :=
  Child.length_runningOf_le _

/-- All that the lines after it need to know of a line. -/
theorem emits_respond (settings : Settings) (session : Option Session) (line : String) :
    Emits (respond settings session line) fun next entries =>
      Answers (runningOf session) (Taken.request? settings { line, session }) next.session entries ∧
        entries.foldl Journal.track (runningOf session) = runningOf next.session ∧
        (session = none → next.session = none) := by
  have hrunning := keeps_respond settings session line (length_runningOf_le session)
  have hnone : Emits (respond settings session line) fun next _ =>
      session = none → next.session = none := by
    cases session with
    | none => exact (session_respond_none settings line).mono fun _ _ h _ => h
    | some session => exact hrunning.mono fun _ _ _ => nofun
  apply ((answers_respond settings session line).and (hrunning.and hnone)).mono
  intro next entries ⟨hanswers, ⟨now, hleads, hnow⟩, hgone⟩
  refine ⟨hanswers, ?_, hgone⟩
  rw [hleads.foldl_eq, hnow, next.running_eq]

/-! ### Line after line -/

/-- Answer line after line, with a note of the lines that are taken. -/
def follow (settings : Settings) (interrupted : Bool) (session : Option Session) :
    List String → Action (Except Fault Int × List Taken)
  | [] => do
      Host.out settings.prompt
      return (← leave session interrupted, [])
  | line :: lines => do
      Host.out settings.prompt
      match ← respond settings session line with
      | .again next =>
          let (result, taken) ← follow settings interrupted next lines
          return (result, { line, session } :: taken)
      | .stop next result =>
          endSession next
          return (result, [{ line, session }])

/-- Run the shell on an input, with a note of the lines that are taken. -/
def followRun (settings : Settings) (execute : Bool) (input : Input) :
    Action (Except Fault Int × List Taken) := do
  match ← start settings execute with
  | .error fault => return (.error fault, [])
  | .ok session => follow settings input.interrupted session input.lines

/-- Without its notes the loop is that of the shell. -/
theorem map_follow (settings : Settings) (interrupted : Bool) (session : Option Session)
    (lines : List String) :
    Prod.fst <$> follow settings interrupted session lines =
      loop settings interrupted session lines := by
  induction lines generalizing session with
  | nil => simp [follow, loop]
  | cons line lines ih =>
    rw [follow, loop, map_bind]
    apply bind_congr
    intro _
    rw [map_bind]
    apply bind_congr
    intro next
    cases next with
    | again session => simp [← ih]
    | stop session result => simp

theorem map_followRun (settings : Settings) (execute : Bool) (input : Input) :
    Prod.fst <$> followRun settings execute input = run settings execute input := by
  unfold followRun run
  rw [map_bind]
  apply bind_congr
  intro started
  cases started with
  | error fault => rfl
  | ok session => exact map_follow settings input.interrupted session input.lines

/-- The entries of a loop that has `session` at first and takes the lines `taken`. -/
structure Follows (settings : Settings) (session : Option Session) (lines : List String)
    (taken : List Taken) (entries : Journal) : Prop where
  sent : Journal.sentFrom (runningOf session) entries = taken.filterMap (Taken.request? settings)
  taken : taken.map Taken.line <+: lines
  starts : Starts entries
  mute : session = none → Journal.writes entries = []

namespace Follows

variable {settings : Settings} {session : Option Session} {lines : List String}

theorem of_idle {entries : Journal} (h : ∀ entry ∈ entries, entry.isIdle = true) :
    Follows settings session lines [] entries where
  sent := Journal.sentFrom_eq_nil_iff.mpr (Journal.writes_of_idle h)
  taken := List.nil_prefix
  starts := .of_mute (Journal.writes_of_idle h)
  mute := fun _ => Journal.writes_of_idle h

/-- The prompt. -/
theorem out_cons {taken : List Taken} {entries : Journal} (text : String)
    (h : Follows settings session lines taken entries) :
    Follows settings session lines taken (.out text :: entries) where
  sent := h.sent
  taken := h.taken
  starts := ⟨nofun, h.starts⟩
  mute := h.mute

/-- A line and what comes after it. -/
theorem cons {line : String} {next : Option Session} {taken : List Taken} {xs ys : Journal}
    (hanswers : Answers (runningOf session) (Taken.request? settings { line, session }) next xs)
    (hrunning : xs.foldl Journal.track (runningOf session) = runningOf next)
    (hgone : session = none → next = none) (h : Follows settings next lines taken ys) :
    Follows settings session (line :: lines) ({ line, session } :: taken) (xs ++ ys) where
  sent := by
    rw [Journal.sentFrom_append, hanswers.sent, hrunning, h.sent, List.filterMap_cons]
    cases Taken.request? settings { line, session } with
    | none => rfl
    | some request => rfl
  taken := List.cons_prefix_cons.mpr ⟨rfl, h.taken⟩
  -- A start in `xs` may have failed.  Then `next` is `none`, and `ys` writes nothing.
  starts := hanswers.next ys h.starts h.mute
  mute := by
    intro hsession
    have hxs : Journal.writes xs = [] := by
      rw [← Journal.sentFrom_eq_nil_iff, hanswers.sent, hsession, Taken.request?_none]
      rfl
    rw [Journal.writes_append, hxs, h.mute (hgone hsession)]
    rfl

end Follows

theorem only_leave (session : Option Session) (interrupted : Bool) :
    Only Entry.isIdle (leave session interrupted) := by
  have hend : Only Entry.isIdle (do
      endSession session
      return if interrupted then Except.error Fault.interrupted else .ok (0 : Int)) :=
    (only_endSession session).bind fun _ => Only.pure _
  exact .ite ((Only.record rfl rfl).bind fun _ => hend) hend

/-- Line after line, the requests of the lines are what is sent. -/
theorem emits_follow (settings : Settings) (interrupted : Bool) (session : Option Session)
    (lines : List String) :
    Emits (follow settings interrupted session lines) fun followed entries =>
      Follows settings session lines followed.2 entries := by
  -- The session is general: the next line meets the one that this line leaves.
  induction lines generalizing session with
  | nil =>
    apply Emits.record_bind rfl
    apply Emits.bind (only_leave session interrupted)
    intro result entries hidle
    apply Emits.pure
    rw [List.append_nil]
    exact (Follows.of_idle hidle).out_cons settings.prompt
  | cons line lines ih =>
    apply Emits.record_bind rfl
    apply (emits_respond settings session line).bind
    intro next xs ⟨hanswers, hrunning, hgone⟩
    cases next with
    | again next =>
      apply (ih next).bind
      intro ⟨result, taken⟩ ys hys
      apply Emits.pure
      rw [List.append_nil]
      exact (Follows.cons hanswers hrunning hgone hys).out_cons settings.prompt
    | stop next result =>
      -- No line is taken any more, and the end of a session writes nothing.
      apply Emits.bind (only_endSession next)
      intro _ ys hidle
      apply Emits.pure
      rw [List.append_nil]
      exact (Follows.cons hanswers hrunning hgone (.of_idle hidle)).out_cons settings.prompt

/-! ### A whole run -/

theorem emits_start (settings : Settings) (execute : Bool) :
    Emits (start settings execute) fun started entries =>
      Resumes started.toOption.join entries ∧
        entries.foldl Journal.track [] = runningOf started.toOption.join := by
  have hbanner : ∀ session xs, Resumes session xs →
      Emits (Host.outLine banner >>= fun _ => pure (Except.ok session))
        fun (started : Except Fault (Option Session)) ys =>
          Resumes started.toOption.join (xs ++ ys) := by
    intro session xs hxs
    apply Emits.record_bind rfl
    exact Emits.pure (hxs.append_idle (List.forall_mem_singleton.mpr rfl))
  have hresumes : Emits (start settings execute) fun started entries =>
      Resumes started.toOption.join entries := by
    cases execute with
    | true =>
      apply (emits_startSession settings).bind
      intro started xs hxs
      cases started with
      | error fault =>
        apply Emits.pure
        rw [List.append_nil]
        exact hxs
      | ok session => exact hbanner session xs hxs
    | false => exact hbanner none [] .nil
  apply (hresumes.and (keeps_start settings execute (Nat.zero_le 1))).mono
  intro started entries ⟨hentries, now, hleads, hnow⟩
  exact ⟨hentries, hleads.foldl_eq.trans hnow⟩

theorem emits_followRun (settings : Settings) (execute : Bool) (input : Input) :
    Emits (followRun settings execute input) fun followed entries =>
      Journal.sent entries = followed.2.filterMap (Taken.request? settings) ∧
        followed.2.map Taken.line <+: input.lines ∧ Starts entries := by
  apply (emits_start settings execute).bind
  intro started xs ⟨hxs, hrunning⟩
  cases started with
  | error fault =>
    apply Emits.pure
    rw [List.append_nil]
    exact ⟨Journal.sentFrom_eq_nil_iff.mpr hxs.mute, List.nil_prefix, .of_mute hxs.mute⟩
  | ok session =>
    apply (emits_follow settings input.interrupted session input.lines).mono
    intro followed ys hys
    refine ⟨?_, hys.taken, hxs.next ys hys.starts hys.mute⟩
    rw [Journal.sent, Journal.sentFrom_append, Journal.sentFrom_eq_nil_iff.mpr hxs.mute, hrunning]
    exact hys.sent

/-- Each line is sent once and in order.  What is written during a run, whatever the input,
    the settings and the behaviour of the children, are the requests of the lines that are taken
    from the input: those that have a text and meet a live session, and no others.  Each goes to
    one child, and none to a child that began before that of an earlier line.  After a start
    that begins no child nothing is written. -/
theorem run_sends_each_line_once (settings : Settings) (execute : Bool) (input : Input)
    (host : Host) :
    let followed := followRun settings execute input host
    run settings execute input host = (followed.1.1, followed.2) ∧
      followed.1.2.map Taken.line <+: input.lines ∧
      ∃ entries, (run settings execute input host).2.journal = host.journal ++ entries ∧
        Journal.sent entries = followed.1.2.filterMap (Taken.request? settings) ∧
        (∀ request ∈ Journal.sent entries, ∃ child, request.1 = [child]) ∧
        (Journal.sent entries).Pairwise
          (fun earlier later => ∀ m ∈ earlier.1, ∀ n ∈ later.1, m ≤ n) ∧
        ∀ p command q, entries = p ++ .request (.spawn command) :: q →
          (∃ child, q.head? = some (.began child)) ∨ Journal.writes q = [] := by
  intro followed
  have hrun : run settings execute input host = (followed.1.1, followed.2) := by
    rw [← map_followRun]
    rfl
  obtain ⟨entries, hentries, ⟨⟨count, hbegun, _⟩, _⟩, ⟨hsent, htaken, hstarts⟩⟩ :=
    emits_followRun settings execute input host
  -- Who ran is known of the run, what was sent of `followRun`: they have the same entries.
  obtain ⟨entries', hentries', _, after, hleads, _⟩ :=
    keeps_run settings execute input (Nat.zero_le 1) host
  have heq : entries = entries' := by
    rw [hrun] at hentries'
    exact List.append_cancel_left (hentries.symm.trans hentries')
  rw [← heq] at hentries' hleads
  refine ⟨hrun, htaken, entries, hentries', hsent, ?_, ?_, ?_⟩
  · intro request hrequest
    rw [hsent] at hrequest
    obtain ⟨taken, _, htaken⟩ := List.mem_filterMap.mp hrequest
    exact Taken.exists_child_of_request? htaken
  · exact Journal.sentFrom_pairwise hleads hbegun fun _ hn => absurd hn List.not_mem_nil
  · intro p command q hsplit
    rw [hsplit] at hstarts
    exact hstarts.began_or_mute

/-- The first line is interrupted and the second one refused.  The third is sent to the
    second child, which it ends, and the fourth is not taken any more. -/
theorem run_sends_each_line_once_interrupted :
    let first : Plan := { turns := [.answer "" true none], stuck := false, out := "" }
    let second : Plan := { turns := [.answer "" false (some 0)], stuck := false, out := "" }
    let host : Host := { plans := [.ok first, .ok second] }
    let input : Input := .ofText "(f)\n(g\n(h)\n(f)\n" false
    Journal.sent (run {} true input host).2.journal =
      [([0], "\"f()\"\n"), ([1], "\"h()\"\n")] := by
  intro first second host input
  obtain ⟨_, _, entries, hentries, hsent, _⟩ := run_sends_each_line_once {} true input host
  have hempty : host.journal = [] := rfl
  rw [hentries, hempty, List.nil_append, hsent]
  decide +kernel

end Shell

end SexpScript
