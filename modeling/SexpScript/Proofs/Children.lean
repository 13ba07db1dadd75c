import SexpScript.Proofs.Actions
import SexpScript.Shell

/-! # No child is left behind

    A shell has at most one child at a time, and when it ends every child that it
    started has ended.

    - `Leads` follows the children that run through the entries of a journal, and sees
      that there is never more than one.
    - `Keeps` says of an action that its entries do so, and which children run after it
      by its result.  Each function has one such lemma.
    - Throughout, the child that runs is that of the session, if it has not ended
      (`runningOf`).  Every way out of a line either keeps the session or ends it.
-/

namespace SexpScript

/-! ### Children that run -/

namespace Journal

/-- From `before` to `after` the entries never let more than one child run. -/
inductive Leads : List Nat → Journal → List Nat → Prop
  | nil {running : List Nat} (h : running.length ≤ 1) : Leads running [] running
  | cons {before after : List Nat} {entry : Entry} {entries : Journal} (h : before.length ≤ 1)
      (hrest : Leads (track before entry) entries after) : Leads before (entry :: entries) after

theorem Leads.append {before middle after : List Nat} {xs ys : Journal}
    (hxs : Leads before xs middle) (hys : Leads middle ys after) :
    Leads before (xs ++ ys) after := by
  induction hxs with
  | nil => exact hys
  | cons h _ ih => exact .cons h (ih hys)

theorem Leads.length_after {before after : List Nat} {entries : Journal}
    (h : Leads before entries after) : after.length ≤ 1 := by
  induction h with
  | nil h => exact h
  | cons _ _ ih => exact ih

theorem Leads.foldl_eq {before after : List Nat} {entries : Journal}
    (h : Leads before entries after) : entries.foldl track before = after := by
  induction h with
  | nil => rfl
  | cons _ _ ih => exact ih

theorem Leads.length_foldl_le {before after : List Nat} {entries p : Journal}
    (h : Leads before entries after) (hp : p <+: entries) : (p.foldl track before).length ≤ 1 := by
  induction h generalizing p with
  | nil h =>
    obtain rfl := List.prefix_nil.mp hp
    exact h
  | cons h _ ih =>
    rcases List.prefix_cons_iff.mp hp with rfl | ⟨p', rfl, hp'⟩
    · exact h
    · exact ih hp'

theorem mem_track {entry : Entry} {running : List Nat} {n : Nat} (hn : n ∈ running)
    (hended : ∀ code, entry ≠ .ended n code) : n ∈ track running entry := by
  cases entry with
  | began child => exact List.mem_cons_of_mem child hn
  | ended child code =>
    have hne : n ≠ child := fun h => hended code (h ▸ rfl)
    exact List.mem_filter.mpr ⟨hn, decide_eq_true hne⟩
  | _ => exact hn

/-- A child that runs, or begins, and does not run at the end, has ended. -/
theorem exists_ended {entries : Journal} {running : List Nat} {n : Nat}
    (hn : n ∈ running ∨ .began n ∈ entries) (hend : n ∉ entries.foldl track running) :
    ∃ code, .ended n code ∈ entries := by
  induction entries generalizing running with
  | nil => exact absurd (hn.resolve_right List.not_mem_nil) hend
  | cons entry entries ih =>
    by_cases hnow : ∃ code, entry = .ended n code
    · obtain ⟨code, rfl⟩ := hnow
      exact ⟨code, List.mem_cons_self⟩
    · -- The child runs after this entry, or begins later.
      have hlater : n ∈ track running entry ∨ .began n ∈ entries := by
        rcases hn with hn | hn
        · exact .inl (mem_track hn (not_exists.mp hnow))
        · rcases List.mem_cons.mp hn with rfl | hn
          · exact .inl List.mem_cons_self
          · exact .inr hn
      obtain ⟨code, hcode⟩ := ih hlater hend
      exact ⟨code, List.mem_cons_of_mem entry hcode⟩

end Journal

/-- Whether an entry neither starts nor ends a child. -/
def Entry.isQuiet : Entry → Bool
  | .ended _ _ => false
  | entry => !entry.isStart

theorem Entry.isStart_of_isQuiet {entry : Entry} (h : entry.isQuiet = true) :
    entry.isStart = false := by
  cases entry with
  | began child => cases h
  | request request => simpa [isQuiet] using h
  | _ => rfl

/-- An action during which at most one child runs.  `post` says which children run after
    it, by its result. -/
def Keeps {α : Type} (before : List Nat) (action : Action α) (post : α → List Nat → Prop) : Prop :=
  before.length ≤ 1 →
    Emits action fun a entries => ∃ after, Journal.Leads before entries after ∧ post a after

namespace Keeps

variable {α β : Type} {before : List Nat} {post : α → List Nat → Prop}

protected theorem pure {a : α} (h : post a before) : Keeps before (pure a) post := by
  intro hbefore
  exact Emits.pure ⟨before, .nil hbefore, h⟩

protected theorem bind {action : Action β} {next : β → Action α} {mid : β → List Nat → Prop}
    (haction : Keeps before action mid)
    (hnext : ∀ b now, mid b now → Keeps now (next b) post) :
    Keeps before (action >>= next) post := by
  intro hbefore
  apply (haction hbefore).bind
  intro b xs hmid
  obtain ⟨now, hxs, hb⟩ := hmid
  apply (hnext b now hb hxs.length_after).mono
  intro a ys hpost
  obtain ⟨after, hys, ha⟩ := hpost
  exact ⟨after, hxs.append hys, ha⟩

theorem mono {action : Action α} {post' : α → List Nat → Prop} (h : Keeps before action post)
    (himp : ∀ a now, post a now → post' a now) : Keeps before action post' := by
  intro hbefore
  apply (h hbefore).mono
  intro a entries hpost
  obtain ⟨after, hentries, ha⟩ := hpost
  exact ⟨after, hentries, himp a after ha⟩

end Keeps

/-- An action that neither starts nor ends a child. -/
def Quiet {α : Type} (action : Action α) : Prop :=
  ∀ before, Keeps before action fun _ now => now = before

namespace Quiet

variable {α β : Type}

protected theorem pure (a : α) : Quiet (pure a : Action α) := by
  intro before
  exact Keeps.pure rfl

/-- What follows a quiet action begins with the children that ran before it. -/
theorem keeps_bind {action : Action β} {next : β → Action α} {before : List Nat}
    {post : α → List Nat → Prop} (h : Quiet action) (hnext : ∀ b, Keeps before (next b) post) :
    Keeps before (action >>= next) post := by
  apply (h before).bind
  intro b now hnow
  rw [hnow]
  exact hnext b

protected theorem bind {action : Action β} {next : β → Action α} (h : Quiet action)
    (hnext : ∀ b, Quiet (next b)) : Quiet (action >>= next) := by
  intro before
  exact h.keeps_bind fun b => hnext b before

theorem record {entry : Entry} (hentry : entry.isQuiet = true) : Quiet (Host.record entry) := by
  intro before hbefore
  apply Emits.record (Entry.isStart_of_isQuiet hentry)
  cases entry with
  | began child => cases hentry
  | ended child code => cases hentry
  | _ => exact ⟨before, .cons hbefore (.nil hbefore), rfl⟩

protected theorem ite {c : Prop} [Decidable c] {yes no : Action α} (hyes : Quiet yes)
    (hno : Quiet no) : Quiet (if c then yes else no) := by
  by_cases hc : c
  · rw [if_pos hc]
    exact hyes
  · rw [if_neg hc]
    exact hno

/-- A quiet action that is done or left out. -/
theorem keeps_ite_bind {c : Prop} [Decidable c] {action : Action Unit} {next : Unit → Action α}
    {before : List Nat} {post : α → List Nat → Prop} (h : Quiet action)
    (hnext : Keeps before (next ()) post) :
    Keeps before (if c then action >>= next else next ()) post := by
  by_cases hc : c
  · rw [if_pos hc]
    exact h.keeps_bind fun _ => hnext
  · rw [if_neg hc]
    exact hnext

theorem forM {action : β → Action Unit} (h : ∀ b, Quiet (action b)) (bs : List β) :
    Quiet (bs.forM action) := by
  induction bs with
  | nil => exact Quiet.pure ()
  | cons b bs ih => exact (h b).bind fun _ => ih

end Quiet

theorem Keeps.record_bind {α : Type} {entry : Entry} {next : Unit → Action α} {before : List Nat}
    {post : α → List Nat → Prop} (hentry : entry.isQuiet = true)
    (h : Keeps before (next ()) post) : Keeps before (Host.record entry >>= next) post :=
  (Quiet.record hentry).keeps_bind fun _ => h

namespace Child

/-! ### Children -/

/-- The child that runs, if there is one and it has not ended. -/
def runningOf : Option Child → List Nat
  | some child => if child.alive then [child.number] else []
  | none => []

theorem length_runningOf_le (child : Option Child) : (runningOf child).length ≤ 1 := by
  unfold runningOf
  split
  · split <;> simp
  · exact Nat.zero_le 1

theorem runningOf_of_not_alive {child : Child} (h : child.alive = false) :
    runningOf (some child) = [] := by
  simp [runningOf, h]

theorem keeps_finish (child : Child) (code : Int) :
    Keeps (runningOf (some child)) (child.finish code) fun child' now =>
      child'.alive = false ∧ now = [] := by
  intro hbefore
  have hended : Journal.track (runningOf (some child)) (.ended child.number code) = [] := by
    unfold runningOf
    by_cases halive : child.alive = true
    · simp [halive, Journal.track]
    · simp [halive, Journal.track]
  apply (child.emits_finish code).mono
  rintro _ _ ⟨rfl, rfl⟩
  refine ⟨[], .cons hbefore ?_, rfl, rfl⟩
  rw [hended]
  exact .nil (Nat.zero_le 1)

/-- A child that ends, and a result that is made of it.  Before it ends the child may
    have changed in all but its number. -/
theorem keeps_finish_pure {α : Type} {child child' : Child} {result : Child → α}
    {post : α → List Nat → Prop} (hsame : runningOf (some child) = runningOf (some child'))
    (code : Int) (h : ∀ ended : Child, ended.alive = false → post (result ended) []) :
    Keeps (runningOf (some child)) (child'.finish code >>= fun ended => pure (result ended))
      post := by
  rw [hsame]
  apply (keeps_finish child' code).bind
  intro ended now hended
  obtain ⟨halive, rfl⟩ := hended
  exact Keeps.pure (h ended halive)

/-- A program that is there begins as a child that runs. -/
theorem keeps_spawn (command : List String) :
    Keeps [] (spawn command) fun started now => now = runningOf started.toOption := by
  intro hbefore host
  -- A request alone starts nothing: the program is refused, or there are no plans left.
  have hnone : Journal.Leads [] [.request (.spawn command)] [] := .cons hbefore (.nil hbefore)
  cases host with
  | mk plans started =>
    cases plans with
    | nil => exact ⟨_, rfl, ⟨.of_begun_eq_nil rfl _, rfl⟩, [], hnone, rfl⟩
    | cons plan plans =>
      cases plan with
      | error refusal => exact ⟨_, rfl, ⟨.of_begun_eq_nil rfl _, rfl⟩, [], hnone, rfl⟩
      | ok plan =>
        refine ⟨[.request (.spawn command), .began started], List.append_assoc _ _ _,
          ⟨⟨1, rfl, rfl⟩, rfl⟩, [started], ?_, rfl⟩
        exact .cons hbefore (.cons hbefore (.nil (Nat.le_refl 1)))

/-- What is written may make a child end, or find it gone. -/
theorem keeps_write (child : Child) (data : String) :
    Keeps (runningOf (some child)) (child.write data) fun written now =>
      now = runningOf (some written.2) := by
  have hended : ∀ ended : Child, ended.alive = false → [] = runningOf (some ended) :=
    fun ended h => (runningOf_of_not_alive h).symm
  unfold write
  apply Keeps.record_bind rfl
  cases child.turns with
  | nil =>
    refine keeps_finish_pure ?_ 0 hended
    rfl
  | cons turn turns =>
    cases turn with
    | brokenPipe => exact Keeps.pure rfl
    | answer out interrupt exit =>
      cases exit with
      | none => exact Keeps.pure rfl
      | some code =>
        refine keeps_finish_pure ?_ code hended
        rfl

/-- A child that was waited for has ended if it gave an exit code, and without a limit it
    always gives one. -/
theorem keeps_wait (child : Child) (seconds : Option Nat) :
    Keeps (runningOf (some child)) (child.wait seconds) fun waited now =>
      now = runningOf (some waited.2) ∧ (waited.1.isSome = true → waited.2.alive = false) ∧
        (seconds = none → waited.1.isSome = true) := by
  unfold wait
  apply Keeps.record_bind rfl
  cases hexit : child.exitCode with
  | some code =>
    have hended : child.alive = false := by
      rw [alive, hexit]
      rfl
    exact Keeps.pure ⟨rfl, fun _ => hended, fun _ => rfl⟩
  | none =>
    show Keeps _ (if (child.stuck && seconds.isSome) = true then _ else _) _
    by_cases houtlasts : (child.stuck && seconds.isSome) = true
    · rw [if_pos houtlasts]
      refine Keeps.pure ⟨rfl, nofun, ?_⟩
      intro hseconds
      rw [hseconds, Option.isSome_none, Bool.and_false] at houtlasts
      cases houtlasts
    · rw [if_neg houtlasts]
      apply keeps_finish_pure rfl 0
      intro ended halive
      exact ⟨(runningOf_of_not_alive halive).symm, fun _ => halive, fun _ => rfl⟩

theorem keeps_terminate (child : Child) :
    Keeps (runningOf (some child)) child.terminate fun child' now =>
      now = runningOf (some child') := by
  unfold terminate
  apply Keeps.record_bind rfl
  by_cases hstuck : child.stuck = true
  · rw [if_pos hstuck]
    exact Keeps.pure rfl
  · rw [if_neg hstuck]
    apply (keeps_finish child (-15)).mono
    intro child' now hchild
    obtain ⟨hended, rfl⟩ := hchild
    exact (runningOf_of_not_alive hended).symm

theorem keeps_kill (child : Child) :
    Keeps (runningOf (some child)) child.kill fun child' now =>
      child'.alive = false ∧ now = [] :=
  Keeps.record_bind rfl (keeps_finish child (-9))

end Child

/-! ### Sessions -/

namespace Session

open Child (runningOf)

/-- A child that is stopped ends, stuck or not. -/
theorem keeps_stop (child : Child) :
    Keeps (runningOf (some child)) (stop child) fun _ now => now = [] := by
  unfold stop
  apply child.keeps_terminate.bind
  intro asked now hasked
  rw [hasked]
  apply (asked.keeps_wait (some grace)).bind
  rintro ⟨code, waited⟩ now ⟨rfl, hended, _⟩
  show Keeps _ (if code.isSome = true then _ else _) _
  by_cases hcode : code.isSome = true
  · rw [if_pos hcode]
    exact Keeps.pure (Child.runningOf_of_not_alive (hended hcode))
  · -- The child outlasted its grace.  It is killed, so that waiting again has an end.
    rw [if_neg hcode]
    apply waited.keeps_kill.bind
    rintro killed now ⟨halive, rfl⟩
    have hwait := killed.keeps_wait none
    rw [Child.runningOf_of_not_alive halive] at hwait
    apply hwait.bind
    rintro ⟨code, waited⟩ now ⟨rfl, hended, hcode⟩
    exact Keeps.pure (Child.runningOf_of_not_alive (hended (hcode rfl)))

theorem keeps_close (session : Session) :
    Keeps (runningOf session.child) session.close fun _ now => now = [] := by
  unfold close
  cases session.child with
  | none => exact Keeps.pure rfl
  | some child =>
    show Keeps _ (if child.alive = true then _ else _) _
    by_cases halive : child.alive = true
    · rw [if_pos halive]
      apply (keeps_stop child).bind
      intro _ now hnow
      exact Keeps.pure hnow
    · rw [if_neg halive]
      exact Keeps.pure (Child.runningOf_of_not_alive (Bool.eq_false_iff.mpr halive))

/-- The child of a session that was started, where it was. -/
theorem keeps_start (session : Session) :
    Keeps [] session.start fun started now =>
      now = runningOf (started.toOption.bind Session.child) := by
  unfold start
  apply Keeps.record_bind rfl
  apply (Child.keeps_spawn _).bind
  intro started now hstarted
  rw [hstarted]
  cases started with
  | ok child => exact Keeps.pure rfl
  | error refusal => exact Keeps.pure rfl

theorem keeps_receive (child : Child) :
    Keeps (runningOf (some child)) (receive child) fun received now =>
      now = runningOf (some received.2) := by
  unfold receive
  cases takeAnswer child.buffer with
  | mk answer rest =>
    cases answer with
    | reply output reply => exact Keeps.pure rfl
    | silence output =>
      show Keeps (runningOf (some { child with buffer := rest }))
        (if child.interrupt = true then _ else _) _
      by_cases hinterrupt : child.interrupt = true
      · rw [if_pos hinterrupt]
        exact Keeps.pure rfl
      · rw [if_neg hinterrupt]
        apply (Child.keeps_wait _ none).bind
        rintro ⟨code, waited⟩ now ⟨hnow, _⟩
        apply Keeps.record_bind rfl
        exact Keeps.pure hnow

/-- However an evaluation comes out, the session has the child that runs. -/
theorem keeps_execute (session : Session) (code : String) :
    Keeps (runningOf session.child) (session.execute code) fun answer now =>
      now = runningOf answer.2.child := by
  unfold execute
  cases hchild : session.child with
  | none =>
    apply Keeps.pure
    rw [hchild]
  | some child =>
    show Keeps _ (if (!child.alive) = true then _ else _) _
    by_cases hended : (!child.alive) = true
    · rw [if_pos hended]
      apply Keeps.pure
      rw [hchild]
    · rw [if_neg hended]
      apply (child.keeps_write (request code)).bind
      rintro ⟨sent, written⟩ now rfl
      show Keeps _ (if (!sent) = true then _ else _) _
      by_cases hsent : (!sent) = true
      · rw [if_pos hsent]
        exact Keeps.pure rfl
      · rw [if_neg hsent]
        apply Keeps.record_bind rfl
        apply (keeps_receive written).bind
        rintro ⟨result, received⟩ now rfl
        exact Keeps.pure rfl

end Session

/-! ### The shell -/

namespace Shell

/-- The child of a shell that runs, if it has a session and its child has not ended. -/
def runningOf (session : Option Session) : List Nat := Child.runningOf (session.bind Session.child)

theorem keeps_startSession (settings : Settings) :
    Keeps [] (startSession settings) fun started now =>
      now = runningOf started.toOption.join := by
  unfold startSession
  apply (Session.keeps_start _).bind
  intro started now hstarted
  rw [hstarted]
  cases started with
  | ok session => exact Keeps.pure rfl
  | error refusal =>
    show Keeps _ (if refusal = .missing then _ else _) _
    by_cases hmissing : refusal = .missing
    · rw [if_pos hmissing]
      apply Keeps.record_bind rfl
      exact Keeps.pure rfl
    · rw [if_neg hmissing]
      exact Keeps.pure rfl

theorem keeps_endSession (session : Option Session) :
    Keeps (runningOf session) (endSession session) fun _ now => now = [] := by
  cases session with
  | none => exact Keeps.pure rfl
  | some session =>
    apply session.keeps_close.bind
    intro _ now hnow
    exact Keeps.pure hnow

theorem quiet_showVerdict (verdict : Option (Json × (String → String))) :
    Quiet (showVerdict verdict) := by
  cases verdict with
  | none => exact Quiet.pure _
  | some verdict =>
    obtain ⟨value, paint⟩ := verdict
    rw [showVerdict]
    cases value.display? with
    | none => exact Quiet.pure _
    | some text => exact (Quiet.record rfl).bind fun _ => Quiet.pure _

theorem quiet_present (result : Session.Result) : Quiet (present result) := by
  intro before
  unfold present
  apply (Quiet.record rfl).keeps_ite_bind
  exact quiet_showVerdict (verdict? result) before

/-- The child that runs after a line. -/
def Next.running : Next → List Nat
  | .again session => runningOf session
  | .stop session _ => runningOf session

/-- The old child is gone before another one begins. -/
theorem keeps_restart (settings : Settings) (session : Session) :
    Keeps (runningOf (some session)) (restart settings session) fun next now =>
      now = next.running := by
  apply Keeps.record_bind rfl
  apply (keeps_endSession (some session)).bind
  rintro _ now rfl
  apply (keeps_startSession settings).bind
  rintro restarted now rfl
  cases restarted with
  | ok session => exact Keeps.pure rfl
  | error fault => exact Keeps.pure rfl

/-- An interrupt ends the child and may start another; all else leaves the session as it
    came out of the evaluation. -/
theorem keeps_evaluate (settings : Settings) (session : Session) (text : String) :
    Keeps (runningOf (some session)) (evaluate settings session text) fun next now =>
      now = next.running := by
  unfold evaluate
  apply (session.keeps_execute text).bind
  rintro ⟨answer, session⟩ now rfl
  cases answer with
  | ok result =>
    apply (quiet_present result).keeps_bind
    intro presented
    cases presented with
    | error fault => exact Keeps.pure rfl
    | ok _ =>
      apply Keeps.pure
      by_cases hclosed : result.closed = true
      · rw [if_pos hclosed]
        rfl
      · rw [if_neg hclosed]
        rfl
  | error fault =>
    cases fault with
    | interrupted => exact keeps_restart settings session
    | lost loss =>
      apply Keeps.record_bind rfl
      exact Keeps.pure rfl
    | _ => exact Keeps.pure rfl

theorem keeps_respond (settings : Settings) (session : Option Session) (line : String) :
    Keeps (runningOf session) (respond settings session line) fun next now =>
      now = next.running := by
  unfold respond
  apply (Quiet.forM (fun _ => Quiet.record rfl) _).keeps_bind
  intro _
  cases (compiler settings).line line with
  | error error =>
    apply Keeps.record_bind rfl
    exact Keeps.pure rfl
  | ok text =>
    apply (Quiet.record rfl).keeps_ite_bind
    cases session with
    | none =>
      apply Keeps.pure
      by_cases hexit : text = Operation.exitText
      · rw [if_pos hexit]
        rfl
      · rw [if_neg hexit]
        rfl
    | some session =>
      show Keeps _ (if text = "" then _ else _) _
      by_cases hempty : text = ""
      · rw [if_pos hempty]
        exact Keeps.pure rfl
      · rw [if_neg hempty]
        exact keeps_evaluate settings session text

theorem keeps_leave (session : Option Session) (interrupted : Bool) :
    Keeps (runningOf session) (leave session interrupted) fun _ now => now = [] := by
  unfold leave
  apply (Quiet.record rfl).keeps_ite_bind
  apply (keeps_endSession session).bind
  rintro _ now rfl
  exact Keeps.pure rfl

/-- Line after line the child that runs is that of the session, and the last thing done
    is to end it. -/
theorem keeps_loop (settings : Settings) (interrupted : Bool) (session : Option Session)
    (lines : List String) :
    Keeps (runningOf session) (loop settings interrupted session lines) fun _ now => now = [] := by
  induction lines generalizing session with
  | nil =>
    apply Keeps.record_bind rfl
    exact keeps_leave session interrupted
  | cons line lines ih =>
    apply Keeps.record_bind rfl
    apply (keeps_respond settings session line).bind
    rintro next now rfl
    cases next with
    | again session => exact ih session
    | stop session result =>
      apply (keeps_endSession session).bind
      rintro _ now rfl
      exact Keeps.pure rfl

theorem keeps_start (settings : Settings) (execute : Bool) :
    Keeps [] (start settings execute) fun started now => now = runningOf started.toOption.join := by
  cases execute with
  | true =>
    apply (keeps_startSession settings).bind
    rintro started now rfl
    cases started with
    | error fault => exact Keeps.pure rfl
    | ok session => exact Keeps.record_bind rfl (Keeps.pure rfl)
  | false =>
    show Keeps [] (Host.outLine banner >>= fun _ => pure (Except.ok none)) _
    exact Keeps.record_bind rfl (Keeps.pure rfl)

theorem keeps_run (settings : Settings) (execute : Bool) (input : Input) :
    Keeps [] (run settings execute input) fun _ now => now = [] := by
  apply (keeps_start settings execute).bind
  rintro started now rfl
  cases started with
  | error fault => exact Keeps.pure rfl
  | ok session => exact keeps_loop settings input.interrupted session input.lines

/-- The shell leaves no child behind.  Whatever the input, the settings and the behaviour
    of the children, and however the run ends, at no time does more than one child run,
    and every child that was started has an exit code at the end. -/
theorem run_ends_every_child (settings : Settings) (execute : Bool) (input : Input) (host : Host) :
    let finished := (run settings execute input host).2
    ∃ entries, finished.journal = host.journal ++ entries ∧
      (∀ p, p <+: entries → (Journal.running p).length ≤ 1) ∧ Journal.running entries = [] ∧
      ∀ n, host.started ≤ n → n < finished.started → ∃ code, .ended n code ∈ entries := by
  intro finished
  obtain ⟨entries, hentries, haccounts, running, hleads, rfl⟩ :=
    keeps_run settings execute input (Nat.zero_le 1) host
  refine ⟨entries, hentries, ?_, hleads.foldl_eq, ?_⟩
  · intro p hp
    exact hleads.length_foldl_le hp
  · intro n hfirst hlast
    have hbegan := haccounts.numbers.began_mem hfirst hlast
    have hnot : n ∉ entries.foldl Journal.track [] := by
      rw [hleads.foldl_eq]
      exact List.not_mem_nil
    exact Journal.exists_ended (.inr hbegan) hnot

/-- An interrupt costs a stuck child its life, and the next one is stuck too. -/
theorem run_ends_every_child_stuck :
    let stuck : Plan := { turns := [.answer "" true none], stuck := true, out := "" }
    let finished := (run {} true (.ofText "(f)\n" true) { plans := [.ok stuck, .ok stuck] }).2
    finished.started = 2 ∧ ∃ code, .ended 1 code ∈ finished.journal := by
  intro stuck finished
  have hstarted : finished.started = 2 := by decide +kernel
  obtain ⟨entries, hentries, _, _, hended⟩ :=
    run_ends_every_child {} true (.ofText "(f)\n" true) { plans := [.ok stuck, .ok stuck] }
  obtain ⟨code, hcode⟩ := hended 1 (Nat.zero_le 1) (by rw [hstarted]; decide)
  refine ⟨hstarted, code, ?_⟩
  rw [hentries]
  exact hcode

end Shell

end SexpScript
