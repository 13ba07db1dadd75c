import SexpScript.Proofs.Children

/-! # Children that a session loses

    Whoever holds a session may start it, give it code and close it in any order.  A
    session knows one child.  When it is started while that child runs, the child stays
    behind: nothing that is done with the session later ends it.

    - `use` is one thing done with a session, `useAll` one thing after another.
    - `abandoned` are the children that were still running when the session was started
      again.
    - `Tends` says that an action ends no child but those of the session, so that the
      abandoned ones are a frame around all that the session does.

    The children that run are that of the session and the abandoned ones.  So there is
    at most one at any time, and none behind a close, exactly when none was abandoned.
-/

namespace SexpScript

/-! ### Frames -/

namespace Journal

/-- Children that no entry ends run on beside the others. -/
theorem foldl_track_append {entries : Journal} {others : List Nat}
    (h : ∀ n code, .ended n code ∈ entries → n ∉ others) (before : List Nat) :
    entries.foldl track (before ++ others) = entries.foldl track before ++ others := by
  induction entries generalizing before with
  | nil => rfl
  | cons entry entries ih =>
    have hentry : track (before ++ others) entry = track before entry ++ others := by
      cases entry with
      | ended n code =>
        have hn : n ∉ others := h n code List.mem_cons_self
        have hothers : others.filter (· ≠ n) = others := by
          rw [List.filter_eq_self]
          intro m hm
          exact decide_eq_true fun heq => hn (heq ▸ hm)
        show (before ++ others).filter (· ≠ n) = before.filter (· ≠ n) ++ others
        rw [List.filter_append, hothers]
      | _ => rfl
    rw [List.foldl_cons, List.foldl_cons, hentry]
    exact ih (fun n code hended => h n code (List.mem_cons_of_mem entry hended)) _

/-- The entries lead from `before` to `after`, and at no time do more than `most`
    children run. -/
structure Passes (most : Nat) (before : List Nat) (entries : Journal) (after : List Nat) :
    Prop where
  foldl_eq : entries.foldl track before = after
  length_le : ∀ p, p <+: entries → (p.foldl track before).length ≤ most

theorem Passes.mono {most most' : Nat} {before after : List Nat} {entries : Journal}
    (h : Passes most before entries after) (hle : most ≤ most') :
    Passes most' before entries after :=
  ⟨h.foldl_eq, fun p hp => Nat.le_trans (h.length_le p hp) hle⟩

theorem Passes.append {most : Nat} {before middle after : List Nat} {xs ys : Journal}
    (hxs : Passes most before xs middle) (hys : Passes most middle ys after) :
    Passes most before (xs ++ ys) after := by
  constructor
  · rw [List.foldl_append, hxs.foldl_eq, hys.foldl_eq]
  · intro p hp
    -- The prefix ends among the first entries or goes on into the others.
    obtain ⟨rest, hrest⟩ := hp
    rcases List.append_eq_append_iff.mp hrest with ⟨more, hmore, _⟩ | ⟨q, rfl, hq⟩
    · exact hxs.length_le p ⟨more, hmore.symm⟩
    · rw [List.foldl_append, hxs.foldl_eq]
      exact hys.length_le q ⟨rest, hq.symm⟩

/-- What leads on with one child at most does so beside others that it does not end. -/
theorem Leads.passes {before after others : List Nat} {entries : Journal}
    (h : Leads before entries after) (hothers : ∀ n code, .ended n code ∈ entries → n ∉ others) :
    Passes (1 + others.length) (before ++ others) entries (after ++ others) := by
  constructor
  · rw [foldl_track_append hothers, h.foldl_eq]
  · intro p hp
    have hp' : ∀ n code, .ended n code ∈ p → n ∉ others :=
      fun n code hended => hothers n code (hp.subset hended)
    rw [foldl_track_append hp', List.length_append]
    exact Nat.add_le_add_right (h.length_foldl_le hp) _

theorem Numbers.le {first next : Nat} {entries : Journal} (h : Numbers first entries next) :
    first ≤ next := by
  obtain ⟨count, _, rfl⟩ := h
  exact Nat.le_add_right first count

end Journal

/-! ### Children that are tended -/

/-- A child, if there is one, whose number is such that `P`. -/
def Child.Belongs (P : Nat → Prop) : Option Child → Prop
  | some child => P child.number
  | none => True

theorem Child.Belongs.imp {P Q : Nat → Prop} {child : Option Child} (h : Child.Belongs P child)
    (himp : ∀ n, P n → Q n) : Child.Belongs Q child := by
  cases child with
  | none => trivial
  | some child => exact himp child.number h

theorem Child.Belongs.of_mem_runningOf {P : Nat → Prop} {child : Option Child}
    (h : Child.Belongs P child) {n : Nat} (hn : n ∈ Child.runningOf child) : P n := by
  cases child with
  | none => exact absurd hn List.not_mem_nil
  | some child =>
    unfold Child.runningOf at hn
    obtain ⟨_, hn⟩ := List.mem_ite_nil_right.mp hn
    rw [List.mem_singleton.mp hn]
    exact h

/-- An action that ends only children whose numbers are such that `P`, and whose result
    has such a child, if any. -/
def Tends {α : Type} (P : Nat → Prop) (action : Action α) (child : α → Option Child) : Prop :=
  Emits action fun a entries =>
    Child.Belongs P (child a) ∧ ∀ n code, .ended n code ∈ entries → P n

namespace Tends

variable {α β : Type} {P : Nat → Prop} {child : α → Option Child} {child' : β → Option Child}

protected theorem pure {a : α} (h : Child.Belongs P (child a)) : Tends P (pure a) child :=
  Emits.pure ⟨h, fun _ _ hended => absurd hended List.not_mem_nil⟩

protected theorem bind {action : Action α} {next : α → Action β} (h : Tends P action child)
    (hnext : ∀ a, Child.Belongs P (child a) → Tends P (next a) child') :
    Tends P (action >>= next) child' := by
  apply Emits.bind h
  rintro a xs ⟨ha, hxs⟩
  apply Emits.mono (hnext a ha)
  rintro b ys ⟨hb, hys⟩
  refine ⟨hb, fun n code hended => ?_⟩
  rcases List.mem_append.mp hended with hended | hended
  · exact hxs n code hended
  · exact hys n code hended

theorem record_bind {entry : Entry} {next : Unit → Action α} (hentry : entry.isQuiet = true)
    (h : Tends P (next ()) child) : Tends P (Host.record entry >>= next) child := by
  have hrecord : Tends P (Host.record entry) fun _ => none := by
    refine Emits.record (Entry.isStart_of_isQuiet hentry) ⟨trivial, fun n code hended => ?_⟩
    rw [← List.mem_singleton.mp hended] at hentry
    cases hentry
  exact hrecord.bind fun _ _ => h

protected theorem ite {c : Prop} [Decidable c] {yes no : Action α} (hyes : Tends P yes child)
    (hno : Tends P no child) : Tends P (if c then yes else no) child := by
  by_cases hc : c
  · rw [if_pos hc]
    exact hyes
  · rw [if_neg hc]
    exact hno

end Tends

namespace Child

variable {P : Nat → Prop} {child : Child}

theorem tends_finish (h : P child.number) (code : Int) : Tends P (child.finish code) some := by
  apply (child.emits_finish code).mono
  rintro _ _ ⟨rfl, rfl⟩
  refine ⟨h, fun n code' hended => ?_⟩
  cases List.mem_singleton.mp hended
  exact h

theorem tends_write (h : P child.number) (data : String) :
    Tends P (child.write data) fun written => some written.2 := by
  unfold write
  apply Tends.record_bind rfl
  cases child.turns with
  | nil =>
    refine Tends.bind (tends_finish ?_ 0) fun _ => Tends.pure
    exact h
  | cons turn turns =>
    cases turn with
    | brokenPipe => exact Tends.pure h
    | answer out interrupt exit =>
      cases exit with
      | none => exact Tends.pure h
      | some code =>
        refine Tends.bind (tends_finish ?_ code) fun _ => Tends.pure
        exact h

theorem tends_wait (h : P child.number) (seconds : Option Nat) :
    Tends P (child.wait seconds) fun waited => some waited.2 := by
  unfold wait
  apply Tends.record_bind rfl
  cases child.exitCode with
  | some code => exact Tends.pure h
  | none => exact .ite (.pure h) ((tends_finish h 0).bind fun _ => Tends.pure)

theorem tends_terminate (h : P child.number) : Tends P child.terminate some :=
  .record_bind rfl (.ite (.pure h) (tends_finish h (-15)))

theorem tends_kill (h : P child.number) : Tends P child.kill some :=
  .record_bind rfl (tends_finish h (-9))

end Child

namespace Session

variable {P : Nat → Prop}

theorem tends_stop {child : Child} (h : P child.number) : Tends P (stop child) some := by
  unfold stop
  apply (Child.tends_terminate h).bind
  intro asked hasked
  apply (Child.tends_wait hasked (some grace)).bind
  rintro ⟨code, waited⟩ hwaited
  apply Tends.ite
  · exact Tends.pure hwaited
  · apply (Child.tends_kill hwaited).bind
    intro killed hkilled
    exact (Child.tends_wait hkilled none).bind fun _ => Tends.pure

theorem tends_close {session : Session} (h : Child.Belongs P session.child) :
    Tends P session.close child := by
  unfold close
  cases hchild : session.child with
  | none => exact Tends.pure (hchild ▸ h)
  | some child =>
    rw [hchild] at h
    exact .ite ((tends_stop h).bind fun _ _ => Tends.pure trivial) (.pure trivial)

theorem tends_receive {child : Child} (h : P child.number) :
    Tends P (receive child) fun received => some received.2 := by
  unfold receive
  cases takeAnswer child.buffer with
  | mk answer rest =>
    cases answer with
    | reply output reply => exact Tends.pure h
    | silence output =>
      apply Tends.ite
      · exact Tends.pure h
      · refine Tends.bind (Child.tends_wait ?_ none) ?_
        · exact h
        · rintro ⟨code, waited⟩ hwaited
          exact .record_bind rfl (.pure hwaited)

theorem tends_execute {session : Session} (h : Child.Belongs P session.child) (code : String) :
    Tends P (session.execute code) fun answer => answer.2.child := by
  unfold execute
  cases hchild : session.child with
  | none => exact Tends.pure h
  | some child =>
    have hnumber : P child.number := by
      rw [hchild] at h
      exact h
    apply Tends.ite
    · exact Tends.pure h
    · apply (Child.tends_write hnumber (request code)).bind
      rintro ⟨sent, written⟩ hwritten
      apply Tends.ite
      · exact Tends.pure hwritten
      · apply Tends.record_bind rfl
        apply (tends_receive hwritten).bind
        rintro ⟨result, received⟩ hreceived
        exact Tends.pure hreceived

end Session

/-! ### Uses of a session -/

/-- Whether a program can be started now. -/
def Host.canStart (host : Host) : Bool := host.nextPlan.isOk

namespace Session

open Child (runningOf)

/-- What can be done with a session. -/
inductive Use where
  | start
  /-- A block that works with the session begins. -/
  | enter
  | execute (code : String)
  | close
  /-- Such a block ends. -/
  | exit
  deriving DecidableEq, Repr

/-- Whether a use starts the session. -/
def Use.starts : Use → Bool
  | .start | .enter => true
  | _ => false

/-- Whether a use closes the session. -/
def Use.closes : Use → Bool
  | .close | .exit => true
  | _ => false

/-- Do one thing with a session. -/
def use (session : Session) : Use → Action Session
  | .start | .enter => do
      match ← session.start with
      | .ok started => return started
      | .error _ => return session
  | .execute code => do return (← session.execute code).2
  | .close | .exit => session.close

/-- Do one thing after another with a session. -/
def useAll (session : Session) : List Use → Action Session
  | [] => pure session
  | use :: uses => do (← session.use use).useAll uses

/-- The child that a use leaves behind: it runs, and the session gets another. -/
def replaced (session : Session) (use : Use) (host : Host) : List Nat :=
  if use.starts && host.canStart then runningOf session.child else []

/-- The children that were left behind, last first. -/
def abandoned (session : Session) : List Use → Host → List Nat
  | [], _ => []
  | use :: uses, host =>
      let used := session.use use host
      used.1.abandoned uses used.2 ++ session.replaced use host

/-- The child of the session is none of those left behind, and all began before `next`. -/
structure Apart (session : Session) (lost : List Nat) (next : Nat) : Prop where
  child : Child.Belongs (fun n => n < next ∧ n ∉ lost) session.child
  lost : ∀ n ∈ lost, n < next

/-- What `entries` say of the children, from a session on a host to the session and the
    host `used`, when those left behind are `lost` before and `lost'` after. -/
structure Follows (session : Session) (lost : List Nat) (host : Host) (used : Session × Host)
    (lost' : List Nat) (entries : Journal) : Prop where
  journal : used.2.journal = host.journal ++ entries
  passes : Journal.Passes (1 + lost'.length) (runningOf session.child ++ lost) entries
    (runningOf used.1.child ++ lost')
  /-- When a child is left behind, two run. -/
  crowded : lost.length < lost'.length → ∃ p, p <+: entries ∧
    2 ≤ (p.foldl Journal.track (runningOf session.child ++ lost)).length
  apart : used.1.Apart lost' used.2.started

/-- One step after another. -/
theorem Follows.trans {session : Session} {lost lost' lost'' : List Nat} {host : Host}
    {used used' : Session × Host} {xs ys : Journal} (hxs : Follows session lost host used lost' xs)
    (hys : Follows used.1 lost' used.2 used' lost'' ys) (hle : lost'.length ≤ lost''.length) :
    Follows session lost host used' lost'' (xs ++ ys) where
  journal := by rw [hys.journal, hxs.journal, List.append_assoc]
  passes := (hxs.passes.mono (Nat.add_le_add_left hle 1)).append hys.passes
  crowded := by
    intro hlost
    rcases Nat.lt_or_ge lost.length lost'.length with hfirst | hfirst
    · obtain ⟨p, hp, htwo⟩ := hxs.crowded hfirst
      exact ⟨p, hp.trans (List.prefix_append xs ys), htwo⟩
    · obtain ⟨q, hq, htwo⟩ := hys.crowded (Nat.lt_of_le_of_lt hfirst hlost)
      refine ⟨xs ++ q, (List.prefix_append_right_inj xs).mpr hq, ?_⟩
      rw [List.foldl_append, hxs.passes.foldl_eq]
      exact htwo
  apart := hys.apart

/-- What keeps to the child of the session passes by those left behind. -/
theorem follows_of_tends {session : Session} {lost : List Nat} {host : Host}
    (h : session.Apart lost host.started) {action : Action Session}
    (hkeeps : Keeps (runningOf session.child) action fun used now => now = runningOf used.child)
    (htends : ∀ {P : Nat → Prop}, Child.Belongs P session.child → Tends P action child) :
    ∃ entries, Follows session lost host (action host) lost entries := by
  have hrunning := hkeeps (Child.length_runningOf_le session.child)
  -- The numbers below `next` that are not lost are those that the action may end.
  obtain ⟨entries, hjournal, haccounts, ⟨_, hleads, rfl⟩, hchild, hended⟩ :=
    hrunning.and (htends h.child) host
  have hle : host.started ≤ (action host).2.started := haccounts.numbers.le
  refine ⟨entries, hjournal, hleads.passes fun n code hn => (hended n code hn).2, ?_, ?_, ?_⟩
  · exact fun hlt => absurd hlt (Nat.lt_irrefl _)
  · exact hchild.imp fun n hn => ⟨Nat.lt_of_lt_of_le hn.1 hle, hn.2⟩
  · exact fun n hn => Nat.lt_of_lt_of_le (h.lost n hn) hle

theorem close_child (session : Session) (host : Host) : (session.close host).1.child = none := by
  unfold close
  cases hchild : session.child with
  | none => exact hchild
  | some child =>
    show ((if child.alive = true then _ else _ : Action Session) host).1.child = none
    by_cases halive : child.alive = true
    · rw [if_pos halive]
      rfl
    · rw [if_neg halive]
      rfl

theorem follows_close {session : Session} {lost : List Nat} {host : Host}
    (h : session.Apart lost host.started) :
    ∃ entries, Follows session lost host (session.close host) lost entries := by
  refine follows_of_tends h ?_ tends_close
  intro hbefore host
  obtain ⟨entries, hjournal, haccounts, after, hleads, rfl⟩ := session.keeps_close hbefore host
  refine ⟨entries, hjournal, haccounts, [], hleads, ?_⟩
  show [] = runningOf (session.close host).1.child
  rw [close_child]
  rfl

theorem follows_execute {session : Session} {lost : List Nat} {host : Host}
    (h : session.Apart lost host.started) (code : String) :
    ∃ entries, Follows session lost host (session.use (.execute code) host) lost entries := by
  apply follows_of_tends h
  · apply (session.keeps_execute code).bind
    intro answer now hnow
    exact Keeps.pure hnow
  · intro P hchild
    exact (tends_execute hchild code).bind fun _ => Tends.pure

/-- A child that begins leaves the one that runs behind.  When the program is refused all
    stays as it was. -/
theorem follows_start {session : Session} {lost : List Nat} {host : Host}
    (h : session.Apart lost host.started) :
    ∃ entries, Follows session lost host (session.use .start host)
      (session.replaced .start host ++ lost) entries := by
  have hzero : ([] : List Nat).length ≤ 1 := Nat.zero_le 1
  have hlength := Child.length_runningOf_le session.child
  cases host with
  | mk plans started =>
    have hmissing : ∀ command : List String, Journal.Passes (1 + lost.length)
        (runningOf session.child ++ lost)
        [.notice (.sessionStarting session.binary), .request (.spawn command)]
        (runningOf session.child ++ lost) :=
      fun command => Journal.Leads.passes (.cons hlength (.cons hlength (.nil hlength))) nofun
    cases plans with
    | nil =>
      refine ⟨_, List.append_assoc _ _ _, hmissing _, ?_, h⟩
      exact fun hlt => absurd hlt (Nat.lt_irrefl _)
    | cons plan plans =>
      cases plan with
      | error refusal =>
        refine ⟨_, List.append_assoc _ _ _, hmissing _, ?_, h⟩
        exact fun hlt => absurd hlt (Nat.lt_irrefl _)
      | ok plan =>
        -- To the child that begins all others are a frame, the one that it replaces too.
        have hbegan : Journal.Leads [] [.notice (.sessionStarting session.binary),
            .request (.spawn [session.binary, "-e", script]), .began started] [started] :=
          .cons hzero (.cons hzero (.cons hzero (.nil (Nat.le_refl 1))))
        have hpasses : Journal.Passes (1 + (runningOf session.child ++ lost).length)
            (runningOf session.child ++ lost) _ (started :: (runningOf session.child ++ lost)) :=
          hbegan.passes nofun
        have hold : ∀ n ∈ runningOf session.child ++ lost, n < started := by
          intro n hn
          rcases List.mem_append.mp hn with hn | hn
          · exact (h.child.of_mem_runningOf hn).1
          · exact h.lost n hn
        refine ⟨_, ?_, hpasses, ?_, ?_, ?_⟩
        · show (_ ++ [_]) ++ [_] ++ [_] = _
          rw [List.append_assoc, List.append_assoc]
          rfl
        · intro hlt
          refine ⟨_, List.prefix_rfl, ?_⟩
          rw [hpasses.foldl_eq]
          exact Nat.succ_le_succ (Nat.lt_of_le_of_lt (Nat.zero_le _) hlt)
        · exact ⟨Nat.lt_succ_self started, fun hn => Nat.lt_irrefl _ (hold _ hn)⟩
        · exact fun n hn => Nat.lt_succ_of_lt (hold n hn)

theorem follows_use {session : Session} {lost : List Nat} {host : Host}
    (h : session.Apart lost host.started) (use : Use) :
    ∃ entries, Follows session lost host (session.use use host)
      (session.replaced use host ++ lost) entries := by
  cases use with
  | start => exact follows_start h
  | enter => exact follows_start h
  | execute code => exact follows_execute h code
  | close => exact follows_close h
  | exit => exact follows_close h

/-- Use after use the children that run are that of the session and those left behind. -/
theorem follows_useAll {session : Session} {lost : List Nat} {host : Host}
    (h : session.Apart lost host.started) (uses : List Use) :
    ∃ entries, Follows session lost host (session.useAll uses host)
      (session.abandoned uses host ++ lost) entries := by
  induction uses generalizing session lost host with
  | nil => exact follows_of_tends h (Keeps.pure rfl) Tends.pure
  | cons use uses ih =>
    obtain ⟨xs, hxs⟩ := follows_use h use
    obtain ⟨ys, hys⟩ := ih hxs.apart
    -- Those that the first use leaves behind belong to the frame of all the others.
    have hle := (List.suffix_append ((session.use use host).1.abandoned uses
      (session.use use host).2) (session.replaced use host ++ lost)).length_le
    refine ⟨xs ++ ys, ?_⟩
    rw [abandoned, List.append_assoc]
    exact hxs.trans hys hle

theorem use_child_of_closes (session : Session) {use : Use} (h : use.closes = true) (host : Host) :
    (session.use use host).1.child = none := by
  cases use with
  | close => exact session.close_child host
  | exit => exact session.close_child host
  | _ => cases h

theorem useAll_child_of_closes (session : Session) {uses : List Use} {use : Use}
    (hlast : uses.getLast? = some use) (h : use.closes = true) (host : Host) :
    (session.useAll uses host).1.child = none := by
  induction uses generalizing session host with
  | nil => cases hlast
  | cons first uses ih =>
    cases uses with
    | nil =>
      cases hlast
      exact session.use_child_of_closes h host
    | cons second uses => exact ih (session.use first host).1 hlast (session.use first host).2

/-- The children of a session.  Whatever is done with it, in whatever order and however
    its children behave, those that run are its own, if that has not ended, and those that
    it was started over.  So at no time does more than one run exactly if it was never
    started while its child ran, and behind a close just those run that it was started
    over. -/
theorem running_useAll (binary : String) (uses : List Use) (host : Host) :
    let session : Session := { binary }
    let used := session.useAll uses host
    let abandoned := session.abandoned uses host
    ∃ entries, used.2.journal = host.journal ++ entries ∧
      Journal.running entries = runningOf used.1.child ++ abandoned ∧
      (∀ p, p <+: entries → (Journal.running p).length ≤ 1 + abandoned.length) ∧
      ((∀ p, p <+: entries → (Journal.running p).length ≤ 1) ↔ abandoned = []) ∧
      ∀ use, uses.getLast? = some use → use.closes = true →
        Journal.running entries = abandoned := by
  intro session used abandoned
  have hfresh : session.Apart [] host.started := ⟨trivial, List.forall_mem_nil _⟩
  obtain ⟨entries, hfollows⟩ := follows_useAll hfresh uses
  rw [List.append_nil] at hfollows
  have hrunning : Journal.running entries = runningOf used.1.child ++ abandoned :=
    hfollows.passes.foldl_eq
  refine ⟨entries, hfollows.journal, hrunning, hfollows.passes.length_le, ⟨?_, ?_⟩, ?_⟩
  · intro hone
    -- Had a child been left behind, two would have run.
    apply Classical.byContradiction
    intro hsome
    obtain ⟨p, hp, htwo⟩ := hfollows.crowded (List.length_pos_iff.mpr hsome)
    exact absurd (hone p hp) (Nat.not_le.mpr htwo)
  · intro hnone p hp
    have hle := hfollows.passes.length_le p hp
    rw [show session.abandoned uses host = [] from hnone] at hle
    exact hle
  · intro use hlast hcloses
    rw [hrunning, session.useAll_child_of_closes hlast hcloses host]
    rfl

/-- Closed before it is started again, a session leaves nothing behind, though its
    children are stuck and one is gone when it is written to. -/
theorem running_useAll_reopened :
    let stuck : Plan := { turns := [.brokenPipe], stuck := true, out := "" }
    let host : Host := { plans := [.ok stuck, .ok stuck] }
    let used := Session.useAll { binary := "node" }
      [.start, .execute "f()", .close, .enter, .exit] host
    used.2.started = 2 ∧ Journal.running used.2.journal = [] ∧
      ∀ p, p <+: used.2.journal → (Journal.running p).length ≤ 1 := by
  intro stuck host used
  obtain ⟨entries, hjournal, _, _, hone, hclosed⟩ :=
    running_useAll "node" [.start, .execute "f()", .close, .enter, .exit] host
  have hnone : Session.abandoned { binary := "node" }
      [.start, .execute "f()", .close, .enter, .exit] host = [] := by decide +kernel
  have hentries : used.2.journal = entries := hjournal
  rw [hentries]
  exact ⟨by decide +kernel, (hclosed .exit rfl rfl).trans hnone, hone.mpr hnone⟩

/-- Started twice and then closed, a session leaves its first child running. -/
theorem running_useAll_started_twice :
    let plan : Plan := { turns := [], stuck := false, out := "" }
    let host : Host := { plans := [.ok plan, .ok plan] }
    let used := Session.useAll { binary := "node" } [.start, .enter, .close] host
    used.1.child = none ∧ Journal.running used.2.journal = [0] ∧
      ∃ p, p <+: used.2.journal ∧ Journal.running p = [1, 0] := by
  intro plan host used
  exact ⟨by decide +kernel, by decide +kernel, used.2.journal.take 6, List.take_prefix 6 _,
    by decide +kernel⟩

end Session

end SexpScript
