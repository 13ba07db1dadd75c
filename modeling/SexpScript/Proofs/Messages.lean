import SexpScript.Proofs.Children
import SexpScript.Proofs.Replies

/-! # What was sent to the children

    A journal says what was written, and from the children that began and ended before it also
    to whom.  This is what the journal of any run can be asked, whatever wrote it.

    - `sent` is what was written, each text with the children that ran then.
    - Children are numbered as they begin and at most one runs at a time, so what is sent
      later goes to the same child or to one that began later (`sentFrom_pairwise`).
    - `Starts` says of a journal that after a start without a child nothing is written.  A
      part of it cannot know that, since it depends on what comes after: `Resumes` says
      what that has to be.
-/

namespace SexpScript

/-! ### Kinds of entries -/

namespace Entry

/-- Whether an entry is meant for the user or for the log. -/
def isTalk : Entry → Bool
  | .out _ => true
  | .err _ => true
  | .notice _ => true
  | _ => false

/-- The text that is written to a child. -/
def written? : Entry → Option String
  | .request (.write data) => some data
  | _ => none

/-- Whether an entry neither starts a program nor writes to a child. -/
def isIdle (entry : Entry) : Bool := !entry.isSpawn && entry.written?.isNone

theorem isIdle_iff {entry : Entry} :
    entry.isIdle = true ↔ entry.isSpawn = false ∧ entry.written? = none := by
  simp [isIdle]

theorem isIdle_of_isTalk (entry : Entry) (h : entry.isTalk = true) : entry.isIdle = true := by
  cases entry with
  | request => cases h
  | _ => rfl

/-- Talk does not change which children run. -/
theorem track_of_isTalk {entry : Entry} (h : entry.isTalk = true) (running : List Nat) :
    Journal.track running entry = running := by
  cases entry with
  | began => cases h
  | ended => cases h
  | _ => rfl

end Entry

namespace Journal

/-! ### What was sent, and to whom -/

/-- What was written, text by text, each with the children that ran when it was written.  At
    first the children `running` run. -/
def sentFrom (running : List Nat) : Journal → List (List Nat × String)
  | [] => []
  | entry :: entries =>
      (entry.written?.map fun data => (running, data)).toList ++
        sentFrom (track running entry) entries

/-- What was written, each text with the children that ran then.  At first none does. -/
def sent (journal : Journal) : List (List Nat × String) := sentFrom [] journal

theorem writes_cons (entry : Entry) (entries : Journal) :
    writes (entry :: entries) = entry.written?.toList ++ writes entries := by
  show List.filterMap Entry.written? (entry :: entries) = _
  rw [List.filterMap_cons]
  cases entry.written? with
  | none => rfl
  | some data => rfl

theorem sentFrom_append (running : List Nat) (xs ys : Journal) :
    sentFrom running (xs ++ ys) = sentFrom running xs ++ sentFrom (xs.foldl track running) ys := by
  induction xs generalizing running with
  | nil => rfl
  | cons entry xs ih =>
    simp only [List.cons_append, sentFrom, ih, List.append_assoc, List.foldl_cons]

theorem map_snd_sentFrom (running : List Nat) (entries : Journal) :
    (sentFrom running entries).map Prod.snd = writes entries := by
  induction entries generalizing running with
  | nil => rfl
  | cons entry entries ih =>
    rw [sentFrom, List.map_append, ih, writes_cons]
    cases entry.written? with
    | none => rfl
    | some data => rfl

theorem sentFrom_eq_nil_iff {running : List Nat} {entries : Journal} :
    sentFrom running entries = [] ↔ writes entries = [] := by
  rw [← map_snd_sentFrom running, List.map_eq_nil_iff]

theorem writes_of_idle {entries : Journal} (h : ∀ entry ∈ entries, entry.isIdle = true) :
    writes entries = [] := by
  induction entries with
  | nil => rfl
  | cons entry entries ih =>
    rw [writes_cons, (Entry.isIdle_iff.mp (h entry List.mem_cons_self)).2,
      ih fun entry' hentry' => h entry' (List.mem_cons_of_mem entry hentry')]
    rfl

theorem foldl_track_of_talk {entries : Journal} (h : ∀ entry ∈ entries, entry.isTalk = true)
    (running : List Nat) : entries.foldl track running = running := by
  induction entries with
  | nil => rfl
  | cons entry entries ih =>
    rw [List.foldl_cons, Entry.track_of_isTalk (h entry List.mem_cons_self)]
    exact ih fun entry' hentry' => h entry' (List.mem_cons_of_mem entry hentry')

/-! ### Children in the order of their beginning -/

/-- One entry: a child that runs after it ran before, or has just begun under the first
    number that was free. -/
theorem begun_step {entry : Entry} {entries : Journal} {first count : Nat} (running : List Nat)
    (h : begun (entry :: entries) = List.range' first count) :
    ∃ first' count', begun entries = List.range' first' count' ∧ first ≤ first' ∧
      ∀ n ∈ track running entry, n ∈ running ∨ first ≤ n ∧ n < first' := by
  cases entry with
  | began child =>
    cases count with
    | zero => cases h
    | succ count =>
      rw [List.range'_succ] at h
      obtain ⟨rfl, hrest⟩ : child = first ∧ begun entries = List.range' (first + 1) count :=
        List.cons.inj h
      refine ⟨child + 1, count, hrest, Nat.le_succ child, ?_⟩
      intro n hn
      rcases List.mem_cons.mp hn with rfl | hn
      · exact .inr ⟨Nat.le_refl n, Nat.lt_succ_self n⟩
      · exact .inl hn
  | ended child code =>
    refine ⟨first, count, h, Nat.le_refl first, ?_⟩
    intro n hn
    exact .inl (List.mem_of_mem_filter hn)
  | _ => exact ⟨first, count, h, Nat.le_refl first, fun n hn => .inl hn⟩

/-- A child that runs when something is sent runs from the first, or has begun since. -/
theorem running_of_sentFrom {running : List Nat} {entries : Journal} {first count : Nat}
    (hbegun : begun entries = List.range' first count) {item : List Nat × String}
    (hitem : item ∈ sentFrom running entries) {n : Nat} (hn : n ∈ item.1) :
    n ∈ running ∨ first ≤ n := by
  induction entries generalizing running first count with
  | nil => cases hitem
  | cons entry entries ih =>
    rcases List.mem_append.mp hitem with hitem | hitem
    · -- Sent at once, to the children that run now.
      obtain ⟨data, _, rfl⟩ := Option.map_eq_some_iff.mp (Option.mem_toList.mp hitem)
      exact .inl hn
    · obtain ⟨first', count', hrest, hfirst, htrack⟩ := begun_step running hbegun
      rcases ih hrest hitem with hn | hn
      · exact (htrack n hn).imp_right And.left
      · exact .inr (Nat.le_trans hfirst hn)

theorem eq_of_mem_of_length_le_one {running : List Nat} (h : running.length ≤ 1) {m n : Nat}
    (hm : m ∈ running) (hn : n ∈ running) : m = n := by
  match running, h with
  | [], _ => cases hm
  | [child], _ => rw [List.mem_singleton.mp hm, List.mem_singleton.mp hn]
  | _ :: _ :: _, h => simp at h

/-- What is sent later goes to the same child or to one that began later. -/
theorem sentFrom_pairwise {running after : List Nat} {entries : Journal} {first count : Nat}
    (h : Leads running entries after) (hbegun : begun entries = List.range' first count)
    (hrunning : ∀ n ∈ running, n < first) :
    (sentFrom running entries).Pairwise fun earlier later =>
      ∀ m ∈ earlier.1, ∀ n ∈ later.1, m ≤ n := by
  induction h generalizing first count with
  | nil => exact .nil
  | @cons running after entry entries hlength _ ih =>
    obtain ⟨first', count', hrest, hfirst, htrack⟩ := begun_step running hbegun
    have hrunning' : ∀ n ∈ track running entry, n < first' := by
      intro n hn
      rcases htrack n hn with hn | ⟨_, hn⟩
      · exact Nat.lt_of_lt_of_le (hrunning n hn) hfirst
      · exact hn
    rw [sentFrom, List.pairwise_append]
    refine ⟨?_, ih hrest hrunning', ?_⟩
    · cases entry.written? with
      | none => exact .nil
      | some data => exact List.pairwise_singleton _ _
    · intro earlier hearlier later hlater m hm n hn
      obtain ⟨data, _, rfl⟩ := Option.map_eq_some_iff.mp (Option.mem_toList.mp hearlier)
      -- At most one child runs now, and any other begins later.
      have hnow : n ∈ running ∨ first ≤ n := by
        rcases running_of_sentFrom hrest hlater hn with hn | hn
        · exact (htrack n hn).imp_right And.left
        · exact .inr (Nat.le_trans hfirst hn)
      rcases hnow with hnow | hnow
      · exact Nat.le_of_eq (eq_of_mem_of_length_le_one hlength hm hnow)
      · exact Nat.le_of_lt (Nat.lt_of_lt_of_le (hrunning m hm) hnow)

/-! ### Starts -/

/-- Each start begins a child, or nothing is written after it. -/
def Starts : Journal → Prop
  | [] => True
  | entry :: entries =>
      (entry.isSpawn = true →
        (∃ child, entries.head? = some (.began child)) ∨ writes entries = []) ∧ Starts entries

/-- The entries write nothing, and they leave the shell with the session or without one: what
    is done next may go on with it, and must write nothing if there is none. -/
structure Resumes (session : Option Session) (entries : Journal) : Prop where
  mute : writes entries = []
  next : ∀ later, Starts later → (session = none → writes later = []) → Starts (entries ++ later)

theorem Starts.of_mute {entries : Journal} (h : writes entries = []) : Starts entries := by
  induction entries with
  | nil => trivial
  | cons entry entries ih =>
    rw [writes_cons, List.append_eq_nil_iff] at h
    exact ⟨fun _ => .inr h.2, ih h.2⟩

/-- After a start that begins no child nothing is written. -/
theorem Starts.began_or_mute {p q : Journal} {command : List String}
    (h : Starts (p ++ .request (.spawn command) :: q)) :
    (∃ child, q.head? = some (.began child)) ∨ writes q = [] := by
  induction p with
  | nil => exact h.1 rfl
  | cons entry p ih => exact ih h.2

theorem starts_append_of_idle {xs ys : Journal} (hxs : ∀ entry ∈ xs, entry.isIdle = true)
    (hys : Starts ys) : Starts (xs ++ ys) := by
  induction xs with
  | nil => exact hys
  | cons entry xs ih =>
    refine ⟨?_, ih fun entry' hentry' => hxs entry' (List.mem_cons_of_mem entry hentry')⟩
    intro hspawn
    rw [(Entry.isIdle_iff.mp (hxs entry List.mem_cons_self)).1] at hspawn
    cases hspawn

section resumes
variable {session : Option Session} {xs ys : Journal}

theorem Resumes.nil : Resumes session [] where
  mute := rfl
  next := fun _ hlater _ => hlater

/-- Entries without a start or a write may stand before. -/
theorem Resumes.idle_append (hxs : ∀ entry ∈ xs, entry.isIdle = true)
    (hys : Resumes session ys) : Resumes session (xs ++ ys) where
  mute := by
    rw [writes_append, writes_of_idle hxs, hys.mute]
    rfl
  next := by
    intro later hlater hnone
    rw [List.append_assoc]
    exact starts_append_of_idle hxs (hys.next later hlater hnone)

theorem Resumes.of_idle (hxs : ∀ entry ∈ xs, entry.isIdle = true) : Resumes session xs := by
  have happend := Resumes.idle_append hxs (.nil : Resumes session [])
  rw [List.append_nil] at happend
  exact happend

/-- They may stand behind too. -/
theorem Resumes.append_idle (hxs : Resumes session xs)
    (hys : ∀ entry ∈ ys, entry.isIdle = true) : Resumes session (xs ++ ys) where
  mute := by
    rw [writes_append, writes_of_idle hys, hxs.mute]
    rfl
  next := by
    intro later hlater hnone
    rw [List.append_assoc]
    apply hxs.next _ (starts_append_of_idle hys hlater)
    intro hsession
    rw [writes_append, writes_of_idle hys, hnone hsession]
    rfl

/-- A start that begins a child, and a session with it. -/
theorem Resumes.began (session : Session) (command : List String) (child : Nat) :
    Resumes (some session) [.request (.spawn command), .began child] where
  mute := rfl
  next := fun _ hlater _ => ⟨fun _ => .inl ⟨child, rfl⟩, nofun, hlater⟩

/-- A start that fails. -/
theorem Resumes.failed (command : List String) : Resumes none [.request (.spawn command)] where
  mute := rfl
  next := fun _ hlater hnone => ⟨fun _ => .inr (hnone rfl), hlater⟩

end resumes

end Journal

end SexpScript
