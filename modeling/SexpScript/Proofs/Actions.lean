import SexpScript.Host.Child

/-! # What actions enter into the journal

    An action adds entries to the journal and takes none away.  `Emits` says what is
    true of its result and its entries together, on every host; the rules `pure`,
    `bind` and `record` follow how actions are put together.

    `Emits` also keeps account of the children (`Accounts`): the entries of an action name each
    child that it starts, by a number that no other child has, and every program that was to be
    started has used up one plan.

    Often it is enough to know what an action does not do: `Only` says that all its entries
    are of a kind.
-/

namespace SexpScript

/-! ### Children in a journal -/

namespace Journal

/-- The children that began. -/
def begun (journal : Journal) : List Nat :=
  journal.filterMap fun
    | .began child => some child
    | _ => none

/-- The children that began are those from `first` up to `next`, in order. -/
def Numbers (first : Nat) (entries : Journal) (next : Nat) : Prop :=
  ∃ count, begun entries = List.range' first count ∧ next = first + count

theorem begun_append (xs ys : Journal) : begun (xs ++ ys) = begun xs ++ begun ys :=
  List.filterMap_append

/-- Entries that no child began with use no number. -/
theorem Numbers.of_begun_eq_nil {entries : Journal} (h : begun entries = []) (first : Nat) :
    Numbers first entries first :=
  ⟨0, h, rfl⟩

theorem Numbers.append {first middle next : Nat} {xs ys : Journal} (hxs : Numbers first xs middle)
    (hys : Numbers middle ys next) : Numbers first (xs ++ ys) next := by
  obtain ⟨m, hm, rfl⟩ := hxs
  obtain ⟨n, hn, rfl⟩ := hys
  refine ⟨m + n, ?_, Nat.add_assoc first m n⟩
  rw [begun_append, hm, hn, List.range'_append_1]

/-- Every number in between is that of a child that began. -/
theorem Numbers.began_mem {first next n : Nat} {entries : Journal} (h : Numbers first entries next)
    (hfirst : first ≤ n) (hnext : n < next) : .began n ∈ entries := by
  obtain ⟨count, hbegun, rfl⟩ := h
  have hn : n ∈ begun entries := by
    rw [hbegun, List.mem_range'_1]
    exact ⟨hfirst, hnext⟩
  obtain ⟨entry, hentry, hchild⟩ := List.mem_filterMap.mp hn
  cases entry with
  | began child =>
    cases hchild
    exact hentry
  | _ => cases hchild

end Journal

/-! ### Starts -/

/-- Whether an entry starts a program. -/
def Entry.isSpawn : Entry → Bool
  | .request (.spawn _) => true
  | _ => false

/-- Whether an entry belongs to the start of a child. -/
def Entry.isStart : Entry → Bool
  | .began _ => true
  | entry => entry.isSpawn

/-- What entries tell of children, from the host before them to the host after them. -/
structure Accounts (before : Host) (entries : Journal) (after : Host) : Prop where
  numbers : Journal.Numbers before.started entries after.started
  plans : after.plans = before.plans.drop (entries.countP Entry.isSpawn)

theorem Accounts.append {first middle last : Host} {xs ys : Journal}
    (hxs : Accounts first xs middle) (hys : Accounts middle ys last) :
    Accounts first (xs ++ ys) last where
  numbers := hxs.numbers.append hys.numbers
  plans := by rw [hys.plans, hxs.plans, List.drop_drop, List.countP_append]

theorem Accounts.nil (host : Host) : Accounts host [] host :=
  ⟨.of_begun_eq_nil rfl _, rfl⟩

theorem Accounts.record {entry : Entry} (h : entry.isStart = false) (host : Host) :
    Accounts host [entry] { host with journal := host.journal ++ [entry] } := by
  cases entry with
  | began child => cases h
  | request request =>
    cases request with
    | spawn command => cases h
    | _ => exact ⟨.of_begun_eq_nil rfl _, rfl⟩
  | _ => exact ⟨.of_begun_eq_nil rfl _, rfl⟩

/-! ### Standard output -/

namespace Journal

theorem stdout_append (xs ys : Journal) : stdout (xs ++ ys) = stdout xs ++ stdout ys := by
  unfold stdout
  rw [List.filterMap_append, String.join_append]

@[simp] theorem stdout_nil : stdout [] = "" := rfl

@[simp] theorem stdout_out_cons (text : String) (entries : Journal) :
    stdout (.out text :: entries) = text ++ stdout entries := by
  unfold stdout
  rw [List.filterMap_cons, String.join_cons]

/-- Notices go to the log. -/
theorem stdout_notices (notices : List Notice) : stdout (notices.map .notice) = "" := by
  induction notices with
  | nil => rfl
  | cons notice notices ih => exact ih

end Journal

/-! ### Results and entries -/

theorem Action.bind_of_eq {α β : Type} {action : Action α} {host host' : Host} {a : α}
    (h : action host = (a, host')) (next : α → Action β) :
    (action >>= next) host = next a host' := by
  show next (action host).1 (action host).2 = next a host'
  rw [h]

/-- On every host the action adds entries to the journal, they account for the children that it
    starts, and `post` holds of its result and of them. -/
def Emits {α : Type} (action : Action α) (post : α → Journal → Prop) : Prop :=
  ∀ host : Host, ∃ entries, (action host).2.journal = host.journal ++ entries ∧
    Accounts host entries (action host).2 ∧ post (action host).1 entries

namespace Emits

variable {α β : Type} {post : α → Journal → Prop}

protected theorem pure {a : α} (h : post a []) : Emits (pure a) post := by
  intro host
  exact ⟨[], (List.append_nil _).symm, .nil host, h⟩

/-- What follows a result may use all that is known of it. -/
protected theorem bind {action : Action β} {next : β → Action α} {mid : β → Journal → Prop}
    (haction : Emits action mid)
    (hnext : ∀ b xs, mid b xs → Emits (next b) fun a ys => post a (xs ++ ys)) :
    Emits (action >>= next) post := by
  intro host
  obtain ⟨xs, hxs, hcount, hmid⟩ := haction host
  obtain ⟨ys, hys, hcount', hpost⟩ := hnext _ xs hmid (action host).2
  refine ⟨xs ++ ys, ?_, hcount.append hcount', hpost⟩
  rw [← List.append_assoc, ← hxs]
  exact hys

theorem mono {action : Action α} {post' : α → Journal → Prop} (h : Emits action post)
    (himp : ∀ a entries, post a entries → post' a entries) : Emits action post' := by
  intro host
  obtain ⟨entries, hentries, hcount, hpost⟩ := h host
  exact ⟨entries, hentries, hcount, himp _ _ hpost⟩

theorem record {entry : Entry} {post : Unit → Journal → Prop} (hentry : entry.isStart = false)
    (h : post () [entry]) : Emits (Host.record entry) post := by
  intro host
  exact ⟨[entry], rfl, .record hentry host, h⟩

/-- An entry before an action. -/
theorem record_bind {entry : Entry} {next : Unit → Action α} (hentry : entry.isStart = false)
    (h : Emits (next ()) fun a entries => post a (entry :: entries)) :
    Emits (Host.record entry >>= next) post := by
  have hrecord : Emits (Host.record entry) fun _ entries => entries = [entry] := record hentry rfl
  apply hrecord.bind
  intro _ entries hentries
  rw [hentries]
  exact h

/-- An entry that is made or left out, where all that matters is the result. -/
theorem record_ite_bind {c : Prop} [Decidable c] {entry : Entry} {next : Unit → Action α}
    {post : α → Prop} (hentry : entry.isStart = false)
    (h : Emits (next ()) fun a _ => post a) :
    Emits (if c then Host.record entry >>= next else next ()) fun a _ => post a := by
  by_cases hc : c
  · rw [if_pos hc]
    exact record_bind hentry h
  · rw [if_neg hc]
    exact h

/-- Two facts about an action are facts about the same entries. -/
theorem and {action : Action α} {post' : α → Journal → Prop} (h : Emits action post)
    (h' : Emits action post') : Emits action fun a entries => post a entries ∧ post' a entries := by
  intro host
  obtain ⟨entries, hentries, hcount, hpost⟩ := h host
  obtain ⟨entries', hentries', _, hpost'⟩ := h' host
  -- The journal before and after the action leaves no choice for what is between.
  have heq : entries = entries' := List.append_cancel_left (hentries.symm.trans hentries')
  exact ⟨entries, hentries, hcount, hpost, heq ▸ hpost'⟩

end Emits

/-- All entries of the action are such that `p`. -/
def Only {α : Type} (p : Entry → Bool) (action : Action α) : Prop :=
  Emits action fun _ entries => ∀ entry ∈ entries, p entry = true

namespace Only

variable {α β : Type} {p : Entry → Bool}

protected theorem pure (a : α) : Only p (pure a : Action α) :=
  Emits.pure fun _ h => absurd h List.not_mem_nil

protected theorem bind {action : Action β} {next : β → Action α} (h : Only p action)
    (hnext : ∀ b, Only p (next b)) : Only p (action >>= next) := by
  apply Emits.bind h
  intro b xs hxs
  apply Emits.mono (hnext b)
  intro _ ys hys
  exact List.forall_mem_append.mpr ⟨hxs, hys⟩

theorem record {entry : Entry} (hentry : entry.isStart = false) (h : p entry = true) :
    Only p (Host.record entry) :=
  Emits.record hentry (List.forall_mem_singleton.mpr h)

protected theorem ite {c : Prop} [Decidable c] {yes no : Action α} (hyes : Only p yes)
    (hno : Only p no) : Only p (if c then yes else no) := by
  by_cases hc : c
  · rw [if_pos hc]
    exact hyes
  · rw [if_neg hc]
    exact hno

theorem forM {action : β → Action Unit} (h : ∀ b, Only p (action b)) (bs : List β) :
    Only p (bs.forM action) := by
  induction bs with
  | nil => exact Only.pure ()
  | cons b bs ih => exact (h b).bind fun _ => ih

end Only

theorem Child.emits_finish (child : Child) (code : Int) :
    Emits (child.finish code) fun child' entries =>
      child' = { child with exitCode := some code } ∧ entries = [.ended child.number code] :=
  Emits.record_bind rfl (Emits.pure ⟨rfl, rfl⟩)

end SexpScript
