import SexpScript.Proofs.Grammar
import Mathlib.Order.Nat

/-! # A counter decides how a pass ends

    The reader keeps a stack of open groups, but where its pass ends, and how, does not
    depend on what is in them.  One number is enough: the parens opened less those closed
    so far.

    - `Stop.at?` says by this number alone whether a pass can end at a place, and
      `FirstStop` is the first such place.
    - While there is no stop the reader goes on, and it has as many groups open as the
      number says (`readFrom_step`, `exists_readFrom_drop`).
    - At a stop the reader gives what the stop says (`readFrom_stop`).

    So a program lacks a paren exactly if its first stop is of one of two kinds.  The
    stages behind the reader never say so (`lacksParen_of_ofGroup`).
-/

namespace SexpScript

/-- The parens opened less those closed. -/
def balance (ts : List Token) : Int := opens ts - closes ts

section balance
variable {t : Token} {ts : List Token}

theorem balance_concat_open (h : t.kind = .openParen) : balance (ts ++ [t]) = balance ts + 1 := by
  simp only [balance, opens_append, closes_append, opens_cons_open h, closes_cons_open h,
    opens_nil, closes_nil]
  omega

theorem balance_concat_close (h : t.kind = .closeParen) : balance (ts ++ [t]) = balance ts - 1 := by
  simp only [balance, opens_append, closes_append, opens_cons_close h, closes_cons_close h,
    opens_nil, closes_nil]
  omega

theorem balance_concat_plain (h : t.Plain) : balance (ts ++ [t]) = balance ts := by
  simp only [balance, opens_append, closes_append, opens_cons_plain h, closes_cons_plain h,
    opens_nil, closes_nil]
  omega

end balance

namespace Reading

/-! ### Stops -/

/-- The ways in which a pass can end. -/
inductive Stop where
  /-- A token that is no paren stands outside all parens. -/
  | outside
  /-- A paren closes a group that the pass has not opened. -/
  | unmatched
  /-- A paren opens one group too many. -/
  | overflow
  /-- The input ends. -/
  | finished
  deriving DecidableEq, Repr

/-- The stop at a place, if there is one.  The tokens `seen` stand before the place, and
    nothing but their balance is asked of them. -/
def Stop.at? (limit : Nat) (depth : Int) (seen : List Token) : List Token → Option Stop
  | [] => some .finished
  | t :: _ =>
      match t.kind with
      | .openParen => if balance seen + 1 > limit then some .overflow else none
      | .closeParen => if balance seen = 0 then some .unmatched else none
      | _ => if depth + balance seen ≤ 0 then some .outside else none

/-- The depth and the tokens not read, for a pass that ends at a place. -/
def Stop.outcome (depth : Int) (seen rest : List Token) : Stop → Except Failure (Int × List Token)
  | .outside => .error (.refused .tokenOutside)
  | .unmatched => .ok (depth - 1, rest)
  | .overflow => .error .overflow
  | .finished => .ok (depth + balance seen, [])

/-- The stop before the token at a position. -/
def stopAt? (limit : Nat) (depth : Int) (tokens : List Token) (n : Nat) : Option Stop :=
  Stop.at? limit depth (tokens.take n) (tokens.drop n)

/-- From left to right, the first stop is at position `n`. -/
structure FirstStop (limit : Nat) (depth : Int) (tokens : List Token) (n : Nat) (stop : Stop) :
    Prop where
  here : stopAt? limit depth tokens n = some stop
  first : ∀ m < n, stopAt? limit depth tokens m = none

section stops
variable {limit : Nat} {depth : Int} {seen ts : List Token} {t : Token}

theorem Stop.at?_open (h : t.kind = .openParen) :
    Stop.at? limit depth seen (t :: ts) =
      if balance seen + 1 > limit then some .overflow else none := by
  simp only [Stop.at?, h]

theorem Stop.at?_close (h : t.kind = .closeParen) :
    Stop.at? limit depth seen (t :: ts) = if balance seen = 0 then some .unmatched else none := by
  simp only [Stop.at?, h]

theorem Stop.at?_plain (h : t.Plain) :
    Stop.at? limit depth seen (t :: ts) =
      if depth + balance seen ≤ 0 then some .outside else none := by
  rw [Stop.at?.eq_def]
  dsimp only
  split
  · next hk => exact absurd hk h.1
  · next hk => exact absurd hk h.2
  · rfl

end stops

section first
variable {limit : Nat} {depth : Int} {tokens : List Token} {n n' : Nat} {stop stop' : Stop}

/-- A pass ends somewhere: at the latest where the input does. -/
theorem exists_firstStop (limit : Nat) (depth : Int) (tokens : List Token) :
    ∃ n stop, FirstStop limit depth tokens n stop := by
  have hend : ∃ n, (stopAt? limit depth tokens n).isSome = true := by
    refine ⟨tokens.length, ?_⟩
    unfold stopAt?
    rw [List.drop_length]
    rfl
  obtain ⟨stop, hstop⟩ := Option.isSome_iff_exists.mp (Nat.find_spec hend)
  refine ⟨Nat.find hend, stop, hstop, ?_⟩
  intro m hm
  exact Option.not_isSome_iff_eq_none.mp (Nat.find_min hend hm)

/-- There is one first stop. -/
theorem FirstStop.unique (h : FirstStop limit depth tokens n stop)
    (h' : FirstStop limit depth tokens n' stop') : n = n' ∧ stop = stop' := by
  -- An earlier one of two would be a stop where the later one says there is none.
  rcases Nat.lt_trichotomy n n' with hlt | rfl | hlt
  · have hnone := h'.first n hlt
    rw [h.here] at hnone
    cases hnone
  · have hsome := h.here
    rw [h'.here] at hsome
    cases hsome
    exact ⟨rfl, rfl⟩
  · have hnone := h.first n' hlt
    rw [h'.here] at hnone
    cases hnone

end first

/-! ### One token -/

section step
variable {limit : Nat} {depth : Int} {seen rest : List Token} {current : List Item}
  {outer : List (List Item)}

/-- Where there is no stop the reader takes a token, and the groups it has open are again as
    many as the balance says. -/
theorem readFrom_step {t : Token} (current : List Item)
    (hlength : (outer.length : Int) = balance seen)
    (h : Stop.at? limit depth seen (t :: rest) = none) :
    ∃ current' outer', (List.length outer' : Int) = balance (seen ++ [t]) ∧
      readFrom limit depth current outer (t :: rest) =
        readFrom limit depth current' outer' rest := by
  rcases t.paren_or_plain with ht | ht | ht
  · rw [Stop.at?_open ht] at h
    have hroom : outer.length < limit := by
      by_contra hfull
      rw [if_pos (by omega)] at h
      cases h
    refine ⟨[], current :: outer, ?_, ?_⟩
    · rw [balance_concat_open ht, List.length_cons]
      omega
    · rw [readFrom_open ht, if_pos hroom]
  · rw [Stop.at?_close ht] at h
    cases outer with
    | nil =>
      -- With nothing open the balance is zero, and this paren is a stop.
      have hzero : balance seen = 0 := hlength.symm
      rw [if_pos hzero] at h
      cases h
    | cons above outer =>
      refine ⟨.group current.reverse :: above, outer, ?_, readFrom_close_cons ht⟩
      rw [balance_concat_close ht, ← hlength, List.length_cons]
      omega
  · rw [Stop.at?_plain ht] at h
    have hinside : depth + outer.length > 0 := by
      by_contra houtside
      rw [if_pos (by omega)] at h
      cases h
    refine ⟨.token t :: current, outer, ?_, ?_⟩
    · rw [balance_concat_plain ht, hlength]
    · rw [readFrom_plain ht, if_pos hinside]

/-- At a stop the reader gives what the stop says. -/
theorem readFrom_stop {stop : Stop} (hlength : (outer.length : Int) = balance seen)
    (h : Stop.at? limit depth seen rest = some stop) :
    (readFrom limit depth current outer rest).map (fun r => (r.depth, r.rest)) =
      stop.outcome depth seen rest := by
  cases rest with
  | nil =>
    cases h
    show Except.ok (depth + (outer.length : Int), ([] : List Token)) = _
    rw [hlength]
    rfl
  | cons t rest =>
    rcases t.paren_or_plain with ht | ht | ht
    · rw [Stop.at?_open ht] at h
      split at h
      · cases h
        rw [readFrom_open ht, if_neg (by omega)]
        rfl
      · cases h
    · rw [Stop.at?_close ht] at h
      split at h
      · next hzero =>
        cases h
        have houter : outer = [] := by
          refine List.eq_nil_of_length_eq_zero ?_
          omega
        rw [houter, readFrom_close_nil ht]
        rfl
      · cases h
    · rw [Stop.at?_plain ht] at h
      split at h
      · cases h
        rw [readFrom_plain ht, if_neg (by omega)]
        rfl
      · cases h

end step

/-! ### A whole pass -/

section pass
variable {limit : Nat} {depth : Int} {tokens : List Token} {n : Nat}

/-- Up to the first stop the reader goes on, with as many groups open as the balance
    says. -/
theorem exists_readFrom_drop (h : ∀ m < n, stopAt? limit depth tokens m = none) :
    ∃ current outer, (List.length outer : Int) = balance (tokens.take n) ∧
      readItems limit depth tokens = readFrom limit depth current outer (tokens.drop n) := by
  induction n with
  | zero => exact ⟨[], [], rfl, rfl⟩
  | succ n ih =>
    obtain ⟨current, outer, hlength, hread⟩ := ih fun m hm => h m (Nat.lt_succ_of_lt hm)
    have hnone : Stop.at? limit depth (tokens.take n) (tokens.drop n) = none :=
      h n (Nat.lt_succ_self n)
    -- The input has not ended at `n`, since its end would be a stop.
    have hn : n < tokens.length := by
      by_contra hend
      rw [List.drop_eq_nil_of_le (by omega)] at hnone
      cases hnone
    rw [List.drop_eq_getElem_cons hn] at hnone hread
    obtain ⟨current', outer', hlength', hstep⟩ := readFrom_step current hlength hnone
    refine ⟨current', outer', ?_, hread.trans hstep⟩
    rw [hlength', List.take_succ_eq_append_getElem hn]

/-- Up to the first stop no more parens are closed than were opened. -/
theorem FirstStop.balance_nonneg {stop : Stop} (h : FirstStop limit depth tokens n stop) :
    0 ≤ balance (tokens.take n) := by
  obtain ⟨current, outer, hlength, _⟩ := exists_readFrom_drop h.first
  omega

/-- The first stop decides what a pass gives. -/
theorem FirstStop.map_readItems {stop : Stop} (h : FirstStop limit depth tokens n stop) :
    (readItems limit depth tokens).map (fun r => (r.depth, r.rest)) =
      stop.outcome depth (tokens.take n) (tokens.drop n) := by
  obtain ⟨current, outer, hlength, hread⟩ := exists_readFrom_drop h.first
  rw [hread]
  exact readFrom_stop hlength h.here

end pass

end Reading

/-! ### Errors of the stages behind the reader -/

section outcomes
variable {α β ε : Type} {f : α → β} {x : Except ε α}

theorem map_eq_ok {b : β} : x.map f = .ok b ↔ ∃ a, x = .ok a ∧ f a = b := by
  cases x with
  | error e => exact ⟨nofun, nofun⟩
  | ok a => simp [Except.map]

theorem map_eq_error {e : ε} : x.map f = .error e ↔ x = .error e := by
  cases x <;> simp [Except.map]

end outcomes

/-- Whether an error says that a paren is missing. -/
def SyntaxError.lacksParen : SyntaxError → Bool
  | .missingOpen => true
  | .missingClose => true
  | _ => false

/-- These two errors are known by their diagnostics. -/
theorem SyntaxError.message_eq_iff {error : SyntaxError} :
    (error.message = "Expected opening parenthesis" ↔ error = .missingOpen) ∧
      (error.message = "Expected closing parenthesis" ↔ error = .missingClose) := by
  -- A diagnostic that quotes the program begins with another letter.
  have hquotes : ∀ {a b : String}, a ≠ "" → a.toList.head? ≠ b.toList.head? →
      ∀ text, a ++ text ≠ b := by
    intro a b ha hhead text heq
    have hchars := congrArg (fun s => s.toList.head?) heq
    have hnil : a.toList ≠ [] := by simpa using ha
    simp only [String.toList_append, List.head?_append_of_ne_nil _ hnil] at hchars
    exact hhead hchars
  cases error with
  | badHead text =>
    exact ⟨iff_of_false (hquotes (by decide +kernel) (by decide +kernel) text) nofun,
      iff_of_false (hquotes (by decide +kernel) (by decide +kernel) text) nofun⟩
  | badArgument text =>
    exact ⟨iff_of_false (hquotes (by decide +kernel) (by decide +kernel) text) nofun,
      iff_of_false (hquotes (by decide +kernel) (by decide +kernel) text) nofun⟩
  | duplicateParameter parameter name =>
    have hmessage : (duplicateParameter parameter name).message =
        "Duplicate parameter '" ++ (parameter ++ ("' in defun " ++ name)) := by
      show "Duplicate parameter '" ++ parameter ++ "' in defun " ++ name = _
      rw [String.append_assoc, String.append_assoc]
    rw [hmessage]
    exact ⟨iff_of_false (hquotes (by decide +kernel) (by decide +kernel) _) nofun,
      iff_of_false (hquotes (by decide +kernel) (by decide +kernel) _) nofun⟩
  | _ => decide +kernel

namespace Form

section building
variable {error : SyntaxError} {items : List Item}

/-- Arguments are refused as one of their groups is, or for a token that is no leaf. -/
theorem lacksParen_of_mapM {build : List Item → Except Failure Form}
    (hbuild : ∀ inner, build inner = .error (.refused error) → error.lacksParen = false)
    (h : items.mapM (ofItem build) = .error (.refused error)) : error.lacksParen = false := by
  obtain ⟨item, _, hitem⟩ := exists_of_mapM_eq_error h
  cases item with
  | group inner => exact hbuild inner hitem
  | token t =>
    rw [ofItem] at hitem
    split at hitem
    · cases hitem
    · cases hitem
      rfl

theorem error_of_definition {make : String → String → Form} {shape : SyntaxError}
    (h : definition make shape items = .error (.refused error)) : error = shape := by
  unfold definition at h
  split at h
  · cases h
  · cases h
    rfl

theorem lacksParen_of_function {build : List Item → Except Failure Form}
    (hbuild : ∀ inner, build inner = .error (.refused error) → error.lacksParen = false)
    (h : function build items = .error (.refused error)) : error.lacksParen = false := by
  unfold function at h
  split at h
  · split at h
    · cases h
      rfl
    · dsimp only at h
      split at h
      · cases h
        rfl
      · rcases bind_eq_error.mp h with hbody | ⟨_, _, hdone⟩
        · exact lacksParen_of_mapM hbuild hbody
        · cases hdone
  · cases h
    rfl

/-- What is wrong with a group is never that it lacks a paren. -/
theorem lacksParen_of_ofGroup {limit : Nat}
    (h : ofGroup limit items = .error (.refused error)) : error.lacksParen = false := by
  induction limit generalizing items with
  | zero => cases h
  | succ limit ih =>
    cases items with
    | nil => cases h
    | cons item items =>
      cases item with
      | group inner =>
        cases h
        rfl
      | token head =>
        rw [ofGroup] at h
        split at h
        · rcases bind_eq_error.mp h with hargs | ⟨_, _, hdone⟩
          · exact lacksParen_of_mapM (fun _ => ih) hargs
          · cases hdone
        · obtain rfl := error_of_definition h
          rfl
        · obtain rfl := error_of_definition h
          rfl
        · exact lacksParen_of_function (fun _ => ih) h
        · cases h
          rfl

end building

theorem lacksParen_of_ofItems {error : SyntaxError} {items : List Item}
    (h : ofItems items = .error (.refused error)) : error.lacksParen = false := by
  obtain ⟨inner, _, hinner⟩ := exists_of_mapM_eq_error h
  exact lacksParen_of_ofGroup hinner

/-! ### Programs -/

section programs
variable {tokens : List Token} {n : Nat}

theorem ofTokens_of_readItems_error {failure : Failure}
    (h : readItems Nesting.brackets 0 (withoutComments tokens) = .error failure) :
    ofTokens tokens = .error failure := by
  show (readItems Nesting.brackets 0 (withoutComments tokens) >>= _) = _
  rw [h]
  rfl

theorem ofTokens_of_readItems_ok {r : Reading}
    (h : readItems Nesting.brackets 0 (withoutComments tokens) = .ok r) :
    ofTokens tokens =
      if r.depth > 0 then .error (.refused .missingClose)
      else if r.depth < 0 then .error (.refused .missingOpen)
      else ofItems r.items := by
  show (readItems Nesting.brackets 0 (withoutComments tokens) >>= _) = _
  rw [h]
  rfl

/-- The first stop of a program decides whether it lacks a paren. -/
theorem ofTokens_of_firstStop {stop : Reading.Stop}
    (h : Reading.FirstStop Nesting.brackets 0 (withoutComments tokens) n stop) :
    (ofTokens tokens = .error (.refused .missingOpen) ↔ stop = .unmatched) ∧
      (ofTokens tokens = .error (.refused .missingClose) ↔
        stop = .finished ∧ 0 < balance ((withoutComments tokens).take n)) := by
  have hread := h.map_readItems
  cases stop with
  | outside =>
    rw [ofTokens_of_readItems_error (map_eq_error.mp hread)]
    exact ⟨⟨nofun, nofun⟩, ⟨nofun, nofun⟩⟩
  | overflow =>
    rw [ofTokens_of_readItems_error (map_eq_error.mp hread)]
    exact ⟨⟨nofun, nofun⟩, ⟨nofun, nofun⟩⟩
  | unmatched =>
    obtain ⟨r, hr, hend⟩ := map_eq_ok.mp hread
    have hdepth : r.depth = -1 := congrArg Prod.fst hend
    rw [ofTokens_of_readItems_ok hr, if_neg (by omega), if_pos (by omega)]
    exact ⟨⟨fun _ => rfl, fun _ => rfl⟩, ⟨nofun, nofun⟩⟩
  | finished =>
    obtain ⟨r, hr, hend⟩ := map_eq_ok.mp hread
    have hdepth : r.depth = 0 + balance ((withoutComments tokens).take n) := congrArg Prod.fst hend
    have hnonneg := h.balance_nonneg
    rw [ofTokens_of_readItems_ok hr]
    by_cases hopen : r.depth > 0
    · rw [if_pos hopen]
      exact ⟨⟨nofun, nofun⟩, ⟨fun _ => ⟨rfl, by omega⟩, fun _ => rfl⟩⟩
    · -- Every group is closed: what may still be wrong is wrong with a group.
      rw [if_neg hopen, if_neg (by omega)]
      refine ⟨⟨fun hitems => ?_, nofun⟩, ⟨fun hitems => ?_, fun ⟨_, hpos⟩ => ?_⟩⟩
      · cases lacksParen_of_ofItems hitems
      · cases lacksParen_of_ofItems hitems
      · omega

/-- A counter decides how tokens are read.  From left to right, with the parens opened less
    those closed, the first stop says what a pass gives: a token outside all parens, the
    tokens from an unmatched paren on, an overflow, or the end of input with the depth
    reached.  A program is said to lack an opening paren exactly if its first stop is an
    unmatched one, and a closing paren exactly if it is the end with parens open. -/
theorem readItems_decided_by_counter (limit : Nat) (depth : Int) (tokens : List Token) :
    (∃ n stop, Reading.FirstStop limit depth tokens n stop ∧
      (readItems limit depth tokens).map (fun r => (r.depth, r.rest)) =
        stop.outcome depth (tokens.take n) (tokens.drop n)) ∧
    SyntaxError.tokenOutside.message = "Found token outside of parenthesis" ∧
    ((∃ error, ofTokens tokens = .error (.refused error) ∧
        error.message = "Expected opening parenthesis") ↔
      ∃ n, Reading.FirstStop Nesting.brackets 0 (withoutComments tokens) n .unmatched) ∧
    ((∃ error, ofTokens tokens = .error (.refused error) ∧
        error.message = "Expected closing parenthesis") ↔
      ∃ n, Reading.FirstStop Nesting.brackets 0 (withoutComments tokens) n .finished ∧
        0 < balance ((withoutComments tokens).take n)) := by
  obtain ⟨n, stop, hstop⟩ := Reading.exists_firstStop limit depth tokens
  obtain ⟨k, last, hlast⟩ :=
    Reading.exists_firstStop Nesting.brackets 0 (withoutComments tokens)
  obtain ⟨hopen, hclose⟩ := ofTokens_of_firstStop hlast
  refine ⟨⟨n, stop, hstop, hstop.map_readItems⟩, rfl, ⟨?_, ?_⟩, ⟨?_, ?_⟩⟩
  · intro ⟨error, herror, hmessage⟩
    rw [SyntaxError.message_eq_iff.1.mp hmessage] at herror
    rw [hopen.mp herror] at hlast
    exact ⟨k, hlast⟩
  · intro ⟨m, hfirst⟩
    exact ⟨.missingOpen, hopen.mpr (hlast.unique hfirst).2, rfl⟩
  · intro ⟨error, herror, hmessage⟩
    rw [SyntaxError.message_eq_iff.2.mp hmessage] at herror
    obtain ⟨hfinished, hpos⟩ := hclose.mp herror
    rw [hfinished] at hlast
    exact ⟨k, hlast, hpos⟩
  · intro ⟨m, hfirst, hpos⟩
    obtain ⟨rfl, hfinished⟩ := hlast.unique hfirst
    exact ⟨.missingClose, hclose.mpr ⟨hfinished, hpos⟩, rfl⟩

end programs

end Form

end SexpScript
