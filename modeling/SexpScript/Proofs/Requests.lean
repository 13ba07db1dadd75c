import SexpScript.Proofs.Statements

/-! # The stream of requests

    A session writes one line to its child for each text that it sends, and a reader that
    takes the stream apart at its newlines has the texts again.

    - Whatever the text, a JSON string is written in printable ASCII (`printable_escape`).  A
      newline is not printable, so the only one in a request is the one that ends it
      (`oneLine_quote`).
    - Hence the lines of the stream are the strings that were written
      (`splitOn_stream`), and each of them is read as its text (`read_quote`).
    - A text is sent exactly if the session is alive when its turn comes
      (`emits_execute_writes`), and a run of evaluations writes the requests of these texts in
      their order (`journal_executeAll`).
-/

namespace SexpScript

namespace Text

/-! ### Printable characters -/

/-- The characters of ASCII that are not controls. -/
def Printable (c : Char) : Prop := 0x20 ≤ c.toNat ∧ c.toNat < 0x7F

instance (c : Char) : Decidable (Printable c) := inferInstanceAs (Decidable (_ ∧ _))

theorem printable_hex (width n : Nat) : ∀ c ∈ hex width n, Printable c := by
  have hdigits : ∀ d < 16, Printable (Nat.digitChar d) := by decide
  induction width generalizing n with
  | zero => exact List.forall_mem_nil _
  | succ width ih =>
    rw [hex]
    refine List.forall_mem_append.mpr ⟨ih (n / 16), List.forall_mem_singleton.mpr ?_⟩
    exact hdigits (n % 16) (Nat.mod_lt n (by decide))

theorem OneLine.of_printable {text : String} (h : ∀ c ∈ text.toList, Printable c) :
    OneLine text := by
  intro hnewline
  exact absurd (h '\n' hnewline) (by decide)

/-! ### Lines in a row -/

/-- A stream of lines is the lines joined by newlines, and nothing after the last one. -/
theorem join_lines (texts : List String) :
    String.join (texts.map (· ++ "\n")) = "\n".intercalate (texts ++ [""]) := by
  induction texts with
  | nil => rfl
  | cons text texts ih =>
    rw [List.map_cons, String.join_cons, ih]
    cases texts with
    | nil => rfl
    | cons next texts => exact String.intercalate_cons_cons.symm

theorem count_newline_join_lines {texts : List String} (h : ∀ text ∈ texts, OneLine text) :
    (String.join (texts.map (· ++ "\n"))).toList.count '\n' = texts.length := by
  induction texts with
  | nil => rfl
  | cons text texts ih =>
    have htext : text.toList.count '\n' = 0 := List.count_eq_zero.mpr (h text List.mem_cons_self)
    have hrest := ih fun other hother => h other (List.mem_cons_of_mem text hother)
    rw [List.map_cons, String.join_cons, String.toList_append, String.toList_append,
      List.count_append, List.count_append, htext, hrest, List.length_cons]
    show 0 + 1 + texts.length = texts.length + 1
    omega

end Text

namespace Json

/-! ### Written strings -/

theorem printable_spellUnit (n : Nat) : ∀ c ∈ spellUnit n, Text.Printable c :=
  List.forall_mem_cons.mpr ⟨by decide, List.forall_mem_cons.mpr ⟨by decide, Text.printable_hex 4 n⟩⟩

/-- A character that is not printable is spelled by characters that are. -/
theorem printable_escape (c : Char) : ∀ d ∈ escape c, Text.Printable d := by
  have hletter : ∀ {letter : Char}, Text.Printable letter →
      ∀ d ∈ ['\\', letter], Text.Printable d :=
    fun h => List.forall_mem_cons.mpr ⟨by decide, List.forall_mem_singleton.mpr h⟩
  unfold escape
  iterate 7
    split
    · exact hletter (by decide)
  split
  · next hplain => exact List.forall_mem_singleton.mpr hplain
  · intro d hd
    obtain ⟨n, _, hn⟩ := List.mem_flatMap.mp hd
    exact printable_spellUnit n d hn

theorem printable_quote (text : String) : ∀ c ∈ (quote text).toList, Text.Printable c := by
  have hmark : Text.Printable '"' := by decide
  unfold quote
  rw [String.toList_ofList, List.cons_append]
  refine List.forall_mem_cons.mpr ⟨hmark, List.forall_mem_append.mpr ⟨?_, ?_⟩⟩
  · intro d hd
    obtain ⟨c, _, hc⟩ := List.mem_flatMap.mp hd
    exact printable_escape c d hc
  · exact List.forall_mem_singleton.mpr hmark

theorem oneLine_quote (text : String) : Text.OneLine (quote text) :=
  .of_printable (printable_quote text)

end Json

namespace Session

/-! ### Streams -/

/-- The requests of texts, one after another. -/
def stream (codes : List String) : String := String.join (codes.map request)

theorem stream_eq (codes : List String) :
    stream codes = String.join ((codes.map Json.quote).map (· ++ "\n")) := by
  rw [List.map_map]
  rfl

theorem oneLine_of_mem_map_quote {codes : List String} :
    ∀ line ∈ codes.map Json.quote, Text.OneLine line := by
  intro line hline
  obtain ⟨code, _, rfl⟩ := List.mem_map.mp hline
  exact Json.oneLine_quote code

theorem ascii_stream (codes : List String) : ∀ c ∈ (stream codes).toList, c.toNat < 0x80 := by
  intro c hc
  rw [stream, String.toList_join, List.mem_flatMap] at hc
  obtain ⟨line, hline, hc⟩ := hc
  obtain ⟨code, _, rfl⟩ := List.mem_map.mp hline
  rw [request, String.toList_append, List.mem_append] at hc
  rcases hc with hc | hc
  · have hprintable := Json.printable_quote code c hc
    exact Nat.lt_succ_of_lt hprintable.2
  · rw [List.mem_singleton.mp hc]
    decide

theorem count_newline_stream (codes : List String) :
    (stream codes).toList.count '\n' = codes.length := by
  rw [stream_eq, Text.count_newline_join_lines oneLine_of_mem_map_quote, List.length_map]

/-- The newlines of a stream part it into the strings of its texts. -/
theorem splitOn_stream (codes : List String) :
    (stream codes).toList.splitOn '\n' = (codes.map Json.quote).map String.toList ++ [[]] := by
  -- Behind the last newline there is one more line, which is empty.
  have hlines : ∀ line ∈ codes.map Json.quote ++ [""], Text.OneLine line :=
    List.forall_mem_append.mpr
      ⟨oneLine_of_mem_map_quote, List.forall_mem_singleton.mpr List.not_mem_nil⟩
  rw [stream_eq, Text.join_lines, Text.splitOn_intercalate_newline hlines (by simp),
    List.map_append]
  rfl

/-! ### Evaluations -/

/-- The texts that are sent in a run of evaluations: those whose turn comes while the session
    is alive. -/
def sentTexts (session : Session) : List String → Host → List String
  | [], _ => []
  | code :: codes, host =>
      let answered := session.execute code host
      let later := answered.1.2.sentTexts codes answered.2
      if session.alive then code :: later else later

/-- A live session writes the request of a text, and any other writes nothing. -/
theorem emits_execute_writes (session : Session) (code : String) :
    Emits (session.execute code) fun _ entries =>
      Journal.writes entries = if session.alive then [request code] else [] := by
  cases halive : session.alive with
  | false =>
    apply (emits_execute_not_alive halive code).mono
    rintro _ _ rfl
    rfl
  | true =>
    apply Emits.mono (posts_execute halive code)
    rintro _ _ ⟨rest, rfl, hidle⟩
    show request code :: Journal.writes rest = [request code]
    rw [Journal.writes_of_idle hidle]

section sentTexts
variable {session : Session}

theorem sentTexts_of_not_alive (h : session.alive = false) (codes : List String) (host : Host) :
    session.sentTexts codes host = [] := by
  induction codes generalizing host with
  | nil => rfl
  | cons code codes ih =>
    rw [sentTexts, execute_of_not_alive h, h]
    exact ih host

theorem sentTexts_of_alive (h : session.alive = true) (code : String) (codes : List String)
    (host : Host) :
    session.sentTexts (code :: codes) host =
      code :: (session.execute code host).1.2.sentTexts codes (session.execute code host).2 := by
  rw [sentTexts, h]
  rfl

/-- No text is sent behind one that is not. -/
theorem sentTexts_isPrefix (session : Session) (codes : List String) (host : Host) :
    session.sentTexts codes host <+: codes := by
  induction codes generalizing session host with
  | nil => exact List.prefix_rfl
  | cons code codes ih =>
    cases halive : session.alive with
    | false =>
      rw [sentTexts_of_not_alive halive]
      exact List.nil_prefix
    | true =>
      rw [sentTexts_of_alive halive]
      exact List.cons_prefix_cons.mpr ⟨rfl, ih _ _⟩

/-- A session that is alive after a run was alive all along, and has sent every text. -/
theorem sentTexts_of_alive_after (session : Session) (codes : List String) (host : Host)
    (h : (session.executeAll codes host).1.2.alive = true) :
    session.alive = true ∧ session.sentTexts codes host = codes := by
  induction codes generalizing session host with
  | nil => exact ⟨h, rfl⟩
  | cons code codes ih =>
    obtain ⟨hnext, hlater⟩ := ih (session.execute code host).1.2 (session.execute code host).2 h
    cases halive : session.alive with
    | false =>
      rw [execute_of_not_alive halive] at hnext
      exact absurd (halive.symm.trans hnext) Bool.false_ne_true
    | true =>
      rw [sentTexts_of_alive halive, hlater]
      exact ⟨rfl, rfl⟩

end sentTexts

/-- A run of evaluations writes the requests of the texts that are sent. -/
theorem journal_executeAll (session : Session) (codes : List String) (host : Host) :
    ∃ entries, (session.executeAll codes host).2.journal = host.journal ++ entries ∧
      Journal.writes entries = (session.sentTexts codes host).map request := by
  induction codes generalizing session host with
  | nil => exact ⟨[], (List.append_nil _).symm, rfl⟩
  | cons code codes ih =>
    -- The texts that follow are run where the first one leaves the session and the host.
    obtain ⟨xs, hxs, _, hwrites⟩ := emits_execute_writes session code host
    obtain ⟨ys, hys, hmore⟩ := ih (session.execute code host).1.2 (session.execute code host).2
    refine ⟨xs ++ ys, ?_, ?_⟩
    · rw [← List.append_assoc, ← hxs]
      exact hys
    · rw [Journal.writes_append, hwrites, hmore, sentTexts]
      by_cases halive : session.alive = true
      · rw [if_pos halive, if_pos halive]
        rfl
      · rw [if_neg halive, if_neg halive]
        rfl

/-- The stream of requests gives the texts back.  Whatever the texts are, what a run of
    evaluations writes is plain ASCII with one newline for each text that is sent.  Split at the
    newlines, it has one JSON string for each of these texts, in their order, and nothing behind
    the last newline; each string denotes its text and is read as it, and the text comes back from
    what is read.  The texts that are sent are the first ones, and all of them if the child has not
    ended. -/
theorem requests_decode (session : Session) (codes : List String) (host : Host) :
    let answered := session.executeAll codes host
    let sent := session.sentTexts codes host
    (sent <+: codes ∧ (answered.1.2.alive = true → sent = codes)) ∧
      ∃ entries, answered.2.journal = host.journal ++ entries ∧
        let written := String.join (Journal.writes entries)
        (∀ c ∈ written.toList, c.toNat < 0x80) ∧
          written.toList.count '\n' = sent.length ∧
          ∃ lines : List String, written.toList.splitOn '\n' = lines.map String.toList ++ [[]] ∧
            List.Forall₂ (fun line code => Json.Denotes line.toList (.ofText code)) lines sent ∧
            lines.map Json.read = sent.map (fun code => .ok (.ofText code)) ∧
            (lines.map fun line => (Json.read line).toOption.bind Json.display?) =
              sent.map some := by
  intro answered sent
  have hall : answered.1.2.alive = true → sent = codes :=
    fun halive => (sentTexts_of_alive_after session codes host halive).2
  refine ⟨⟨sentTexts_isPrefix session codes host, hall⟩, ?_⟩
  obtain ⟨entries, hentries, hwrites⟩ := journal_executeAll session codes host
  refine ⟨entries, hentries, ?_⟩
  have hwritten : String.join (Journal.writes entries) = stream sent := by rw [hwrites, stream]
  rw [hwritten]
  refine ⟨ascii_stream sent, count_newline_stream sent, sent.map Json.quote, splitOn_stream sent,
    ?_, ?_, ?_⟩
  · rw [List.forall₂_map_left_iff]
    exact List.forall₂_same.mpr fun code _ => Json.denotes_quote code
  · simp only [List.map_map, Function.comp_def, Json.read_quote]
  · simp only [List.map_map, Function.comp_def, Json.read_quote, Except.toOption, Option.bind_some,
      Json.display?_ofText]

end Session

end SexpScript
