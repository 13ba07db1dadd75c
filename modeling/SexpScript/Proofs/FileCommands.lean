import Mathlib.Control.Monad.Basic
import SexpScript.Command
import SexpScript.Proofs.Actions

/-! # Commands on files

    `compile` and `run` read a source file, and what comes of them is known from the files, from
    the disk and from how a program comes out.

    - Reading fails in three ways (`readText_eq_error_iff`): the path has a NUL, the file cannot
      be opened, or its bytes are no UTF-8 text.  Opening a file for writing fails in the first two
      of them (`create_cases`), and the disk may fail behind it.
    - A program that is run may break the run itself (`Host.Breaks`): its command has a NUL, what
      it prints is no text, its time cannot be measured, or the user interrupts.
    - Each command ends well exactly if every one of its steps does (`Succeeds`).
    - Every other end is reported and gives the code 1, but for the faults that `report` does not
      know (`Unreported`): these go on to the caller, and an interrupt gives the code 130.
    - A command that does not open its output changes nothing but the journal (`Logs`).
-/

namespace SexpScript

/-! ### Actions that only log -/

/-- The host with more entries in its journal. -/
def Host.logged (host : Host) (entries : Journal) : Host :=
  { host with journal := host.journal ++ entries }

/-- On the host the action adds entries to the journal and changes nothing else, and `post`
    holds of its result and of them. -/
def Logs {α : Type} (action : Action α) (host : Host) (post : α → Journal → Prop) : Prop :=
  ∃ entries, (action host).2 = host.logged entries ∧ post (action host).1 entries

namespace Logs

variable {α β : Type} {host : Host}

protected theorem pure {a : α} {post : α → Journal → Prop} (h : post a []) :
    Logs (pure a) host post := by
  refine ⟨[], ?_, h⟩
  rw [Host.logged, List.append_nil]
  rfl

protected theorem bind {action : Action α} {next : α → Action β} {mid : α → Journal → Prop}
    {post : β → Journal → Prop} (h : Logs action host mid)
    (hnext : ∀ a xs, mid a xs →
      Logs (next a) (host.logged xs) fun b ys => post b (xs ++ ys)) :
    Logs (action >>= next) host post := by
  obtain ⟨xs, hxs, hmid⟩ := h
  obtain ⟨ys, hys, hpost⟩ := hnext _ xs hmid
  rw [← hxs] at hys hpost
  refine ⟨xs ++ ys, ?_, hpost⟩
  show (next (action host).1 (action host).2).2 = _
  rw [hys, hxs, Host.logged, Host.logged, Host.logged, List.append_assoc]

theorem record_bind {entry : Entry} {next : Unit → Action β} {post : β → Journal → Prop}
    (h : Logs (next ()) (host.logged [entry]) fun b entries => post b (entry :: entries)) :
    Logs (Host.record entry >>= next) host post := by
  have hrecord : Logs (Host.record entry) host fun _ entries => entries = [entry] :=
    ⟨[entry], rfl, rfl⟩
  apply hrecord.bind
  rintro _ _ rfl
  exact h

theorem get_bind {next : Host → Action β} {post : β → Journal → Prop}
    (h : Logs (next host) host post) : Logs (get >>= next) host post := h

theorem mono {action : Action α} {post post' : α → Journal → Prop} (h : Logs action host post)
    (himp : ∀ a entries, post a entries → post' a entries) : Logs action host post' := by
  obtain ⟨entries, hentries, hpost⟩ := h
  exact ⟨entries, hentries, himp _ _ hpost⟩

theorem forM_notify (notices : List Notice) :
    Logs (notices.forM Host.notify) host fun _ entries => entries = notices.map .notice := by
  induction notices generalizing host with
  | nil => exact Logs.pure rfl
  | cons notice notices ih =>
    refine record_bind (ih.mono ?_)
    rintro _ _ rfl
    rfl

end Logs

namespace FileSystem

/-! ### Faults of files -/

/-- Whether a path holds a NUL character. -/
def HasNul (path : String) : Prop := Char.ofNat 0 ∈ path.toList

/-- Why the text of a file cannot be had. -/
inductive Unreadable (fs : FileSystem) (path : String) : Fault → Prop
  | nul (h : HasNul path) : Unreadable fs path .nulInPath
  | unopened {errno : Errno} (h : ¬ HasNul path) (hread : fs.readBytes path = .error errno) :
      Unreadable fs path (.file { errno, path := some path })
  | undecodable {bytes : ByteArray} (h : ¬ HasNul path) (hread : fs.readBytes path = .ok bytes)
      (hbytes : String.fromUTF8? bytes = none) : Unreadable fs path .undecodable

section opened
variable {α : Type} {path : String} {result : Except Errno α}

theorem opened_of_nul (h : HasNul path) : opened path result = .error .nulInPath :=
  if_pos (List.contains_iff_mem.mpr h)

theorem opened_of_ok {value : α} (h : ¬ HasNul path) (hresult : result = .ok value) :
    opened path result = .ok value := by
  unfold opened
  rw [if_neg (mt List.contains_iff_mem.mp h), hresult]

theorem opened_of_error {errno : Errno} (h : ¬ HasNul path) (hresult : result = .error errno) :
    opened path result = .error (.file { errno, path := some path }) := by
  unfold opened
  rw [if_neg (mt List.contains_iff_mem.mp h), hresult]

end opened

section text
variable {fs : FileSystem} {path : String} {fault : Fault}

theorem readText_of_bytes {bytes : ByteArray} (h : ¬ HasNul path)
    (hread : fs.readBytes path = .ok bytes) :
    fs.readText path =
      match String.fromUTF8? bytes with
      | some text => .ok (Text.unifyNewlines text)
      | none => .error .undecodable := by
  unfold readText
  rw [opened_of_ok h hread]
  rfl

theorem Unreadable.readText_eq (h : Unreadable fs path fault) :
    fs.readText path = .error fault := by
  have hunopened : ∀ {fault}, opened path (fs.readBytes path) = .error fault →
      fs.readText path = .error fault := by
    intro fault hopened
    unfold readText
    rw [hopened]
    rfl
  cases h with
  | nul hnul => exact hunopened (opened_of_nul hnul)
  | unopened hnot hread => exact hunopened (opened_of_error hnot hread)
  | undecodable hnot hread hbytes => rw [readText_of_bytes hnot hread, hbytes]

theorem readText_eq_error_iff : fs.readText path = .error fault ↔ Unreadable fs path fault := by
  refine ⟨?_, Unreadable.readText_eq⟩
  intro h
  -- There is at most one reason, so each that is found is the one.
  have hfound : ∀ {found}, Unreadable fs path found → Unreadable fs path fault := by
    intro found hreason
    cases hreason.readText_eq.symm.trans h
    exact hreason
  by_cases hnul : HasNul path
  · exact hfound (.nul hnul)
  · cases hread : fs.readBytes path with
    | error errno => exact hfound (.unopened hnul hread)
    | ok bytes =>
      cases hbytes : String.fromUTF8? bytes with
      | none => exact hfound (.undecodable hnul hread hbytes)
      | some text =>
        rw [readText_of_bytes hnul hread, hbytes] at h
        cases h

/-- A path that can be opened for writing. -/
def Writable (fs : FileSystem) (path : String) : Prop :=
  ¬ HasNul path ∧ ∃ place, fs.target path = .ok place

theorem create_of_nul (fs : FileSystem) (h : HasNul path) :
    fs.create path = .error .nulInPath := by
  unfold create
  rw [opened_of_nul h]
  rfl

theorem create_of_target {place : Place} (hnul : ¬ HasNul path)
    (h : fs.target path = .ok place) : fs.create path = .ok (place, fs.put place .empty) := by
  unfold create
  rw [opened_of_ok hnul h]
  rfl

/-- Why a file cannot be opened for writing. -/
theorem create_cases (h : ¬ fs.Writable path) :
    HasNul path ∧ fs.create path = .error .nulInPath ∨
      ¬ HasNul path ∧ ∃ error, fs.create path = .error (.file error) := by
  by_cases hnul : HasNul path
  · exact .inl ⟨hnul, fs.create_of_nul hnul⟩
  · cases htarget : fs.target path with
    | ok place => exact absurd ⟨hnul, place, htarget⟩ h
    | error errno =>
      refine .inr ⟨hnul, { errno, path := some path }, ?_⟩
      unfold create
      rw [htarget, opened_of_error hnul rfl]
      rfl

end text

end FileSystem

/-! ### Running a script -/

/-- A program that is run on the host ends in time, and with the code 0. -/
def Host.Completes (host : Host) : Prop :=
  host.scratchFault = none ∧ ∃ stdout stderr, host.outcome = .finished 0 stdout stderr

/-- How a program breaks its run, and the fault that comes of it, which is not reported. -/
def breakages : List (Outcome × Fault) :=
  [(.refused .nul, .nulInPath), (.undecodable, .undecodable), (.timeTooLong, .timeTooLong),
    (.interrupted, .interrupted)]

/-- A program that is run on the host breaks the run by a fault. -/
def Host.Breaks (host : Host) (fault : Fault) : Prop :=
  host.scratchFault = none ∧ (host.outcome, fault) ∈ breakages

theorem Host.Breaks.not_completes {host : Host} {fault : Fault} (h : host.Breaks fault) :
    ¬ host.Completes := by
  rintro ⟨_, stdout, stderr, hfinished⟩
  have hbreakage := h.2
  simp [breakages, hfinished] at hbreakage

theorem Host.Breaks.unique {host : Host} {fault fault' : Fault} (h : host.Breaks fault)
    (h' : host.Breaks fault') : fault = fault' := by
  have hbreakage := h.2
  have hbreakage' := h'.2
  simp only [breakages, List.mem_cons, Prod.mk.injEq, List.not_mem_nil, or_false]
    at hbreakage hbreakage'
  rcases hbreakage with ⟨houtcome, rfl⟩ | ⟨houtcome, rfl⟩ | ⟨houtcome, rfl⟩ | ⟨houtcome, rfl⟩ <;>
    simp_all

/-- What comes of running a script. -/
inductive Host.Runs (host : Host) : Except Fault Execution.Result → Prop
  | breaks {fault : Fault} (h : host.Breaks fault) : Runs host (.error fault)
  /-- The program is there, and cannot be started. -/
  | refused {error : FileError} (hkept : ∀ fault, ¬ host.Breaks fault) (h : ¬ host.Completes) :
      Runs host (.error (.file error))
  /-- A run succeeds exactly if its program does. -/
  | ended {result : Execution.Result} (hkept : ∀ fault, ¬ host.Breaks fault)
      (h : result.ok = true ↔ host.Completes) : Runs host (.ok result)

theorem Execution.logs_run (settings : Settings) (binary : Option String) (timeout : Option Int)
    (code : String) (host : Host) :
    Logs (run settings binary timeout code) host fun result _ => host.Runs result := by
  unfold run
  apply Logs.get_bind
  cases hscratch : host.scratchFault with
  | some errno =>
    refine Logs.pure (.ended ?_ (iff_of_false nofun ?_))
    · intro fault h
      cases hscratch.symm.trans h.1
    · intro h
      cases hscratch.symm.trans h.1
  | none =>
    have hfails : (∀ code stdout stderr, host.outcome ≠ .finished code stdout stderr) →
        ¬ host.Completes := by
      rintro h ⟨_, stdout, stderr, hfinished⟩
      exact h 0 stdout stderr hfinished
    have hkept : (∀ fault, (host.outcome, fault) ∉ breakages) → ∀ fault, ¬ host.Breaks fault :=
      fun h fault hbreaks => h fault hbreaks.2
    have hbreaks : ∀ {fault}, (host.outcome, fault) ∈ breakages →
        host.Runs (.error fault) := fun h => .breaks ⟨hscratch, h⟩
    apply Logs.record_bind
    apply Logs.record_bind
    cases houtcome : host.outcome with
    | timedOut =>
      rw [houtcome] at hkept hfails
      apply Logs.record_bind
      exact Logs.pure (.ended (hkept (by simp [breakages])) (iff_of_false nofun (hfails nofun)))
    | refused refusal =>
      rw [houtcome] at hkept hfails hbreaks
      show Logs (if refusal = .missing then _ else _) _ _
      by_cases hmissing : refusal = .missing
      · rw [if_pos hmissing]
        exact Logs.pure (.ended (hkept (by simp [breakages, hmissing, Refusal.missing]))
          (iff_of_false nofun (hfails nofun)))
      · rw [if_neg hmissing]
        cases refusal with
        | nul => exact Logs.pure (hbreaks (by simp [breakages, Refusal.fault]))
        | system errno => exact Logs.pure (.refused (hkept (by simp [breakages])) (hfails nofun))
    | undecodable =>
      rw [houtcome] at hbreaks
      exact Logs.pure (hbreaks (by simp [breakages]))
    | timeTooLong =>
      rw [houtcome] at hbreaks
      exact Logs.pure (hbreaks (by simp [breakages]))
    | interrupted =>
      rw [houtcome] at hbreaks
      exact Logs.pure (hbreaks (by simp [breakages]))
    | finished exitCode stdout stderr =>
      rw [houtcome] at hkept
      refine Logs.pure (.ended (hkept (by simp [breakages])) ?_)
      show (decide (exitCode = 0) && true) = true ↔ _
      rw [Bool.and_true, decide_eq_true_iff]
      constructor
      · rintro rfl
        exact ⟨hscratch, stdout, stderr, houtcome⟩
      · rintro ⟨_, _, _, h⟩
        cases houtcome.symm.trans h
        rfl

namespace Command

/-! ### The script of a file -/

/-- The file that a path names is read and decoded, and its text compiles to a script. -/
def Compiles (settings : Settings) (fs : FileSystem) (path script : String) : Prop :=
  ∃ source, fs.readText path = .ok source ∧ (Shell.compiler settings).script source = .ok script

/-- What comes of a source: its script, a fault of its file, or an error of its text. -/
inductive Compilation (settings : Settings) (fs : FileSystem) (path : String) :
    Except Fault String → Prop
  | ok {script : String} (h : Compiles settings fs path script) :
      Compilation settings fs path (.ok script)
  | unreadable {fault : Fault} (h : fs.Unreadable path fault) :
      Compilation settings fs path (.error fault)
  | refused {source : String} {error : SyntaxError} (hread : fs.readText path = .ok source)
      (h : (Shell.compiler settings).script source = .error error) :
      Compilation settings fs path (.error (.refused error))

theorem logs_compileSource (settings : Settings) (path : String) (host : Host) :
    Logs (compileSource settings path) host fun result entries =>
      Compilation settings host.files path result ∧ entries.stdout = "" := by
  unfold compileSource
  apply Logs.get_bind
  cases hread : host.files.readText path with
  | error fault =>
    exact Logs.pure ⟨.unreadable (FileSystem.readText_eq_error_iff.mp hread), rfl⟩
  | ok source =>
    apply (Logs.forM_notify _).bind
    rintro _ notices rfl
    have hquiet : Journal.stdout
        (List.map .notice ((Shell.compiler settings).notices source) ++ []) = "" := by
      rw [List.append_nil, Journal.stdout_notices]
    cases hscript : (Shell.compiler settings).script source with
    | error error => exact Logs.pure ⟨.refused hread hscript, hquiet⟩
    | ok script => exact Logs.pure ⟨.ok ⟨source, hread, hscript⟩, hquiet⟩

/-- A source that does not compile has no script. -/
theorem Compilation.not_compiles {settings : Settings} {fs : FileSystem} {path : String}
    {fault : Fault} (h : Compilation settings fs path (.error fault)) (script : String) :
    ¬ Compiles settings fs path script := by
  rintro ⟨source, hsource, hscript⟩
  cases h with
  | unreadable h => cases h.readText_eq.symm.trans hsource
  | refused hread h =>
    cases hread.symm.trans hsource
    cases h.symm.trans hscript

theorem Compilation.compiles {settings : Settings} {fs : FileSystem} {path script : String}
    (h : Compilation settings fs path (.ok script)) : Compiles settings fs path script := by
  cases h with
  | ok h => exact h

theorem Compiles.unique {settings : Settings} {fs : FileSystem} {path script script' : String}
    (h : Compiles settings fs path script) (h' : Compiles settings fs path script') :
    script = script' := by
  obtain ⟨source, hsource, hscript⟩ := h
  obtain ⟨source', hsource', hscript'⟩ := h'
  cases hsource.symm.trans hsource'
  cases hscript.symm.trans hscript'
  rfl

/-! ### Ends of a command -/

/-- The commands on files. -/
inductive FileCommand where
  | compile
  | run
  deriving DecidableEq, Repr

/-- The word that asks for a command. -/
def FileCommand.word : FileCommand → String
  | compile => "compile"
  | run => "run"

/-- Every step of a command succeeds: the source compiles, and its script is written where it is
    to be written or run to a good end. -/
def Succeeds (settings : Settings) (host : Host) : FileCommand → List String → Prop
  | .run, path :: _ => (∃ script, Compiles settings host.files path script) ∧ host.Completes
  | .compile, [path] => ∃ script, Compiles settings host.files path script
  | .compile, path :: output :: _ => (∃ script, Compiles settings host.files path script) ∧
      host.files.Writable output ∧ host.diskFault = none
  | _, [] => False

/-- The faults that are not reported: a NUL in a path that is opened, a source that is no UTF-8
    text, and what breaks a run. -/
inductive Unreported (settings : Settings) (host : Host) :
    FileCommand → List String → Fault → Prop
  | source {command : FileCommand} {path : String} {rest : List String} {fault : Fault}
      (h : host.files.Unreadable path fault) (hfault : fault = .nulInPath ∨ fault = .undecodable) :
      Unreported settings host command (path :: rest) fault
  | output {path output script : String} {rest : List String}
      (h : Compiles settings host.files path script) (hnul : FileSystem.HasNul output) :
      Unreported settings host .compile (path :: output :: rest) .nulInPath
  | program {path script : String} {rest : List String} {fault : Fault}
      (h : Compiles settings host.files path script) (hbreaks : host.Breaks fault) :
      Unreported settings host .run (path :: rest) fault

/-- What is shown of a failure: how the command is called, or what went wrong, in red. -/
inductive IsReport : Entry → Prop
  | compileUsage : IsReport (.err (compileUsage ++ "\n"))
  | runUsage : IsReport (.out (runUsage ++ "\n"))
  | failure (message : String) : IsReport (.err (Style.failure.paint message ++ "\n"))

/-- The last thing that was done was to report a failure. -/
def EndsInReport (entries : Journal) : Prop :=
  ∃ earlier report, entries = earlier ++ [report] ∧ IsReport report

theorem EndsInReport.of_report {report : Entry} (h : IsReport report) : EndsInReport [report] :=
  ⟨[], report, rfl, h⟩

theorem EndsInReport.append {entries : Journal} (earlier : Journal) (h : EndsInReport entries) :
    EndsInReport (earlier ++ entries) := by
  obtain ⟨xs, report, rfl, hreport⟩ := h
  exact ⟨earlier ++ xs, report, (List.append_assoc _ _ _).symm, hreport⟩

/-- How a command fails: by a fault that is not reported, by one that is left to report, or with a
    report and the code 1. -/
inductive Failure (settings : Settings) (host : Host) (command : FileCommand) (args : List String) :
    Except Fault Int → Journal → Prop
  | unreported {fault : Fault} {entries : Journal}
      (h : Unreported settings host command args fault) :
      Failure settings host command args (.error fault) entries
  | refused {error : SyntaxError} {entries : Journal}
      (hkept : ∀ fault, ¬ Unreported settings host command args fault) :
      Failure settings host command args (.error (.refused error)) entries
  | file {error : FileError} {entries : Journal}
      (hkept : ∀ fault, ¬ Unreported settings host command args fault) :
      Failure settings host command args (.error (.file error)) entries
  | reported {entries : Journal} (hkept : ∀ fault, ¬ Unreported settings host command args fault)
      (h : EndsInReport entries) : Failure settings host command args (.ok 1) entries

section ends
variable {settings : Settings} {host : Host} {command : FileCommand} {path script : String}
  {rest : List String} {fault : Fault} {entries : Journal}

/-- Of a source that does not compile, only its own fault can be unreported. -/
theorem Unreported.eq_of_compilation {fault' : Fault}
    (h : Compilation settings host.files path (.error fault))
    (hunreported : Unreported settings host command (path :: rest) fault') :
    fault' = fault ∧ (fault = .nulInPath ∨ fault = .undecodable) := by
  cases hunreported with
  | output hcompiles => exact absurd hcompiles (h.not_compiles _)
  | program hcompiles => exact absurd hcompiles (h.not_compiles _)
  | source hunreadable hfault =>
    cases h with
    | unreadable h =>
      cases hunreadable.readText_eq.symm.trans h.readText_eq
      exact ⟨rfl, hfault⟩
    | refused hread => cases hunreadable.readText_eq.symm.trans hread

/-- Of a source that compiles, only a fault of the output or of the program can be unreported. -/
theorem Unreported.cases_of_compiles (h : Compiles settings host.files path script)
    (hunreported : Unreported settings host command (path :: rest) fault) :
    (command = .compile ∧ fault = .nulInPath ∧
      ∃ output more, rest = output :: more ∧ FileSystem.HasNul output) ∨
        command = .run ∧ host.Breaks fault := by
  cases hunreported with
  | output _ hnul => exact .inl ⟨rfl, rfl, _, _, rfl, hnul⟩
  | program _ hbreaks => exact .inr ⟨rfl, hbreaks⟩
  | source hunreadable =>
    obtain ⟨source, hsource, _⟩ := h
    cases hunreadable.readText_eq.symm.trans hsource

theorem failure_of_compilation (h : Compilation settings host.files path (.error fault)) :
    Failure settings host command (path :: rest) (.error fault) entries := by
  have hkept : ¬ (fault = .nulInPath ∨ fault = .undecodable) →
      ∀ fault', ¬ Unreported settings host command (path :: rest) fault' :=
    fun hfault _ hunreported => hfault (hunreported.eq_of_compilation h).2
  cases h with
  | refused => exact .refused (hkept nofun)
  | unreadable h =>
    cases h with
    | nul hnul => exact .unreported (.source (.nul hnul) (.inl rfl))
    | unopened => exact .file (hkept nofun)
    | undecodable hnul hread hbytes =>
      exact .unreported (.source (.undecodable hnul hread hbytes) (.inr rfl))

/-- Where the output has no NUL, a compilation has nothing that is not reported. -/
theorem not_unreported_output {output : String} (h : Compiles settings host.files path script)
    (hnul : ¬ FileSystem.HasNul output) :
    ∀ fault, ¬ Unreported settings host .compile (path :: output :: rest) fault := by
  intro fault hunreported
  rcases hunreported.cases_of_compiles h with ⟨_, _, _, _, hrest, hnul'⟩ | ⟨hrun, _⟩
  · cases hrest
    exact hnul hnul'
  · cases hrun

end ends

/-! ### Compiling a file -/

theorem logs_compileSource_of_compiles {settings : Settings} {host : Host} {path script : String}
    (h : Compiles settings host.files path script) :
    Logs (compileSource settings path) host fun result entries =>
      result = .ok script ∧ entries.stdout = "" := by
  apply (logs_compileSource settings path host).mono
  rintro result entries ⟨hresult, hquiet⟩
  cases result with
  | error fault => exact absurd h (hresult.not_compiles script)
  | ok script' => exact ⟨by rw [h.unique hresult.compiles], hquiet⟩

theorem logs_writeFile_of_error (host : Host) {path text : String} {fault : Fault}
    (h : host.files.create path = .error fault) :
    Logs (writeFile path text) host fun result _ => result = .error fault := by
  unfold writeFile
  apply Logs.get_bind
  rw [h]
  exact Logs.pure rfl

/-- A file that is opened is filled, as far as the disk goes. -/
theorem writeFile_of_target (host : Host) {path : String} {place : Place}
    (hnul : ¬ FileSystem.HasNul path) (h : host.files.target path = .ok place) (text : String) :
    let filled := (host.files.put place .empty).fill place text host.diskFault
    writeFile path text host = (filled.1, { host with files := filled.2 }) := by
  have hget : (get : Action Host) host = (host, host) := rfl
  unfold writeFile
  rw [Action.bind_of_eq hget, FileSystem.create_of_target hnul h]
  rfl

/-- A compilation that has no script, or cannot open its output, changes nothing but the
    journal. -/
theorem logs_compile_unopened {settings : Settings} {host : Host} {path output : String}
    {rest : List String}
    (h : ¬ ((∃ script, Compiles settings host.files path script) ∧ host.files.Writable output)) :
    Logs (compile settings (path :: output :: rest)) host
      (Failure settings host .compile (path :: output :: rest)) := by
  unfold compile
  apply (logs_compileSource settings path host).bind
  rintro result xs ⟨hresult, _⟩
  cases result with
  | error fault => exact Logs.pure (failure_of_compilation hresult)
  | ok script =>
    have hcompiles := hresult.compiles
    have hunopened : ¬ host.files.Writable output := fun hwritable =>
      h ⟨⟨script, hcompiles⟩, hwritable⟩
    rcases FileSystem.create_cases hunopened with ⟨hnul, hcreate⟩ | ⟨hnul, error, hcreate⟩
    · apply (logs_writeFile_of_error (host.logged xs) hcreate).bind
      rintro _ ys rfl
      exact Logs.pure (.unreported (.output hcompiles hnul))
    · apply (logs_writeFile_of_error (host.logged xs) hcreate).bind
      rintro _ ys rfl
      exact Logs.pure (.file (not_unreported_output hcompiles hnul))

/-- A compilation that opens its output fills it, as far as the disk goes, and changes nothing
    else but the journal. -/
theorem compile_opened {settings : Settings} {host : Host} {path output script : String}
    {place : Place} (h : Compiles settings host.files path script)
    (hnul : ¬ FileSystem.HasNul output) (htarget : host.files.target output = .ok place)
    (rest : List String) :
    let filled := (host.files.put place .empty).fill place (script ++ "\n") host.diskFault
    ∃ entries, compile settings (path :: output :: rest) host =
      (filled.1.map fun _ => 0, { host.logged entries with files := filled.2 }) := by
  intro filled
  obtain ⟨xs, hxs, hresult, _⟩ := logs_compileSource_of_compiles h
  have hsource : compileSource settings path host = (.ok script, host.logged xs) :=
    Prod.ext hresult hxs
  -- The files of the host change, so the rules of `Logs` end here.
  refine ⟨xs, ?_⟩
  rw [compile]
  refine (Action.bind_of_eq hsource _).trans ?_
  refine (Action.bind_of_eq (writeFile_of_target (host.logged xs) hnul htarget _) _).trans ?_
  show _ = (filled.1.map _, _)
  cases hfilled : filled.1 with
  | error fault =>
    have hfill : ((host.logged xs).files.put place .empty).fill place (script ++ "\n")
        (host.logged xs).diskFault = (.error fault, filled.2) := Prod.ext hfilled rfl
    rw [hfill]
    rfl
  | ok _ =>
    have hfill : ((host.logged xs).files.put place .empty).fill place (script ++ "\n")
        (host.logged xs).diskFault = (.ok (), filled.2) := Prod.ext hfilled rfl
    rw [hfill]
    rfl

/-- A script that goes to standard output changes nothing but the journal. -/
theorem logs_compile_shown {settings : Settings} {host : Host} {path script : String}
    (h : Compiles settings host.files path script) :
    Logs (compile settings [path]) host fun result entries =>
      result = .ok 0 ∧ entries.stdout = script ++ "\n" := by
  unfold compile
  apply (logs_compileSource_of_compiles h).bind
  rintro _ xs ⟨rfl, hquiet⟩
  apply Logs.record_bind
  refine Logs.pure ⟨rfl, ?_⟩
  rw [Journal.stdout_append, hquiet, Journal.stdout_out_cons, Journal.stdout_nil,
    String.empty_append, String.append_empty]

/-! ### Running a file -/

/-- A run changes nothing but the journal, and its code is 0 exactly if every step succeeds. -/
theorem logs_runFile (settings : Settings) (host : Host) (path : String) (rest : List String) :
    Logs (runFile settings path) host fun result entries =>
      Succeeds settings host .run (path :: rest) ∧ result = .ok 0 ∨
        ¬ Succeeds settings host .run (path :: rest) ∧
          Failure settings host .run (path :: rest) result entries := by
  unfold runFile
  apply Logs.record_bind
  apply (logs_compileSource settings path _).bind
  rintro result xs ⟨hresult, _⟩
  -- The files are the same as before the line that says what is run.
  change Compilation settings host.files path result at hresult
  rw [Succeeds]
  cases result with
  | error fault =>
    refine Logs.pure (.inr ⟨?_, failure_of_compilation hresult⟩)
    rintro ⟨⟨script, hcompiles⟩, _⟩
    exact hresult.not_compiles script hcompiles
  | ok script =>
    have hcompiles := hresult.compiles
    have hreported : (∀ fault, ¬ host.Breaks fault) →
        ∀ fault, ¬ Unreported settings host .run (path :: rest) fault := by
      intro hkept fault hunreported
      rcases hunreported.cases_of_compiles hcompiles with ⟨hcompile, _⟩ | ⟨_, hbreaks⟩
      · cases hcompile
      · exact hkept fault hbreaks
    apply (Execution.logs_run settings none none script _).bind
    intro result ys hruns
    cases hruns with
    | breaks hbreaks =>
      exact Logs.pure (.inr ⟨fun hsucceeds => hbreaks.not_completes hsucceeds.2,
        .unreported (.program hcompiles hbreaks)⟩)
    | refused hkept hfails =>
      exact Logs.pure (.inr ⟨fun hsucceeds => hfails hsucceeds.2, .file (hreported hkept)⟩)
    | @ended result hkept hok =>
      apply Logs.record_bind
      show Logs (if result.ok = true then _ else _) _ _
      by_cases hgood : result.ok = true
      · rw [if_pos hgood]
        apply Logs.record_bind
        exact Logs.pure (.inl ⟨⟨⟨script, hcompiles⟩, hok.mp hgood⟩, rfl⟩)
      · rw [if_neg hgood]
        apply Logs.record_bind
        refine Logs.pure (.inr ⟨fun hsucceeds => hgood (hok.mpr hsucceeds.2),
          .reported (hreported hkept) ?_⟩)
        exact .append [_] (.append xs (.append ys (.append [_] (.of_report (.failure _)))))

/-! ### The exit code -/

section exit
variable {settings : Settings} {host : Host} {command : FileCommand} {args : List String}

theorem failure_of_logs {action : Action (Except Fault Int)}
    (h : Logs action host (Failure settings host command args)) :
    ∃ entries, (action host).2.journal = host.journal ++ entries ∧
      Failure settings host command args (action host).1 entries := by
  obtain ⟨entries, hentries, hfailure⟩ := h
  exact ⟨entries, congrArg Host.journal hentries, hfailure⟩

/-- Where a step of a compilation fails, the compilation fails. -/
theorem compile_of_not_succeeds (h : ¬ Succeeds settings host .compile args) :
    ∃ entries, (compile settings args host).2.journal = host.journal ++ entries ∧
      Failure settings host .compile args (compile settings args host).1 entries := by
  match args with
  | [] =>
    apply failure_of_logs
    apply Logs.record_bind
    exact Logs.pure (.reported nofun (.of_report .compileUsage))
  | [path] =>
    apply failure_of_logs
    unfold compile
    apply (logs_compileSource settings path host).bind
    rintro result xs ⟨hresult, _⟩
    cases result with
    | error fault => exact Logs.pure (failure_of_compilation hresult)
    | ok script => exact absurd ⟨script, hresult.compiles⟩ h
  | path :: output :: rest =>
    by_cases hopened : (∃ script, Compiles settings host.files path script) ∧
        host.files.Writable output
    · -- All is well up to here, so it is the disk that fails.
      obtain ⟨⟨script, hcompiles⟩, hnul, place, htarget⟩ := hopened
      cases hdisk : host.diskFault with
      | none => exact absurd ⟨⟨script, hcompiles⟩, ⟨hnul, place, htarget⟩, hdisk⟩ h
      | some fault =>
        obtain ⟨entries, hcompile⟩ := compile_opened hcompiles hnul htarget rest
        rw [hcompile, hdisk]
        exact ⟨entries, rfl, .file (not_unreported_output hcompiles hnul)⟩
    · exact failure_of_logs (logs_compile_unopened hopened)

theorem dispatch_of_not_succeeds (input : Shell.Input)
    (h : ¬ Succeeds settings host command args) :
    ∃ entries, (dispatch settings input (command.word :: args) host).2.journal =
        host.journal ++ entries ∧
      Failure settings host command args
        (dispatch settings input (command.word :: args) host).1 entries := by
  cases command with
  | compile => exact compile_of_not_succeeds h
  | run =>
    apply failure_of_logs
    cases args with
    | nil =>
      apply Logs.record_bind
      exact Logs.pure (.reported nofun (.of_report .runUsage))
    | cons path rest =>
      apply (logs_runFile settings host path rest).mono
      intro result entries hresult
      exact (hresult.resolve_left fun hsucceeds => h hsucceeds.1).2

theorem dispatch_of_succeeds (input : Shell.Input) (h : Succeeds settings host command args) :
    (dispatch settings input (command.word :: args) host).1 = .ok 0 := by
  cases command with
  | compile =>
    match args with
    | [] => cases h
    | [path] =>
      obtain ⟨script, hcompiles⟩ := h
      obtain ⟨_, _, hresult, _⟩ := logs_compile_shown hcompiles
      exact hresult
    | path :: output :: rest =>
      obtain ⟨⟨script, hcompiles⟩, ⟨hnul, place, htarget⟩, hdisk⟩ := h
      obtain ⟨entries, hcompile⟩ := compile_opened hcompiles hnul htarget rest
      rw [hdisk] at hcompile
      exact congrArg Prod.fst hcompile
  | run =>
    cases args with
    | nil => cases h
    | cons path rest =>
      obtain ⟨_, _, hresult⟩ := logs_runFile settings host path rest
      exact (hresult.resolve_right fun hfailure => hfailure.1 h).2

theorem Succeeds.compiles {path : String} {rest : List String}
    (h : Succeeds settings host command (path :: rest)) :
    ∃ script, Compiles settings host.files path script := by
  cases command with
  | run => exact h.1
  | compile =>
    cases rest with
    | nil => exact h
    | cons output rest => exact h.1

theorem Unreported.not_succeeds {fault : Fault} (h : Unreported settings host command args fault) :
    ¬ Succeeds settings host command args := by
  intro hsucceeds
  cases h with
  | source hunreadable =>
    obtain ⟨script, hcompiles⟩ := hsucceeds.compiles
    exact Compilation.not_compiles (.unreadable hunreadable) script hcompiles
  | output _ hnul => exact hsucceeds.2.1.1 hnul
  | program _ hbreaks => exact hbreaks.not_completes hsucceeds.2

/-- The code of a fault that is not reported, where it has one. -/
theorem Unreported.report_eq {fault : Fault} (h : Unreported settings host command args fault) :
    report (.error fault) =
      pure (if fault = .interrupted then .ok 130 else .error fault) := by
  cases h with
  | output => rfl
  | source _ hfault =>
    rcases hfault with rfl | rfl
    · rfl
    · rfl
  | program _ hbreaks =>
    have hbreakage := hbreaks.2
    simp only [breakages, List.mem_cons, Prod.mk.injEq, List.not_mem_nil, or_false] at hbreakage
    rcases hbreakage with ⟨_, rfl⟩ | ⟨_, rfl⟩ | ⟨_, rfl⟩ | ⟨_, rfl⟩ <;> rfl

/-- What a failure comes to when it is reported. -/
theorem Failure.logs_report {result : Except Fault Int} {entries : Journal}
    (h : Failure settings host command args result entries) (now : Host) :
    Logs (report result) now fun final more =>
      (∃ fault, final = (if fault = .interrupted then .ok 130 else .error fault) ∧
          Unreported settings host command args fault) ∨
        final = .ok 1 ∧ (∀ fault, ¬ Unreported settings host command args fault) ∧
          EndsInReport (entries ++ more) := by
  cases h with
  | refused hkept =>
    apply Logs.record_bind
    exact Logs.pure (.inr ⟨rfl, hkept, .append entries (.of_report (.failure _))⟩)
  | file hkept =>
    apply Logs.record_bind
    exact Logs.pure (.inr ⟨rfl, hkept, .append entries (.of_report (.failure _))⟩)
  | reported hkept hreport =>
    refine Logs.pure (.inr ⟨rfl, hkept, ?_⟩)
    rw [List.append_nil]
    exact hreport
  | @unreported fault _ hunreported =>
    rw [hunreported.report_eq]
    exact Logs.pure (.inl ⟨fault, rfl, hunreported⟩)

end exit

theorem Unreported.unique {settings : Settings} {host : Host} {command : FileCommand}
    {args : List String} {fault fault' : Fault} (h : Unreported settings host command args fault)
    (h' : Unreported settings host command args fault') : fault = fault' := by
  cases h with
  | source hunreadable => exact (h'.eq_of_compilation (.unreadable hunreadable)).1.symm
  | output hcompiles =>
    rcases h'.cases_of_compiles hcompiles with ⟨_, rfl, _⟩ | ⟨hrun, _⟩
    · rfl
    · cases hrun
  | program hcompiles hbreaks =>
    rcases h'.cases_of_compiles hcompiles with ⟨hcompile, _⟩ | ⟨_, hbreaks'⟩
    · cases hcompile
    · exact hbreaks.unique hbreaks'

section run
variable {settings : Settings}

/-- A log level that is none ends every command before it begins. -/
theorem run_of_stranger (h : Level.isStranger settings.logLevel = true) (input : Shell.Input)
    (args : List String) :
    run settings input args = pure (.error (.badLevel (Level.capitalized settings.logLevel))) := by
  unfold run
  rw [if_pos h]

/-- With any other level a command is carried out, and what comes of it is reported. -/
theorem run_of_not_stranger (h : Level.isStranger settings.logLevel = false) (input : Shell.Input)
    (args : List String) (host : Host) :
    run settings input args host =
      report (dispatch settings input args host).1 (dispatch settings input args host).2 := by
  unfold run
  rw [if_neg (Bool.eq_false_iff.mp h)]
  rfl

/-- How a command on files finishes, and why. -/
inductive Finishes (settings : Settings) (host : Host) (command : FileCommand)
    (args : List String) : Except Fault Int × Host → Prop
  | succeeded {after : Host} (h : Succeeds settings host command args) :
      Finishes settings host command args (.ok 0, after)
  | escaped {fault : Fault} {after : Host} (hfault : fault ≠ .interrupted)
      (h : Unreported settings host command args fault) :
      Finishes settings host command args (.error fault, after)
  | interrupted {after : Host} (h : Unreported settings host command args .interrupted) :
      Finishes settings host command args (.ok 130, after)
  | reported {after : Host} {entries : Journal} (hfails : ¬ Succeeds settings host command args)
      (hkept : ∀ fault, ¬ Unreported settings host command args fault)
      (hentries : after.journal = host.journal ++ entries) (h : EndsInReport entries) :
      Finishes settings host command args (.ok 1, after)

theorem finishes_run (hlevel : Level.isStranger settings.logLevel = false) (input : Shell.Input)
    (host : Host) (command : FileCommand) (args : List String) :
    Finishes settings host command args (run settings input (command.word :: args) host) := by
  rw [run_of_not_stranger hlevel]
  by_cases hsucceeds : Succeeds settings host command args
  · rw [dispatch_of_succeeds input hsucceeds]
    exact .succeeded hsucceeds
  · obtain ⟨entries, hentries, hfailure⟩ := dispatch_of_not_succeeds input hsucceeds
    obtain ⟨more, hmore, hreported⟩ := hfailure.logs_report
      (dispatch settings input (command.word :: args) host).2
    cases hfinal : report (dispatch settings input (command.word :: args) host).1
        (dispatch settings input (command.word :: args) host).2 with
    | mk final after =>
      rw [hfinal] at hmore hreported
      rcases hreported with ⟨fault, rfl, hunreported⟩ | ⟨rfl, hkept, hreport⟩
      · by_cases hinterrupted : fault = .interrupted
        · subst hinterrupted
          exact .interrupted hunreported
        · rw [if_neg hinterrupted]
          exact .escaped hinterrupted hunreported
      · refine .reported hsucceeds hkept ?_ hreport
        rw [← List.append_assoc, ← hentries]
        exact congrArg Host.journal hmore

end run

/-- What comes of a command on files.  A log level that bears the name of something else ends it by
    a fault, before anything is done.  Otherwise it gives the code 0 exactly if every step
    succeeds: the source is read, decoded and compiled, and the script is written where a file is
    named for it or, for `run`, its program ends in time with the code 0.  A fault goes on to the
    caller exactly if a path that is opened has a NUL, the source is no UTF-8 text, or the program
    breaks the run; an interrupt gives the code 130.  In all other cases the code is 1, and the last
    thing done is to report why. -/
theorem run_file_command (settings : Settings) (input : Shell.Input) (host : Host)
    (command : FileCommand) (args : List String) :
    let finished := run settings input (command.word :: args) host
    (Level.isStranger settings.logLevel = true →
      finished = (.error (.badLevel (Level.capitalized settings.logLevel)), host)) ∧
    (Level.isStranger settings.logLevel = false →
      (finished.1 = .ok 0 ↔ Succeeds settings host command args) ∧
        (∀ fault, finished.1 = .error fault ↔
          fault ≠ .interrupted ∧ Unreported settings host command args fault) ∧
        (finished.1 = .ok 130 ↔ Unreported settings host command args .interrupted) ∧
        ∀ code, finished.1 = .ok code → code = 0 ∨ code = 130 ∨ code = 1 ∧
          ∃ entries, finished.2.journal = host.journal ++ entries ∧ EndsInReport entries) := by
  intro finished
  refine ⟨?_, ?_⟩
  · intro hlevel
    show run settings input (command.word :: args) host = _
    rw [run_of_stranger hlevel]
    rfl
  intro hlevel
  have hfinishes : Finishes settings host command args finished :=
    finishes_run hlevel input host command args
  generalize finished = finished at hfinishes
  -- Success, an interrupt and every other fault exclude each other, and a report excludes them all.
  cases hfinishes with
  | succeeded hsucceeds =>
    refine ⟨iff_of_true rfl hsucceeds, ?_, ?_, ?_⟩
    · intro fault
      exact iff_of_false nofun fun h => h.2.not_succeeds hsucceeds
    · exact iff_of_false (by simp) fun h => h.not_succeeds hsucceeds
    · rintro code ⟨⟩
      exact .inl rfl
  | @escaped fault _ hfault hunreported =>
    refine ⟨iff_of_false nofun hunreported.not_succeeds, ?_, ?_, nofun⟩
    · intro fault'
      constructor
      · rintro ⟨⟩
        exact ⟨hfault, hunreported⟩
      · intro h
        rw [hunreported.unique h.2]
    · exact iff_of_false nofun fun h => hfault (hunreported.unique h)
  | interrupted hunreported =>
    refine ⟨iff_of_false (by simp) hunreported.not_succeeds, ?_, iff_of_true rfl hunreported, ?_⟩
    · intro fault
      exact iff_of_false nofun fun h => h.1 (hunreported.unique h.2).symm
    · rintro code ⟨⟩
      exact .inr (.inl rfl)
  | reported hfails hkept hentries hreport =>
    refine ⟨iff_of_false (by simp) hfails, ?_, iff_of_false (by simp) (hkept _), ?_⟩
    · intro fault
      exact iff_of_false nofun fun h => hkept fault h.2
    · rintro code ⟨⟩
      exact .inr (.inr ⟨rfl, _, hentries, hreport⟩)

/-- A program that ends with the code 0, and the same one with the code 3. -/
theorem run_file_command_exit_codes :
    let host (code : Int) : Host := {
      outcome := .finished code "" "stopped"
      files := { current := [], directories := [], files := [(["a"], "(f)".toUTF8)] } }
    let finished := run {} { lines := [] } ["run", "a"] (host 3)
    Succeeds {} (host 0) .run ["a"] ∧ finished.1 = .ok 1 ∧
      ∃ entries, finished.2.journal = entries ∧ EndsInReport entries := by
  intro host finished
  have hlevel : Level.isStranger ({} : Settings).logLevel = false := by decide +kernel
  have hgood : (run {} { lines := [] } ["run", "a"] (host 0)).1 = .ok 0 := by decide +kernel
  have hbad : finished.1 = .ok 1 := by decide +kernel
  obtain ⟨_, hknown⟩ := run_file_command {} { lines := [] } (host 0) .run ["a"]
  obtain ⟨hzero, _⟩ := hknown hlevel
  obtain ⟨_, hknown'⟩ := run_file_command {} { lines := [] } (host 3) .run ["a"]
  obtain ⟨_, _, _, hcode⟩ := hknown' hlevel
  rcases hcode 1 hbad with hone | hone | ⟨_, hreport⟩
  · exact absurd hone (by decide)
  · exact absurd hone (by decide)
  · exact ⟨hzero.mp hgood, hbad, hreport⟩

/-- A source whose only byte is 255 ends the command by a fault, and nothing is reported. -/
theorem run_undecodable_source :
    let host : Host := {
      files := { current := [], directories := [], files := [(["a"], ⟨#[255]⟩)] } }
    let finished := run {} { lines := [] } ["compile", "a"] host
    finished.1 = .error .undecodable ∧ finished.2.journal = [] := by
  intro host finished
  decide +kernel

end Command

end SexpScript
