import SexpScript.Host.Basic

/-! # Children

    A child process that is written to and whose output is read.  It follows its
    plan: each write makes it take its next turn.  A child ends once; from
    then on it has an exit code.  Its output is kept as it is heard, with its line ends as the
    pipe gives them.
-/

namespace SexpScript

/-- A child process. -/
structure Child where
  /-- Which of the children it is. -/
  number : Nat
  /-- The turns to come. -/
  turns : List Turn
  /-- Whether it ignores the request to end. -/
  stuck : Bool
  /-- What was heard of it and nobody has read yet. -/
  buffer : List Char
  /-- Whether the user interrupts once the buffer is read. -/
  interrupt : Bool
  /-- The exit code of a child that has ended. -/
  exitCode : Option Int
  deriving DecidableEq, Repr

namespace Child

/-- The child that begins with a plan. -/
def ofPlan (number : Nat) (plan : Plan) : Child :=
  { number, turns := plan.turns, stuck := plan.stuck, buffer := plan.out.toList,
    interrupt := false, exitCode := none }

/-- Whether a child has not ended. -/
def alive (child : Child) : Bool := child.exitCode.isNone

/-- Start a program. -/
def spawn (command : List String) : Action (Except Refusal Child) := do
  Host.record (.request (.spawn command))
  let host ← get
  match host.nextPlan with
  | .ok plan =>
      set { host with plans := host.plans.tail, started := host.started + 1 }
      Host.record (.began host.started)
      return .ok (ofPlan host.started plan)
  | .error refusal =>
      set { host with plans := host.plans.tail }
      return .error refusal

/-- End with an exit code. -/
def finish (child : Child) (code : Int) : Action Child := do
  Host.record (.ended child.number code)
  return { child with exitCode := some code }

/-- Write to a child.  Nothing comes of it when the child is gone. -/
def write (child : Child) (data : String) : Action (Bool × Child) := do
  Host.record (.request (.write data))
  match child.turns with
  | [] => return (true, ← { child with interrupt := false }.finish 0)
  | .brokenPipe :: turns => return (false, { child with turns })
  | .answer heard interrupt exit :: turns =>
      let child := { child with turns, interrupt, buffer := child.buffer ++ heard.toList }
      match exit with
      | some code => return (true, ← child.finish code)
      | none => return (true, child)

/-- Wait for a child to end.  A stuck child outlasts every limit. -/
def wait (child : Child) (seconds : Option Nat) : Action (Option Int × Child) := do
  Host.record (.request (.wait seconds))
  match child.exitCode with
  | some code => return (some code, child)
  | none =>
      if child.stuck && seconds.isSome then return (none, child)
      else return (some 0, ← child.finish 0)

/-- Ask a child to end. -/
def terminate (child : Child) : Action Child := do
  Host.record (.request .terminate)
  if child.stuck then return child else child.finish (-15)

/-- End a child. -/
def kill (child : Child) : Action Child := do
  Host.record (.request .kill)
  child.finish (-9)

end Child

end SexpScript
