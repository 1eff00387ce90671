import PCode.Command.Plan

/-!
# Carrying out a plan on a directory

`Plan.outcome` is what comes of a plan that starts with a given directory. A program may run for
ever, so the steps of a program are limited, and nothing comes of a plan whose program needs more.

As `RUST_LOG` is unset, there are no log lines in an outcome. Reading and writing a file fail only
for reasons that lie in its path and in the files that there are.
-/

namespace PCode

open Files

/-- What comes of a command. -/
structure Outcome where
  /-- How it ends. -/
  exit : Exit
  /-- The text on the standard output. -/
  stdout : String
  /-- The text on the standard error. -/
  stderr : String
  /-- The files afterwards. -/
  directory : Directory
deriving DecidableEq, Repr

namespace Outcome

/-- How a command ends that has executed a program. -/
def exitOf : Except Fault Unit → Exit
  | .ok () => .success
  | .error _ => .fault

/-- What is said of the fault that a program met. -/
def report : Except Fault Unit → String
  | .ok () => ""
  | .error fault => s!"runtime error: {fault.message}\n"

/-- What comes of executing a program. -/
def ofExecution (fuel : Nat) (d : Directory) (p : Program) (limits : Limits) (debug : Bool) :
    Option Outcome :=
  let plain : Machine Buffer Buffer := Machine.new limits Buffer.empty
  let m := if debug then plain.withTrace { text := p.listing } else plain
  (m.run p fuel).map fun (result, m) =>
    let shown := (m.trace.getD Buffer.empty).text
    ⟨exitOf result, m.output.text, shown ++ report result, d⟩

end Outcome

namespace Plan

/-- What comes of a plan, if the program that it executes needs no more than the given steps. -/
def outcome (fuel : Nat) (d : Directory) : Plan → Option Outcome
  | done exit stdout stderr => some ⟨exit, stdout, stderr, d⟩
  | read path next => outcome fuel d (next (d.read path))
  | write path content next =>
    match d.write path content with
    | .ok d => outcome fuel d (next (.ok ()))
    | .error e => outcome fuel d (next (.error e))
  | execute p limits debug => Outcome.ofExecution fuel d p limits debug

end Plan

end PCode
