import PCode.Command.Outcome

/-!
# The command line

Carries out the plan of `pl0vm` on the real file system. Everything that is decided is decided by
the plan; here files are read and written, and text is shown as the machine produces it.
-/

namespace PCode

open Files

/-- The error of the operating system behind a failed action. -/
def Files.SystemError.ofError : IO.Error → SystemError
  | .alreadyExists _ code details | .otherError code details | .resourceBusy code details
  | .resourceVanished code details | .unsupportedOperation code details
  | .hardwareFault code details | .unsatisfiedConstraints code details
  | .illegalOperation code details | .protocolError code details | .timeExpired code details
  | .interrupted _ code details | .noFileOrDirectory _ code details
  | .invalidArgument _ code details | .permissionDenied _ code details
  | .resourceExhausted _ code details | .inappropriateType _ code details
  | .noSuchThing _ code details => ⟨code.toNat, details⟩
  | e => ⟨0, toString e⟩

/-- Performs an action, and gives the error of the operating system if it fails. -/
def attempt {α : Type} (action : IO α) : IO (Except SystemError α) := do
  try return .ok (← action)
  catch e => return .error (SystemError.ofError e)

/-- Shows texts on the standard output and the standard error. -/
def emit (stdout stderr : String) : IO Unit := do
  let out ← IO.getStdout
  out.putStr stdout
  out.flush
  IO.eprint stderr

/-- Runs a machine to its end and shows its output and its trace on the way. -/
partial def drive (p : Program) (m : Machine Buffer Buffer) : IO (Except Fault Unit) := do
  let (result, m) := m.advance p 65536
  emit m.output.text (m.trace.getD Buffer.empty).text
  let m := { m with output := Buffer.empty, trace := m.trace.map fun _ => Buffer.empty }
  if m.state.status = .running then drive p m else return (m.conclude result).1

/-- Carries out a plan. -/
def Plan.perform : Plan → IO Exit
  | done exit stdout stderr => do
    emit stdout stderr
    return exit
  | read path next => do
    let content ← attempt (IO.FS.withFile path .read fun file => file.readBinToEnd)
    perform (next (content.map fun bytes => bytes.data.toList))
  | write path content next => do
    let written ← attempt (IO.FS.writeBinFile path ⟨content.toArray⟩)
    perform (next written)
  | execute p limits debug => do
    let plain : Machine Buffer Buffer := Machine.new limits Buffer.empty
    let result ← drive p (if debug then plain.withTrace { text := p.listing } else plain)
    emit "" (Outcome.report result)
    return Outcome.exitOf result

end PCode

/-- The command line `pl0vm`. -/
def main (arguments : List String) : IO UInt32 := do
  return (← (PCode.pl0vm arguments).perform).code
