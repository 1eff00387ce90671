import PCode.Machine.Execute
import PCode.Machine.Sink

/-!
# The machine

A machine is a state, a sink for its output and, if it is traced, a sink for the trace. The
program is not part of it.

`step` executes one instruction. Once the machine has halted or faulted it does nothing. `advance`
takes a number of steps but stops early when the machine does. `run` starts afresh and goes on to
the end, for at most a given number of steps, and then flushes the output. What was written before
a fault stays written.
-/

namespace PCode

/-- A state, with the sinks that its output and its trace go to. -/
structure Machine (ω τ : Type) where
  /-- The state. -/
  state : State
  /-- Where output goes. -/
  output : ω
  /-- Where the trace goes, if there is one. -/
  trace : Option τ := none

namespace Machine

variable {ω τ : Type}

/-- A machine at the start. -/
def new (limits : Limits) (output : ω) : Machine ω τ where
  state := State.entry limits
  output := output

/-- The machine at the start again. Its sinks keep what they hold. -/
def reset (m : Machine ω τ) : Machine ω τ := { m with state := m.state.reset }

/-- The machine with its trace going to a sink. -/
def withTrace (m : Machine ω τ) (sink : τ) : Machine ω τ := { m with trace := some sink }

/-! ## One step -/

/-- What the trace says of an executed instruction: its text, and where the program goes on. -/
def traceRecord (i : Instruction) (pc : Nat) : String := i.text ++ "\n  pc=" ++ toString pc ++ "\n"

/-- Writes to the trace what it says of an executed instruction. A failure to do so is ignored. -/
def note [Sink τ] (i : Instruction) (pc : Nat) (trace : Option τ) : Option τ :=
  trace.map fun sink => (Sink.write (traceRecord i pc) sink).2

/-- Fetches and executes the instruction at the program counter: the instruction, and the text to be
written. -/
def cycle (p : Program) : Exec (Instruction × Option String) := do
  let i ← Exec.fetch p.get?
  return (i, ← i.execute)

/-- Ends a step with a fault. -/
def fail (cause : Cause) (m : Machine ω τ) : Except Fault Status × Machine ω τ :=
  (.error ⟨m.state.position, cause⟩, { m with state := { m.state with status := .faulted } })

/-- Ends a step whose instruction has been executed. -/
def finish [Sink τ] (i : Instruction) (m : Machine ω τ) : Except Fault Status × Machine ω τ :=
  let status := if m.state.pc = 0 then .halted else .running
  let trace := note i m.state.pc m.trace
  (.ok status, { m with state := { m.state with status := status }, trace := trace })

/-- Executes one instruction: the status afterwards or the fault, and the machine afterwards. -/
def step [Sink ω] [Sink τ] (p : Program) (m : Machine ω τ) :
    Except Fault Status × Machine ω τ :=
  match m with
  | ⟨state, output, trace⟩ =>
    if state.status = .running then
      match cycle p state with
      | .error cause state => fail cause ⟨state, output, trace⟩
      | .ok (i, none) state => finish i ⟨state, output, trace⟩
      | .ok (i, some text) state =>
        match Sink.write text output with
        | (.error message, output) => fail (.output message) ⟨state, output, trace⟩
        | (.ok (), output) => finish i ⟨state, output, trace⟩
    else (.ok state.status, ⟨state, output, trace⟩)

/-! ## Many steps -/

/-- Takes steps, at most as many as given, and none after the first that does not leave the machine
running: the result of the last step, and the machine afterwards. -/
def advance [Sink ω] [Sink τ] (p : Program) :
    (steps : Nat) → Machine ω τ → Except Fault Status × Machine ω τ
  | 0, m => (.ok m.state.status, m)
  | steps + 1, m =>
    match step p m with
    | (.ok .running, m) => advance p steps m
    | stopped => stopped

/-- Flushes the output of a machine that has stopped with a result. A failure to do so counts only
if there was no fault. -/
def conclude [Sink ω] (result : Except Fault Status) (m : Machine ω τ) :
    Except Fault Unit × Machine ω τ :=
  let (flushed, output) := Sink.flush m.output
  let result :=
    match result, flushed with
    | .error fault, _ => .error fault
    | .ok _, .error message => .error ⟨m.state.position, .output message⟩
    | .ok _, .ok () => .ok ()
  (result, { m with output := output })

/-- Runs a program from the start to its end: the fault, if any, and the machine afterwards. Nothing
if the machine is still running after the given number of steps. -/
def run [Sink ω] [Sink τ] (p : Program) (fuel : Nat) (m : Machine ω τ) :
    Option (Except Fault Unit × Machine ω τ) :=
  let (result, m) := advance p fuel m.reset
  if m.state.status = .running then none else some (conclude result m)

end Machine

/-- The output of a program that runs on a machine of the usual sizes with nothing to hold it back,
and the fault, if any. Nothing if it is still running after the given number of steps. -/
def Program.run (p : Program) (fuel : Nat) : Option (Except Fault Unit × String) :=
  let m : Machine Buffer Buffer := Machine.new {} Buffer.empty
  (m.run p fuel).map fun (result, m) => (result, m.output.text)

end PCode
