import Mathlib.Algebra.Group.Int.Defs
import Mathlib.Algebra.Group.Nat.Defs
import PCode.Machine.Step

/-!
# The machine with every access checked

The machine reads and writes its stack and its display by index, and counts in words of 64 bits.
Nothing in a definition says that an index is one of the array, or that a sum is one of the word:
reading elsewhere gives zero, writing elsewhere does nothing, and numbers have no bound. Here the
same machine is written down once more with both looked at wherever they matter:

* an index that the stack or the display does not have is a *trap*;
* so is a number that does not fit the word that it is kept in, unsigned for the top of the stack
  and the program counter, signed for addresses and for what is stored in cells.

A trap is not a fault. Faults are what programs can cause; a trap would be an error of the machine.
The number of steps is a mere count and is not bounded here.

What the machine checks by itself (`setTop`, `cell`, `level`, `jump`) needs no second look and is
taken over as it is, by `lift`.
-/

namespace PCode

/-- What the machine must never do. -/
inductive Trap where
  /-- Use a cell that the stack does not have. -/
  | cell (index : Nat)
  /-- Use a word that the display does not have. -/
  | frame (level : Nat)
  /-- Compute a number that does not fit its word. -/
  | overflow (number : Int)
deriving DecidableEq, Repr

/-- Why a checked action stops. -/
inductive Stop where
  /-- The machine would do what it must never do. -/
  | trap (t : Trap)
  /-- The action stops as it always does. -/
  | fault (c : Cause)
deriving DecidableEq, Repr

/-- An action on the state that checks every access. -/
abbrev Checked (α : Type) := EStateM Stop State α

namespace Checked

variable {α : Type}

/-- An action that needs no more checks than it has. -/
def lift (x : Exec α) : Checked α := EStateM.adaptExcept .fault x

/-- The number as an unsigned word. -/
def unsigned (n : Nat) : Checked Nat :=
  if n < 2 ^ 64 then return n else throw (.trap (.overflow n))

/-- The number as a signed word. -/
def signed (n : Int) : Checked Int :=
  if (int64? n).isSome then return n else throw (.trap (.overflow n))

/-! ## Access -/

/-- The word in a cell. -/
def read (index : Nat) : Checked Int64 := fun s =>
  match s.stack[index]? with
  | some word => .ok word s
  | none => .error (.trap (.cell index)) s

/-- Changes the word in a cell. -/
def write (index : Nat) (word : Int64) : Checked Unit := fun s =>
  if h : index < s.stack.size then .ok () { s with stack := s.stack.set index word h }
  else .error (.trap (.cell index)) s

/-- The display word of a level. -/
def frame (level : Nat) : Checked Int64 := fun s =>
  match s.display[level]? with
  | some word => .ok word s
  | none => .error (.trap (.frame level)) s

/-- Changes the display word of a level. -/
def setFrame (level : Nat) (word : Int64) : Checked Unit := fun s =>
  if h : level < s.display.size then .ok () { s with display := s.display.set level word h }
  else .error (.trap (.frame level)) s

/-- Puts a word on top of the stack. -/
def push (word : Int64) : Checked Unit := fun s =>
  if h : s.top < s.stack.size then
    (do
      let top ← unsigned (s.top + 1)
      set { s with stack := s.stack.set s.top word h, top := top }) s
  else .error (.fault .stackOverflow) s

/-- Takes the word on top off the stack. -/
def pop : Checked Int64 := fun s =>
  match s.top with
  | 0 => .error (.fault .stackUnderflow) s
  | top + 1 => read top { s with top := top }

/-- The address at an offset from the frame of a level. The sum is checked in any case. -/
def address (level offset : Int16) : Checked Int := do
  let base ← frame (← lift (Exec.level level.toInt))
  let sum := base.toInt + offset.toInt
  if (int64? sum).isSome then return sum
  else throw (.fault (.addressOutOfRange (clamp64 sum)))

/-- The instruction at the program counter, which moves on by one. -/
def fetch (get? : Nat → Option α) : Checked α := fun s =>
  match get? s.pc with
  | none =>
    (do throw (.fault (.programCounterOutOfRange (← signed s.pc))) : Checked α)
      { s with position := s.pc }
  | some i =>
    (do
      let pc ← unsigned (s.pc + 1)
      set { s with position := s.pc, pc := pc, steps := s.steps + 1 }
      return i) s

/-! ## Instructions -/

/-- Replaces the word on top by a function of it. -/
def unary (f : Int64 → Int64) : Checked Unit := do
  push (f (← pop))

/-- Replaces the two words on top by a function of them. -/
def binary (f : Int64 → Int64 → Int64) : Checked Unit := do
  let right ← pop
  let left ← pop
  push (f left right)

/-- Replaces the two words on top by their quotient. -/
def divide : Checked Unit := do
  let divisor ← pop
  let dividend ← pop
  if divisor = 0 then throw (.fault .divisionByZero)
  push (dividend / divisor)

/-- Replaces the two words on top by whether they compare. -/
def comparison (holds : Int64 → Int64 → Bool) : Checked Unit :=
  binary fun left right => if holds left right then 1 else 0

/-- Pushes the word in the cell at a level and offset. -/
def load (level offset : Int16) : Checked Unit := do
  let index ← lift (Exec.cell (← address level offset))
  push (← read index)

/-- Pushes the address at a level and offset. -/
def loadAddress (level offset : Int16) : Checked Unit := do
  push (Int64.ofInt (← signed (← address level offset)))

/-- Pops a word into the cell at a level and offset. -/
def store (level offset : Int16) : Checked Unit := do
  let word ← pop
  write (← lift (Exec.cell (← address level offset))) word

/-- Replaces the address on top by the word in its cell. -/
def loadIndirect : Checked Unit := do
  let address ← pop
  push (← read (← lift (Exec.cell address.toInt)))

/-- Pops a word, and pops an address, and puts the word into the cell there. -/
def storeIndirect : Checked Unit := do
  let word ← pop
  let address ← pop
  write (← lift (Exec.cell address.toInt)) word

/-- Moves the top of the stack by a distance. -/
def moveTop (distance : Int) : Checked Unit := do
  let top ← signed (← get).top
  lift (Exec.setTop (← signed (top + distance)))

/-- Pops a word, and jumps if it is zero. -/
def jumpIfZero (position : Int) : Checked Unit := do
  if (← pop) = 0 then lift (Exec.jump position)

/-- Opens a frame one level inside the given one, and jumps. -/
def openFrame (level position : Int16) : Checked Unit := do
  let callee ← lift (Exec.level (← signed (level.toInt + 1)))
  let base := (← get).top
  let limit ← unsigned (base + 2)
  if (← get).stack.size < limit then throw (.fault .stackOverflow)
  write base (← frame callee)
  write (← unsigned (base + 1)) (Int64.ofInt (← signed (← get).pc))
  setFrame callee (Int64.ofInt (← signed base))
  lift (Exec.jump position.toInt)

/-- Closes the frame of a level, jumps back to where it was opened, drops the arguments, and leaves
the word that was on top in place of the first of them. -/
def closeFrame (level arguments : Int16) : Checked Unit := do
  let callee ← lift (Exec.level level.toInt)
  let word ← pop
  let index ← lift (Exec.cell (← frame callee).toInt)
  let base ← signed index
  let position ← read (← lift (Exec.cell (← signed (base + 1))))
  modify ({ · with top := index })
  setFrame callee (← read index)
  lift (Exec.jump position.toInt)
  lift (Exec.setTop (← signed (base - arguments.toInt)))
  push word

/-- The effect of an operation, and the text to be written. -/
def perform : Operation → Checked (Option String)
  | .neg => do unary (- ·); return none
  | .add => do binary (· + ·); return none
  | .sub => do binary (· - ·); return none
  | .mul => do binary (· * ·); return none
  | .div => do divide; return none
  | .odd => do unary (· &&& 1); return none
  | .eq => do comparison (· == ·); return none
  | .neq => do comparison (· != ·); return none
  | .ls => do comparison (· < ·); return none
  | .gr => do comparison (· > ·); return none
  | .lseq => do comparison (· ≤ ·); return none
  | .greq => do comparison (· ≥ ·); return none
  | .wrt => do return some (toString (← pop).toInt ++ " ")
  | .wrl => return some "\n"
  | .lid => do loadIndirect; return none
  | .sid => do storeIndirect; return none

/-- The effect of an instruction, and the text to be written. -/
def execute (i : Instruction) : Checked (Option String) :=
  match i.opcode? with
  | none => throw (.fault (.unknownInstruction i.code))
  | some op =>
    match op, i with
    | .lit, .value _ immediate => do push immediate.toInt64; return none
    | .lod, .address _ level offset => do load level offset; return none
    | .lda, .address _ level offset => do loadAddress level offset; return none
    | .sto, .address _ level offset => do store level offset; return none
    | .cal, .address _ level position => do openFrame level position; return none
    | .ret, .address _ level arguments => do closeFrame level arguments; return none
    | .ict, .value _ distance => do moveTop distance.toInt; return none
    | .jmp, .value _ position => do lift (Exec.jump position.toInt); return none
    | .jpc, .value _ position => do jumpIfZero position.toInt; return none
    | .opr, .operation code =>
      match Operation.ofCode? code with
      | some op => perform op
      | none => throw (.fault (.unknownOperation code))
    | _, _ => throw (.fault (.malformedInstruction i.code))

/-! ## The machine -/

/-- Fetches and executes the instruction at the program counter. -/
def cycle (p : Program) : Checked (Instruction × Option String) := do
  let i ← fetch p.get?
  return (i, ← execute i)

/-- Goes back to the start, and writes the header of the outermost frame. -/
def reset : Checked Unit := fun s =>
  (do
    write 0 (← frame 0)
    write 1 (Int64.ofInt (← signed (← get).pc)) : Checked Unit) s.reset

/-- The live cells, which have to be cells of the stack. -/
def live : Checked (Array Int64) := fun s =>
  if s.top ≤ s.stack.size then .ok s.live s else .error (.trap (.cell s.top)) s

/-- Executes one instruction: the status afterwards or the fault, and the machine afterwards. -/
def step {ω τ : Type} [Sink ω] [Sink τ] (p : Program) (m : Machine ω τ) :
    Except Trap (Except Fault Status × Machine ω τ) :=
  if m.state.status = .running then
    match cycle p m.state with
    | .error (.trap t) _ => .error t
    | .error (.fault cause) state => .ok (Machine.fail cause { m with state := state })
    | .ok (i, none) state => .ok (Machine.finish i { m with state := state })
    | .ok (i, some text) state =>
      match Sink.write text m.output with
      | (.error message, output) =>
        .ok (Machine.fail (.output message) ⟨state, output, m.trace⟩)
      | (.ok (), output) => .ok (Machine.finish i ⟨state, output, m.trace⟩)
  else .ok (.ok m.state.status, m)

end Checked

end PCode
