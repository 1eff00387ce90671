import PCode.Instruction
import PCode.Machine.Access

/-!
# What the instructions do

`execute` is the effect of one instruction on the state. The instructions that write do not write by
themselves: the result of `execute` is the text to be written, if there is one.

Arithmetic is that of signed 64-bit words: it wraps, and division rounds toward zero. A comparison
gives one if it holds and zero if not.
-/

namespace PCode

namespace Exec

/-! ## Arithmetic -/

/-- Replaces the word on top by a function of it. -/
def unary (f : Int64 → Int64) : Exec Unit := do
  push (f (← pop))

/-- Replaces the two words on top by a function of them; the one on top is the right argument. -/
def binary (f : Int64 → Int64 → Int64) : Exec Unit := do
  let right ← pop
  let left ← pop
  push (f left right)

/-- Replaces the two words on top by their quotient; the one on top is the divisor. -/
def divide : Exec Unit := do
  let divisor ← pop
  let dividend ← pop
  if divisor = 0 then throw .divisionByZero
  push (dividend / divisor)

/-- Replaces the two words on top by whether they compare. -/
def comparison (holds : Int64 → Int64 → Bool) : Exec Unit :=
  binary fun left right => if holds left right then 1 else 0

/-! ## Memory -/

/-- Pushes the word in the cell at a level and offset. -/
def load (level offset : Int16) : Exec Unit := do
  let index ← cell (← address level offset)
  push (← read index)

/-- Pushes the address at a level and offset. There need not be a cell. -/
def loadAddress (level offset : Int16) : Exec Unit := do
  push (Int64.ofInt (← address level offset))

/-- Pops a word into the cell at a level and offset. -/
def store (level offset : Int16) : Exec Unit := do
  let word ← pop
  write (← cell (← address level offset)) word

/-- Replaces the address on top by the word in its cell. -/
def loadIndirect : Exec Unit := do
  let address ← pop
  push (← read (← cell address.toInt))

/-- Pops a word, and pops an address, and puts the word into the cell there. -/
def storeIndirect : Exec Unit := do
  let word ← pop
  let address ← pop
  write (← cell address.toInt) word

/-- Moves the top of the stack by a distance. -/
def moveTop (distance : Int) : Exec Unit := do
  setTop ((← get).top + distance)

/-! ## Control -/

/-- Pops a word, and jumps if it is zero. -/
def jumpIfZero (position : Int) : Exec Unit := do
  if (← pop) = 0 then jump position

/-- Opens a frame one level inside the given one, and jumps. The two cells of its header are written
above the top, which stays: the callee moves it over them together with its variables. -/
def openFrame (level position : Int16) : Exec Unit := do
  let callee ← Exec.level (level.toInt + 1)
  let base := (← get).top
  if (← get).stack.size < base + 2 then throw .stackOverflow
  write base (← frame callee)
  write (base + 1) (Int64.ofNat (← get).pc)
  setFrame callee (Int64.ofNat base)
  jump position.toInt

/-- Closes the frame of a level, jumps back to where it was opened, drops the arguments, and leaves
the word that was on top in place of the first of them. -/
def closeFrame (level arguments : Int16) : Exec Unit := do
  let callee ← Exec.level level.toInt
  let word ← pop
  let base ← cell (← frame callee).toInt
  let position ← read (← cell (base + 1))
  setTop base
  setFrame callee (← read base)
  jump position.toInt
  setTop (base - arguments.toInt)
  push word

end Exec

open Exec

namespace Operation

/-- The effect of an operation, and the text to be written. -/
def perform : Operation → Exec (Option String)
  | neg => do unary (- ·); return none
  | add => do binary (· + ·); return none
  | sub => do binary (· - ·); return none
  | mul => do binary (· * ·); return none
  | div => do divide; return none
  | odd => do unary (· &&& 1); return none
  | eq => do comparison (· == ·); return none
  | neq => do comparison (· != ·); return none
  | ls => do comparison (· < ·); return none
  | gr => do comparison (· > ·); return none
  | lseq => do comparison (· ≤ ·); return none
  | greq => do comparison (· ≥ ·); return none
  | wrt => do return some (toString (← pop).toInt ++ " ")
  | wrl => return some "\n"
  | lid => do loadIndirect; return none
  | sid => do storeIndirect; return none

end Operation

namespace Instruction

/-- The effect of an instruction, and the text to be written. The code is looked at first, then
whether it fits the operands. -/
def execute (i : Instruction) : Exec (Option String) :=
  match i.opcode? with
  | none => throw (.unknownInstruction i.code)
  | some op =>
    match op, i with
    | .lit, value _ immediate => do push immediate.toInt64; return none
    | .lod, address _ level offset => do load level offset; return none
    | .lda, address _ level offset => do loadAddress level offset; return none
    | .sto, address _ level offset => do store level offset; return none
    | .cal, address _ level position => do openFrame level position; return none
    | .ret, address _ level arguments => do closeFrame level arguments; return none
    | .ict, value _ distance => do moveTop distance.toInt; return none
    | .jmp, value _ position => do jump position.toInt; return none
    | .jpc, value _ position => do jumpIfZero position.toInt; return none
    | .opr, operation code =>
      match Operation.ofCode? code with
      | some op => op.perform
      | none => throw (.unknownOperation code)
    | _, _ => throw (.malformedInstruction i.code)

end Instruction

end PCode
