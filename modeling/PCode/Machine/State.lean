import PCode.Machine.Fault

/-!
# The state of the machine

The stack is a fixed number of 64-bit cells, of which those below `top` are live. The display holds,
for each lexical level, the address of the frame that is open there. A frame at address `b` of level
`l` lies on the stack like this:

| cells | content |
|---|---|
| `b - n`, …, `b - 1` | the arguments |
| `b` | the word that the display held for level `l` before |
| `b + 1` | the position to return to |
| `b + 2`, … | local variables |

At the start one frame is open, of level 0 at address 0, and its return position is 0. The machine
halts when the program counter comes back to 0.
-/

namespace PCode

/-- The sizes that a machine is asked for. -/
structure Limits where
  /-- The number of cells of the stack. -/
  stackSize : Nat := 2048
  /-- The number of lexical levels. -/
  maxLevel : Nat := 5
deriving DecidableEq, Repr

namespace Limits

/-- The number of cells that the stack gets: at least the two of the outermost frame. -/
def cells (l : Limits) : Nat := max l.stackSize 2

/-- The number of words that the display gets: at least the one of the outermost frame. -/
def levels (l : Limits) : Nat := max l.maxLevel 1

end Limits

/-- Whether the machine goes on. -/
inductive Status where
  /-- There is more to execute. -/
  | running
  /-- An instruction has left the program counter at 0. -/
  | halted
  /-- A fault has stopped the machine. -/
  | faulted
deriving DecidableEq, Repr

/-- What the machine remembers from one instruction to the next. -/
structure State where
  /-- The cells of the stack. -/
  stack : Array Int64
  /-- The address of the open frame of each level. -/
  display : Array Int64
  /-- How many cells are live. -/
  top : Nat := 0
  /-- The position of the next instruction. -/
  pc : Nat := 0
  /-- The position of the instruction fetched last. -/
  position : Nat := 0
  /-- Whether the machine goes on. -/
  status : Status := .running
  /-- How many instructions have been fetched since the start or the last reset. This stands for a
  counter of 64 bits, and is what that shows as long as there were fewer than 2 ^ 64 of them. -/
  steps : Nat := 0
deriving DecidableEq, Repr

namespace State

/-- The state at the start. Both cells of the outermost frame are zero, as all cells are. -/
def entry (limits : Limits) : State where
  stack := Array.replicate limits.cells 0
  display := Array.replicate limits.levels 0

/-- The state at the start of a machine with the same sizes. -/
def reset (s : State) : State where
  stack := Array.replicate s.stack.size 0
  display := Array.replicate s.display.size 0

/-- The live cells. -/
def live (s : State) : Array Int64 := s.stack.take s.top

theorem reset_entry (limits : Limits) : (entry limits).reset = entry limits := by
  simp [reset, entry]

end State

end PCode
