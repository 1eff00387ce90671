import PCode.Machine.State
import PCode.Width

/-!
# Access to the state

The elementary actions that instructions are made of. Each checks what it needs and stops with a
cause if it is not there. What an instruction has done before such a stop stays done.
-/

namespace PCode

/-- An action on the state that may stop with a cause. The state it leaves is part of the result
either way. -/
abbrev Exec (α : Type) := EStateM Cause State α

namespace Exec

/-! ## The stack -/

/-- Puts a word on top of the stack. -/
def push (word : Int64) : Exec Unit := fun s =>
  if s.top < s.stack.size then
    .ok () { s with stack := s.stack.setIfInBounds s.top word, top := s.top + 1 }
  else .error .stackOverflow s

/-- Takes the word on top off the stack. Its cell keeps it. -/
def pop : Exec Int64 := fun s =>
  match s.top with
  | 0 => .error .stackUnderflow s
  | top + 1 => .ok (s.stack.getD top 0) { s with top := top }

/-- Moves the top of the stack. -/
def setTop (top : Int) : Exec Unit := fun s =>
  if top < 0 then .error .stackUnderflow s
  else if s.stack.size < top then .error .stackOverflow s
  else .ok () { s with top := top.toNat }

/-- The index of the cell with a given address. -/
def cell (address : Int) : Exec Nat := fun s =>
  if 0 ≤ address ∧ address < s.stack.size then .ok address.toNat s
  else .error (.addressOutOfRange address) s

/-- The word in a cell. -/
def read (index : Nat) : Exec Int64 := fun s => .ok (s.stack.getD index 0) s

/-- Changes the word in a cell. -/
def write (index : Nat) (word : Int64) : Exec Unit := fun s =>
  .ok () { s with stack := s.stack.setIfInBounds index word }

/-! ## The display -/

/-- The index of the display word of a level. -/
def level (level : Int) : Exec Nat := fun s =>
  if 0 ≤ level ∧ level < s.display.size then .ok level.toNat s
  else .error (.levelOutOfRange level) s

/-- The display word of a level. -/
def frame (level : Nat) : Exec Int64 := fun s => .ok (s.display.getD level 0) s

/-- Changes the display word of a level. -/
def setFrame (level : Nat) (word : Int64) : Exec Unit := fun s =>
  .ok () { s with display := s.display.setIfInBounds level word }

/-- The address at an offset from the frame of a level. A display word may be any 64-bit number, so
the sum need not fit 64 bits; it is then reported as the nearest number that does. -/
def address (level offset : Int16) : Exec Int := do
  let base ← frame (← Exec.level level.toInt)
  let sum := base.toInt + offset.toInt
  if (int64? sum).isSome then return sum
  else throw (.addressOutOfRange (clamp64 sum))

/-! ## The program counter -/

/-- Goes on at a position. A position after the end of the program is found out at the next fetch.
-/
def jump (position : Int) : Exec Unit := fun s =>
  if position < 0 then .error (.programCounterOutOfRange position) s
  else .ok () { s with pc := position.toNat }

/-- The instruction at the program counter, which moves on by one. -/
def fetch {α : Type} (get? : Nat → Option α) : Exec α := fun s =>
  match get? s.pc with
  | none => .error (.programCounterOutOfRange s.pc) { s with position := s.pc }
  | some i => .ok i { s with position := s.pc, pc := s.pc + 1, steps := s.steps + 1 }

end Exec

end PCode
