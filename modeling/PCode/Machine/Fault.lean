/-!
# Faults

A fault stops the machine. It has a cause and names the position of the instruction that was being
executed, or fetched.
-/

namespace PCode

/-- Why an instruction cannot be executed. -/
inductive Cause where
  /-- The code stands for no opcode. -/
  | unknownInstruction (code : UInt8)
  /-- The code stands for no operation. -/
  | unknownOperation (code : UInt8)
  /-- The operands are not those that the opcode takes. -/
  | malformedInstruction (code : UInt8)
  /-- The stack has no room. -/
  | stackOverflow
  /-- The stack has nothing left. -/
  | stackUnderflow
  /-- The stack has no cell at this address. -/
  | addressOutOfRange (address : Int)
  /-- The display has no word for this level. -/
  | levelOutOfRange (level : Int)
  /-- The program has no instruction at this position. -/
  | programCounterOutOfRange (position : Int)
  /-- The divisor is zero. -/
  | divisionByZero
  /-- The output sink failed. -/
  | output (message : String)
deriving DecidableEq, Repr

/-- A cause, and the position of the instruction that met it. -/
structure Fault where
  /-- The position of the instruction. -/
  position : Nat
  /-- Why it cannot be executed. -/
  cause : Cause
deriving DecidableEq, Repr

namespace Fault

/-- The fault in words. -/
def message (f : Fault) : String :=
  let place := s!"at instruction {f.position}"
  match f.cause with
  | .unknownInstruction code => s!"unknown instruction code: {code.toNat} {place}"
  | .unknownOperation code => s!"unknown operation type: {code.toNat} {place}"
  | .malformedInstruction code => s!"malformed instruction with code {code.toNat} {place}"
  | .stackOverflow => s!"stack overflow {place}"
  | .stackUnderflow => s!"stack underflow {place}"
  | .addressOutOfRange address => s!"stack address {address} out of range {place}"
  | .levelOutOfRange level => s!"lexical level {level} out of range {place}"
  | .programCounterOutOfRange position => s!"program counter {position} out of range {place}"
  | .divisionByZero => s!"division by zero {place}"
  | .output message => s!"output error {place}: {message}"

end Fault

end PCode
