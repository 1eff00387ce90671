import PCode.InstructionSet

/-!
# Errors in assembly text

A `LineError` says what is wrong with one line; an `Assembly.Error` also says which line it is,
counted from one.
-/

namespace PCode.Assembly

/-- The part of an instruction that a number is meant for. -/
inductive Field where
  /-- The lexical level of an address. -/
  | level
  /-- The offset of an address. -/
  | offset
  /-- An immediate value. -/
  | immediate
deriving DecidableEq, Repr

namespace Field

/-- The name of the field. -/
def name : Field → String
  | level => "level"
  | offset => "offset"
  | immediate => "immediate"

end Field

/-- Why a line denotes no instruction. -/
inductive LineError where
  /-- The line starts with a name that no opcode has. -/
  | unknownOpcode (name : String)
  /-- `OPR` is followed by a name that no operation has. -/
  | unknownOperation (name : String)
  /-- The line ends before the opcode has its operands. -/
  | missingOperand (op : Opcode)
  /-- A word starts like a numeral and is none, or is none for its place. -/
  | invalidNumber (word : String)
  /-- The number is too large or too small for the field. -/
  | outOfRange (op : Opcode) (field : Field) (number : Int)
  /-- A token of the wrong kind, or one after the last operand. -/
  | unexpectedToken (token : String)
deriving DecidableEq, Repr

namespace LineError

/-- The error in words. -/
def message : LineError → String
  | unknownOpcode name => s!"'{name}' is not an instruction"
  | unknownOperation name => s!"'{name}' is not an OPR operation"
  | missingOperand op => s!"{op.mnemonic} takes {op.shape.operands} operand(s)"
  | invalidNumber word => s!"malformed number '{word}'"
  | outOfRange op field number => s!"{number} does not fit the {field.name} of {op.mnemonic}"
  | unexpectedToken token => s!"unexpected '{token}'"

end LineError

/-- A line of a text denotes no instruction and is not blank. -/
structure Error where
  /-- The number of the line, from one. -/
  line : Nat
  /-- What is wrong with it. -/
  cause : LineError
deriving DecidableEq, Repr

namespace Error

/-- The error in words. -/
def message (e : Error) : String := s!"line {e.line}: {e.cause.message}"

end Error

end PCode.Assembly
