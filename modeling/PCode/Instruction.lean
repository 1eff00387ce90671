import PCode.InstructionSet

/-!
# Instructions and their text

An instruction keeps its code as a raw byte, so that a value can also stand for a code outside the
instruction set, or for an opcode with operands of another shape. `Instruction.WellShaped` singles
out the ones whose code and operands belong together.

The text of an instruction is its mnemonic followed by its operands in decimal, each after one
space. A code or an operation without a name is written as a number sign and the code.
-/

namespace PCode

/-- One instruction, with whatever code and operands it was given. -/
inductive Instruction where
  /-- A code with a lexical level and an offset. -/
  | address (code : UInt8) (level offset : Int16)
  /-- A code with an immediate value. -/
  | value (code : UInt8) (immediate : Int32)
  /-- `OPR` with the code of an operation. -/
  | operation (op : UInt8)
deriving DecidableEq, Repr

namespace Instruction

/-- The code of the instruction. -/
def code : Instruction → UInt8
  | address code _ _ => code
  | value code _ => code
  | operation _ => Opcode.opr.code

/-- What the instruction carries. -/
def shape : Instruction → Shape
  | address .. => .address
  | value .. => .value
  | operation _ => .operation

/-- The opcode that the instruction's code stands for. -/
def opcode? (i : Instruction) : Option Opcode := Opcode.ofCode? i.code

/-- The code stands for an opcode, and the operands are those that the opcode takes. -/
def WellShaped (i : Instruction) : Prop := ∃ op, i.opcode? = some op ∧ op.shape = i.shape

/-- The text of a code without a name. -/
def rawCode (code : UInt8) : String := "#" ++ toString code.toNat

/-- The first word of the instruction's text. -/
def name (i : Instruction) : String :=
  match i.opcode? with
  | some op => op.mnemonic
  | none => rawCode i.code

/-- The word that names the operation with a given code. -/
def operationName (op : UInt8) : String :=
  match Operation.ofCode? op with
  | some named => named.mnemonic
  | none => rawCode op

/-- The words of the instruction's text after the first. -/
def operandWords : Instruction → List String
  | address _ level offset => [toString level.toInt, toString offset.toInt]
  | value _ immediate => [toString immediate.toInt]
  | operation op => [operationName op]

/-- The instruction as a line of assembly text, without the line end. -/
def text (i : Instruction) : String := " ".intercalate (i.name :: i.operandWords)

end Instruction

/-- A program is a sequence of instructions, counted from zero. -/
structure Program where
  /-- The instructions in order. -/
  instructions : Array Instruction
deriving DecidableEq, Repr

namespace Program

/-- The program with the given instructions. -/
def ofList (instructions : List Instruction) : Program := ⟨instructions.toArray⟩

/-- The instructions in order. -/
def toList (p : Program) : List Instruction := p.instructions.toList

/-- How many instructions the program has. -/
def size (p : Program) : Nat := p.instructions.size

/-- The instruction at a position, if the program reaches that far. -/
def get? (p : Program) (position : Nat) : Option Instruction := p.instructions[position]?

@[simp] theorem toList_ofList (l : List Instruction) : (ofList l).toList = l := rfl

@[simp] theorem ofList_toList (p : Program) : ofList p.toList = p := rfl

@[simp] theorem size_ofList (l : List Instruction) : (ofList l).size = l.length := rfl

end Program

end PCode
