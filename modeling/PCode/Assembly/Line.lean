import PCode.Assembly.Token
import PCode.Instruction
import PCode.Width

/-!
# The instruction of a line

A line without tokens is blank. Any other line is the name of an opcode and its operands:

* a level and an offset of 16 bits each (`LOD`, `LDA`, `STO`, `CAL`, `RET`);
* one number of 32 bits (`LIT`) or of 16 bits (`ICT`, `JMP`, `JPC`);
* the name of an operation or a raw code (`OPR`).

The count of operands is looked at before the operands, and they are looked at from left to right.
-/

namespace PCode.Assembly

/-- The number that a token stands for, narrowed to the width of a field. -/
def narrow {α : Type} (width : Int → Option α) (op : Opcode) (field : Field) :
    Token → Except LineError α
  | .number n => (width n).elim (.error (.outOfRange op field n)) .ok
  | token => .error (.unexpectedToken token.text)

/-- The code of the operation that a token names. -/
def operationCode : Token → Except LineError UInt8
  | .name name =>
    match Operation.ofMnemonic? name with
    | some operation => .ok operation.code
    | none => .error (.unknownOperation name)
  | .raw code => .ok code
  | token => .error (.unexpectedToken token.text)

/-- What is wrong with a list of operands that has the wrong length for the opcode. -/
def countError (op : Opcode) (operands : List Token) : LineError :=
  match operands[op.shape.operands]? with
  | some extra => .unexpectedToken extra.text
  | none => .missingOperand op

/-- The instruction with a given opcode and the operands that the tokens stand for. -/
def withOperands (op : Opcode) (operands : List Token) : Except LineError Instruction :=
  match op.shape, operands with
  | .address, [level, offset] => do
    let level ← narrow int16? op .level level
    let offset ← narrow int16? op .offset offset
    return .address op.code level offset
  | .value, [immediate] =>
    if op = .lit then return .value op.code (← narrow int32? op .immediate immediate)
    else return .value op.code (← narrow int16? op .immediate immediate).toInt32
  | .operation, [operation] => return .operation (← operationCode operation)
  | _, _ => .error (countError op operands)

/-- The instruction that the tokens of a line stand for; none if there are no tokens. -/
def ofTokens : List Token → Except LineError (Option Instruction)
  | [] => .ok none
  | .name name :: operands =>
    match Opcode.ofMnemonic? name with
    | some op => (withOperands op operands).map some
    | none => .error (.unknownOpcode name)
  | token :: _ => .error (.unexpectedToken token.text)

/-- The instruction that a line denotes; none if the line is blank. -/
def ofLine (line : List Char) : Except LineError (Option Instruction) := do
  ofTokens (← lineTokens line)

end PCode.Assembly
