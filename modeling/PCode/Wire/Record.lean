import PCode.Instruction
import PCode.Width
import PCode.Wire.LittleEndian

/-!
# The record of an instruction

In a binary program each instruction is a record: the byte of its opcode and then its operands,
numbers little-endian.

| opcodes | operands | bytes in all |
|---|---|---|
| `LIT` | 32-bit value | 5 |
| `OPR` | operation code | 2 |
| `LOD` `LDA` `STO` `CAL` `RET` | 16-bit level, 16-bit offset | 5 |
| `ICT` `JMP` `JPC` | 16-bit value | 3 |

`Instruction.record` writes a record and says why an instruction has none; `Opcode.instruction`
reads the operands of a record back.
-/

namespace PCode

namespace Opcode

/-- How many bytes the operands of the opcode take in a record. -/
def payloadSize : Opcode → Nat
  | lit | lod | lda | sto | cal | ret => 4
  | ict | jmp | jpc => 2
  | opr => 1

/-- How many bytes a record of the opcode takes. -/
def recordSize (op : Opcode) : Nat := 1 + op.payloadSize

/-- The instruction whose record has this opcode and these operand bytes. -/
def instruction (op : Opcode) (payload : Bytes) : Instruction :=
  match op.shape with
  | .address =>
    .address op.code (Int16.ofNat (LittleEndian.value (payload.take 2)))
      (Int16.ofNat (LittleEndian.value (payload.drop 2)))
  | .value =>
    if op = lit then .value op.code (Int32.ofNat (LittleEndian.value payload))
    else .value op.code (Int16.ofNat (LittleEndian.value payload)).toInt32
  | .operation => .operation (UInt8.ofNat (LittleEndian.value payload))

end Opcode

/-- Why an instruction has no record. -/
inductive RecordError where
  /-- The code stands for no opcode. -/
  | unknownInstruction (code : UInt8)
  /-- The operands are not those that the opcode takes. -/
  | shapeMismatch (code : UInt8)
  /-- The value needs more than the 16 bits that the opcode's record has for it. -/
  | immediateOutOfRange (immediate : Int32)
deriving DecidableEq, Repr

namespace RecordError

/-- The reason in words. -/
def message : RecordError → String
  | unknownInstruction code => s!"unknown instruction code: {code.toNat}"
  | shapeMismatch code => s!"instruction code {code.toNat} has the wrong shape"
  | immediateOutOfRange immediate => s!"immediate {immediate.toInt} does not fit in 16 bits"

end RecordError

namespace Instruction

/-- The operands of an instruction as bytes, if it has this opcode. -/
def payload (op : Opcode) : Instruction → Except RecordError Bytes
  | address _ level offset =>
    .ok (LittleEndian.bytes 2 level.toUInt16.toNat ++ LittleEndian.bytes 2 offset.toUInt16.toNat)
  | value _ immediate =>
    if op = .lit then .ok (LittleEndian.bytes 4 immediate.toUInt32.toNat)
    else
      match int16? immediate.toInt with
      | some short => .ok (LittleEndian.bytes 2 short.toUInt16.toNat)
      | none => .error (.immediateOutOfRange immediate)
  | operation op => .ok [op]

/-- The record of an instruction. Its code is looked at first, then its shape, then its value. -/
def record (i : Instruction) : Except RecordError Bytes :=
  match i.opcode? with
  | none => .error (.unknownInstruction i.code)
  | some op =>
    if op.shape = i.shape then (i.payload op).map (op.code :: ·)
    else .error (.shapeMismatch i.code)

end Instruction

end PCode
