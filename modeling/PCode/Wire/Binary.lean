import PCode.Wire.Record

/-!
# Binary programs

A binary program is the records of its instructions, one after the other, with nothing before,
between or after them.

`Program.encode` stops at the first instruction without a record and names its position.
`Program.decode` stops at the first byte that starts no complete record and names its offset.
-/

namespace PCode

/-! ## Writing -/

/-- An instruction of a program has no record. -/
structure EncodeError where
  /-- The position of the instruction. -/
  position : Nat
  /-- Why it has none. -/
  cause : RecordError
deriving DecidableEq, Repr

namespace EncodeError

/-- The error in words. -/
def message (e : EncodeError) : String := s!"{e.cause.message} at instruction {e.position}"

end EncodeError

namespace Program

/-- The record of the instruction at a position. -/
def recordAt (position : Nat) (i : Instruction) : Except EncodeError Bytes :=
  i.record.mapError (EncodeError.mk position)

/-- The program as bytes. -/
def encode (p : Program) : Except EncodeError Bytes :=
  (p.toList.zipIdx.mapM fun (i, position) => recordAt position i).map List.flatten

end Program

/-! ## Reading -/

/-- Why no record starts at some byte. -/
inductive DecodeCause where
  /-- The byte stands for no opcode. -/
  | unknownInstruction (code : UInt8)
  /-- The bytes end before the record of the opcode does. -/
  | truncated (code : UInt8)
deriving DecidableEq, Repr

/-- Some byte of a program starts no complete record. -/
structure DecodeError where
  /-- The offset of the byte. -/
  offset : Nat
  /-- Why no record starts there. -/
  cause : DecodeCause
deriving DecidableEq, Repr

namespace DecodeError

/-- The error in words. -/
def message (e : DecodeError) : String :=
  match e.cause with
  | .unknownInstruction code => s!"unknown instruction code: {code.toNat} at byte {e.offset}"
  | .truncated code => s!"truncated record for instruction code {code.toNat} at byte {e.offset}"

end DecodeError

namespace Program

/-- Reads records to the end of the bytes, which start at `offset`, and puts their instructions
after those that are done. -/
def decodeFrom (offset : Nat) (done : Array Instruction) (bytes : Bytes) :
    Except DecodeError Program :=
  match bytes with
  | [] => .ok ⟨done⟩
  | code :: rest =>
    match Opcode.ofCode? code with
    | none => .error ⟨offset, .unknownInstruction code⟩
    | some op =>
      let payload := rest.take op.payloadSize
      if payload.length < op.payloadSize then .error ⟨offset, .truncated code⟩
      else
        decodeFrom (offset + op.recordSize) (done.push (op.instruction payload))
          (rest.drop op.payloadSize)
termination_by bytes.length
decreasing_by
  simp only [List.length_drop, List.length_cons]
  omega

/-- The program that the bytes hold. -/
def decode (bytes : Bytes) : Except DecodeError Program := decodeFrom 0 #[] bytes

end Program

end PCode
