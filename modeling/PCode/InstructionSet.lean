/-!
# The instruction set

Ten opcodes, each with a one-byte code, a three-letter mnemonic and the shape of its operands, and
the sixteen operations that the opcode `OPR` selects from.

* `Opcode.ofCode?_eq_some_iff`, `Operation.ofCode?_eq_some_iff`: a byte names at most one opcode and
  at most one operation, the one whose code it is.
* `Opcode.ofMnemonic?_eq_some_iff`, `Operation.ofMnemonic?_eq_some_iff`: the same for mnemonics.
-/

namespace PCode

/-- What an instruction carries beside its code. -/
inductive Shape where
  /-- A lexical level and an offset. -/
  | address
  /-- One immediate value. -/
  | value
  /-- The code of an operation. -/
  | operation
deriving DecidableEq, Repr

namespace Shape

/-- How many operands an instruction of this shape takes. -/
def operands : Shape → Nat
  | address => 2
  | value => 1
  | operation => 1

end Shape

/-! ## Opcodes -/

/-- The ten instructions. -/
inductive Opcode where
  /-- Push a literal. -/
  | lit
  /-- Perform an `Operation`. -/
  | opr
  /-- Push the cell at a level and offset. -/
  | lod
  /-- Pop into the cell at a level and offset. -/
  | sto
  /-- Open a frame and jump. -/
  | cal
  /-- Close a frame and jump back, leaving the value on top. -/
  | ret
  /-- Move the top of the stack. -/
  | ict
  /-- Jump. -/
  | jmp
  /-- Pop, and jump if it was zero. -/
  | jpc
  /-- Push the address at a level and offset. -/
  | lda
deriving DecidableEq, Repr

namespace Opcode

/-- Every opcode, by rising code. -/
def all : List Opcode := [lit, opr, lod, sto, cal, ret, ict, jmp, jpc, lda]

/-- The byte that stands for the opcode. -/
def code : Opcode → UInt8
  | lit => 1
  | opr => 2
  | lod => 3
  | sto => 4
  | cal => 5
  | ret => 6
  | ict => 7
  | jmp => 8
  | jpc => 9
  | lda => 10

/-- The name of the opcode in assembly text. -/
def mnemonic : Opcode → String
  | lit => "LIT"
  | opr => "OPR"
  | lod => "LOD"
  | sto => "STO"
  | cal => "CAL"
  | ret => "RET"
  | ict => "ICT"
  | jmp => "JMP"
  | jpc => "JPC"
  | lda => "LDA"

/-- What the opcode carries. -/
def shape : Opcode → Shape
  | lod | sto | cal | ret | lda => .address
  | lit | ict | jmp | jpc => .value
  | opr => .operation

/-- The opcode that a byte stands for. -/
def ofCode? (code : UInt8) : Option Opcode := all.find? (·.code == code)

/-- The opcode with a given name; the name is upper-case. -/
def ofMnemonic? (name : String) : Option Opcode := all.find? (·.mnemonic == name)

theorem mem_all (op : Opcode) : op ∈ all := by cases op <;> decide

@[simp] theorem ofCode?_code (op : Opcode) : ofCode? op.code = some op := by cases op <;> rfl

@[simp] theorem ofMnemonic?_mnemonic (op : Opcode) : ofMnemonic? op.mnemonic = some op := by
  cases op <;> rfl

theorem ofCode?_eq_some_iff {code : UInt8} {op : Opcode} :
    ofCode? code = some op ↔ op.code = code := by
  constructor
  · intro h
    simpa using List.find?_some h
  · rintro rfl
    exact ofCode?_code op

theorem ofMnemonic?_eq_some_iff {name : String} {op : Opcode} :
    ofMnemonic? name = some op ↔ op.mnemonic = name := by
  constructor
  · intro h
    simpa using List.find?_some h
  · rintro rfl
    exact ofMnemonic?_mnemonic op

end Opcode

/-! ## Operations -/

/-- What `OPR` can do. Operands are on the stack, the right one on top. -/
inductive Operation where
  /-- Negation. -/
  | neg
  /-- Sum. -/
  | add
  /-- Difference. -/
  | sub
  /-- Product. -/
  | mul
  /-- Quotient, rounded toward zero. -/
  | div
  /-- The lowest bit. -/
  | odd
  /-- Equal. -/
  | eq
  /-- Less. -/
  | ls
  /-- Greater. -/
  | gr
  /-- Not equal. -/
  | neq
  /-- Less or equal. -/
  | lseq
  /-- Greater or equal. -/
  | greq
  /-- Write a number. -/
  | wrt
  /-- Write a line end. -/
  | wrl
  /-- Load through an address on the stack. -/
  | lid
  /-- Store through an address on the stack. -/
  | sid
deriving DecidableEq, Repr

namespace Operation

/-- Every operation, by rising code. -/
def all : List Operation :=
  [neg, add, sub, mul, div, odd, eq, ls, gr, neq, lseq, greq, wrt, wrl, lid, sid]

/-- The byte that stands for the operation. -/
def code : Operation → UInt8
  | neg => 1
  | add => 2
  | sub => 3
  | mul => 4
  | div => 5
  | odd => 6
  | eq => 7
  | ls => 8
  | gr => 9
  | neq => 10
  | lseq => 11
  | greq => 12
  | wrt => 13
  | wrl => 14
  | lid => 15
  | sid => 16

/-- The name of the operation in assembly text. -/
def mnemonic : Operation → String
  | neg => "NEG"
  | add => "ADD"
  | sub => "SUB"
  | mul => "MUL"
  | div => "DIV"
  | odd => "ODD"
  | eq => "EQ"
  | ls => "LS"
  | gr => "GR"
  | neq => "NEQ"
  | lseq => "LSEQ"
  | greq => "GREQ"
  | wrt => "WRT"
  | wrl => "WRL"
  | lid => "LID"
  | sid => "SID"

/-- The operation that a byte stands for. -/
def ofCode? (code : UInt8) : Option Operation := all.find? (·.code == code)

/-- The operation with a given name; the name is upper-case. -/
def ofMnemonic? (name : String) : Option Operation := all.find? (·.mnemonic == name)

theorem mem_all (op : Operation) : op ∈ all := by cases op <;> decide

@[simp] theorem ofCode?_code (op : Operation) : ofCode? op.code = some op := by cases op <;> rfl

@[simp] theorem ofMnemonic?_mnemonic (op : Operation) : ofMnemonic? op.mnemonic = some op := by
  cases op <;> rfl

theorem ofCode?_eq_some_iff {code : UInt8} {op : Operation} :
    ofCode? code = some op ↔ op.code = code := by
  constructor
  · intro h
    simpa using List.find?_some h
  · rintro rfl
    exact ofCode?_code op

theorem ofMnemonic?_eq_some_iff {name : String} {op : Operation} :
    ofMnemonic? name = some op ↔ op.mnemonic = name := by
  constructor
  · intro h
    simpa using List.find?_some h
  · rintro rfl
    exact ofMnemonic?_mnemonic op

end Operation

end PCode
