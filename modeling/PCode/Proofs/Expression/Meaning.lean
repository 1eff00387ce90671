import PCode.Instruction

/-!
# Expressions

An expression is a tree of constants, variables and operators. A variable is named by a level and an
offset, as a cell is. The value of an expression is a number that fits 64 bits: sums, differences,
products and negations are those of the integers modulo `2 ^ 64`, a quotient is rounded toward zero,
and comparisons give one or zero. There is no value if a divisor is zero.

The code of an expression is its nodes in postorder, a left operand before a right one.

* `Expression.code`, `Expression.depth`: the code, and how many cells of the stack it needs.
* `Expression.value?`: the value, if there is one.
* `Expression.zeroDivisions`: the divisions by zero, as they stand in the code.
* `Expression.value?_eq_none_iff`: there is no value just if there is a division by zero.
-/

namespace PCode

/-- The number from `-2 ^ 63` to `2 ^ 63 - 1` that is the same modulo `2 ^ 64`. -/
def wrap64 (n : Int) : Int := n.bmod 0x10000000000000000

/-! ## Operators -/

/-- An operator with one operand. -/
inductive UnaryOperator where
  | neg
  | odd
deriving DecidableEq, Repr

namespace UnaryOperator

/-- The operation that stands for the operator. -/
def operation : UnaryOperator → Operation
  | neg => .neg
  | odd => .odd

/-- The value from that of the operand. -/
def result : UnaryOperator → Int → Int
  | neg, a => wrap64 (-a)
  | odd, a => a % 2

end UnaryOperator

/-- An operator with two operands. -/
inductive BinaryOperator where
  | add
  | sub
  | mul
  | div
  | eq
  | neq
  | ls
  | gr
  | lseq
  | greq
deriving DecidableEq, Repr

namespace BinaryOperator

/-- The operation that stands for the operator. -/
def operation : BinaryOperator → Operation
  | add => .add
  | sub => .sub
  | mul => .mul
  | div => .div
  | eq => .eq
  | neq => .neq
  | ls => .ls
  | gr => .gr
  | lseq => .lseq
  | greq => .greq

/-- The value of a comparison. -/
def truth (holds : Bool) : Int := if holds then 1 else 0

/-- The value from those of the left and the right operand. -/
def result? : BinaryOperator → Int → Int → Option Int
  | add, a, b => some (wrap64 (a + b))
  | sub, a, b => some (wrap64 (a - b))
  | mul, a, b => some (wrap64 (a * b))
  | div, a, b => if b = 0 then none else some (wrap64 (a.tdiv b))
  | eq, a, b => some (truth (a = b))
  | neq, a, b => some (truth (a ≠ b))
  | ls, a, b => some (truth (a < b))
  | gr, a, b => some (truth (a > b))
  | lseq, a, b => some (truth (a ≤ b))
  | greq, a, b => some (truth (a ≥ b))

theorem result?_eq_none_iff {op : BinaryOperator} {a b : Int} :
    op.result? a b = none ↔ op = div ∧ b = 0 := by
  cases op <;> simp [result?]

end BinaryOperator

/-! ## Trees -/

/-- An expression. -/
inductive Expression where
  /-- A constant. -/
  | literal (value : Int32)
  /-- The variable at a level and offset. -/
  | cell (level offset : Int16)
  | unary (op : UnaryOperator) (operand : Expression)
  | binary (op : BinaryOperator) (left right : Expression)
deriving DecidableEq, Repr

namespace Expression

/-- The code, in postorder. -/
def code : Expression → List Instruction
  | literal value => [.value Opcode.lit.code value]
  | cell level offset => [.address Opcode.lod.code level offset]
  | unary op operand => operand.code ++ [.operation op.operation.code]
  | binary op left right => left.code ++ right.code ++ [.operation op.operation.code]

/-- How many cells the code needs above the top. -/
def depth : Expression → Nat
  | literal _ => 1
  | cell _ _ => 1
  | unary _ operand => operand.depth
  | binary _ left right => max left.depth (1 + right.depth)

/-- The variables. -/
def cells : Expression → List (Int16 × Int16)
  | literal _ => []
  | cell level offset => [(level, offset)]
  | unary _ operand => operand.cells
  | binary _ left right => left.cells ++ right.cells

/-- The value, given those of the variables. -/
def value? (content : Int16 → Int16 → Int) : Expression → Option Int
  | literal value => some value.toInt
  | cell level offset => some (content level offset)
  | unary op operand => (operand.value? content).map op.result
  | binary op left right =>
    (left.value? content).bind fun a => (right.value? content).bind fun b => op.result? a b

/-- Where in the code the divisions stand whose divisor is zero, in order. -/
def zeroDivisions (content : Int16 → Int16 → Int) : Expression → List Nat
  | literal _ => []
  | cell _ _ => []
  | unary _ operand => operand.zeroDivisions content
  | binary op left right =>
    left.zeroDivisions content ++ (right.zeroDivisions content).map (left.code.length + ·) ++
      if op = .div ∧ right.value? content = some 0 then [left.code.length + right.code.length]
      else []

variable {content : Int16 → Int16 → Int} {e : Expression}

theorem depth_pos (e : Expression) : 0 < e.depth := by
  induction e with
  | literal | cell => exact Nat.one_pos
  | unary op operand ih => exact ih
  | binary op left right ihl ihr =>
    show 0 < max left.depth (1 + right.depth)
    omega

/-- There is no value just if there is a division by zero. -/
theorem value?_eq_none_iff : e.value? content = none ↔ e.zeroDivisions content ≠ [] := by
  induction e with
  | literal | cell => simp [value?, zeroDivisions]
  | unary op operand ih => simpa [value?, zeroDivisions] using ih
  | binary op left right ihl ihr =>
    simp only [value?, zeroDivisions]
    cases hl : left.value? content with
    | none =>
      have hleft := ihl.mp hl
      simp [hleft]
    | some a =>
      have hleft : left.zeroDivisions content = [] := by simpa [hl] using ihl
      cases hr : right.value? content with
      | none =>
        have hright := ihr.mp hr
        simp [hright]
      | some b =>
        have hright : right.zeroDivisions content = [] := by simpa [hr] using ihr
        simp [hleft, hright, BinaryOperator.result?_eq_none_iff]

theorem zeroDivisions_of_value {v : Int} (h : e.value? content = some v) :
    e.zeroDivisions content = [] := by
  have hiff : e.value? content = none ↔ e.zeroDivisions content ≠ [] := value?_eq_none_iff
  simpa [h] using hiff

/-- They are divisions. -/
theorem getElem?_of_mem_zeroDivisions {k : Nat} (h : k ∈ e.zeroDivisions content) :
    e.code[k]? = some (.operation Operation.div.code) := by
  induction e generalizing k with
  | literal | cell => cases h
  | unary op operand ih =>
    have hk := ih h
    obtain ⟨hlt, -⟩ := List.getElem?_eq_some_iff.mp hk
    rw [code, List.getElem?_append_left hlt, hk]
  | binary op left right ihl ihr =>
    rw [code, List.append_assoc]
    rw [zeroDivisions, List.mem_append, List.mem_append, List.mem_map] at h
    rcases h with (hl | ⟨d, hr, rfl⟩) | hown
    · have hk := ihl hl
      obtain ⟨hlt, -⟩ := List.getElem?_eq_some_iff.mp hk
      rw [List.getElem?_append_left hlt, hk]
    · have hk := ihr hr
      obtain ⟨hlt, -⟩ := List.getElem?_eq_some_iff.mp hk
      rw [List.getElem?_append_right (Nat.le_add_right _ _), Nat.add_sub_cancel_left,
        List.getElem?_append_left hlt, hk]
    · split at hown
      next hdiv =>
        obtain rfl := List.mem_singleton.mp hown
        rw [List.getElem?_append_right (Nat.le_add_right _ _), Nat.add_sub_cancel_left,
          List.getElem?_append_right (Nat.le_refl _), Nat.sub_self, hdiv.1]
        rfl
      next => cases hown

end Expression

end PCode
