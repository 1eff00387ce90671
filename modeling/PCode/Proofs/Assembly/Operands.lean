import PCode.Assembly.Line
import PCode.Proofs.Wire.Record

/-!
# Tokens of an instruction

Which tokens stand for which instruction: the operands that an opcode accepts, by the shape of the
opcode, and the tokens of a whole line.

* `narrow_int16_iff`, `narrow_int32_iff`, `operationCode_eq_ok_iff`: one operand.
* `withOperands_address_iff`, `withOperands_value_iff`, `withOperands_operation_iff`: all operands.
* `ofTokens_eq_some_iff`, `ofTokens_eq_none_iff`: a line.
-/

namespace PCode.Assembly

/-! ## Operands -/

theorem narrow_eq_ok_iff {α : Type} {width : Int → Option α} {toInt : α → Int}
    (hwidth : ∀ n w, width n = some w ↔ toInt w = n) {op : Opcode} {field : Field} {token : Token}
    {w : α} : narrow width op field token = .ok w ↔ token = .number (toInt w) := by
  cases token with
  | number n =>
    have hnarrow : narrow width op field (.number n) = .ok w ↔ width n = some w := by
      simp only [narrow]
      cases width n <;> simp
    rw [hnarrow, hwidth, Token.number.injEq]
    exact eq_comm
  | name | raw => simp [narrow]

theorem narrow_int16_iff {op : Opcode} {field : Field} {token : Token} {w : Int16} :
    narrow int16? op field token = .ok w ↔ token = .number w.toInt :=
  narrow_eq_ok_iff fun _ _ => int16?_eq_some_iff

theorem narrow_int32_iff {op : Opcode} {field : Field} {token : Token} {w : Int32} :
    narrow int32? op field token = .ok w ↔ token = .number w.toInt :=
  narrow_eq_ok_iff fun _ _ => int32?_eq_some_iff

theorem operationCode_eq_ok_iff {token : Token} {code : UInt8} :
    operationCode token = .ok code ↔
      token = .raw code ∨ ∃ op : Operation, token = .name op.mnemonic ∧ op.code = code := by
  cases token with
  | name name =>
    simp only [operationCode, Token.name.injEq, reduceCtorEq, false_or]
    constructor
    · intro h
      split at h
      next op hop =>
        exact ⟨op, (Operation.ofMnemonic?_eq_some_iff.mp hop).symm, Except.ok.inj h⟩
      next => cases h
    · rintro ⟨op, rfl, rfl⟩
      rw [Operation.ofMnemonic?_mnemonic]
  | number n => simp [operationCode]
  | raw c => simp [operationCode]

theorem withOperands_address_iff {op : Opcode} (hshape : op.shape = .address)
    {operands : List Token} {i : Instruction} :
    withOperands op operands = .ok i ↔ ∃ level offset : Int16,
      operands = [.number level.toInt, .number offset.toInt] ∧
        i = .address op.code level offset := by
  constructor
  · intro h
    unfold withOperands at h
    split at h
    next first second _ =>
      obtain ⟨level, hlevel, h⟩ := bind_eq_ok_iff.mp h
      obtain ⟨offset, hoffset, h⟩ := bind_eq_ok_iff.mp h
      rw [narrow_int16_iff.mp hlevel, narrow_int16_iff.mp hoffset]
      exact ⟨level, offset, rfl, pure_eq_ok_iff.mp h⟩
    next heq => simp [hshape] at heq
    next heq => simp [hshape] at heq
    next => cases h
  · rintro ⟨level, offset, rfl, rfl⟩
    simp only [withOperands, hshape]
    exact bind_eq_ok_iff.mpr ⟨level, narrow_int16_iff.mpr rfl,
      bind_eq_ok_iff.mpr ⟨offset, narrow_int16_iff.mpr rfl, rfl⟩⟩

/-- `LIT` takes the number as it is; the other opcodes narrow it first. -/
theorem withOperands_value_iff {op : Opcode} (hshape : op.shape = .value) {operands : List Token}
    {i : Instruction} :
    withOperands op operands = .ok i ↔ ∃ immediate : Int32, operands = [.number immediate.toInt] ∧
      i = .value op.code immediate ∧ (Instruction.value op.code immediate).Fits := by
  simp only [Instruction.fits_value_iff hshape]
  constructor
  · intro h
    unfold withOperands at h
    split at h
    next heq => simp [hshape] at heq
    next =>
      split at h
      next hlit =>
        obtain ⟨w, hw, h⟩ := bind_eq_ok_iff.mp h
        rw [narrow_int32_iff.mp hw]
        exact ⟨w, rfl, pure_eq_ok_iff.mp h, fun hne => absurd hlit hne⟩
      next =>
        obtain ⟨short, hshort, h⟩ := bind_eq_ok_iff.mp h
        rw [narrow_int16_iff.mp hshort]
        refine ⟨short.toInt32, by rw [Int16.toInt_toInt32], pure_eq_ok_iff.mp h, fun _ => ?_⟩
        exact Option.isSome_iff_exists.mpr
          ⟨short, int16?_eq_some_iff.mpr (Int16.toInt_toInt32 short).symm⟩
    next heq => simp [hshape] at heq
    next => cases h
  · rintro ⟨immediate, rfl, rfl, hfits⟩
    simp only [withOperands, hshape]
    by_cases hlit : op = .lit
    · rw [if_pos hlit]
      exact bind_eq_ok_iff.mpr ⟨immediate, narrow_int32_iff.mpr rfl, rfl⟩
    · rw [if_neg hlit]
      obtain ⟨short, hshort⟩ := Option.isSome_iff_exists.mp (hfits hlit)
      have hwide : short.toInt = immediate.toInt := int16?_eq_some_iff.mp hshort
      refine bind_eq_ok_iff.mpr ⟨short, narrow_int16_iff.mpr (by rw [hwide]), ?_⟩
      rw [toInt_eq_iff_toInt32.mp hwide]
      rfl

theorem withOperands_operation_iff {operands : List Token} {i : Instruction} :
    withOperands .opr operands = .ok i ↔
      ∃ token code, operands = [token] ∧ operationCode token = .ok code ∧ i = .operation code := by
  constructor
  · intro h
    unfold withOperands at h
    split at h
    next heq => cases heq
    next heq => cases heq
    next token _ =>
      obtain ⟨code, hcode, h⟩ := bind_eq_ok_iff.mp h
      exact ⟨token, code, rfl, hcode, pure_eq_ok_iff.mp h⟩
    next => cases h
  · rintro ⟨token, code, rfl, hcode, rfl⟩
    exact bind_eq_ok_iff.mpr ⟨code, hcode, rfl⟩

/-! ## Lines -/

theorem ofTokens_eq_some_iff {tokens : List Token} {i : Instruction} :
    ofTokens tokens = .ok (some i) ↔ ∃ (op : Opcode) (operands : List Token),
      tokens = .name op.mnemonic :: operands ∧ withOperands op operands = .ok i := by
  constructor
  · intro h
    unfold ofTokens at h
    split at h
    next => cases h
    next name operands =>
      split at h
      next op hop =>
        obtain ⟨_, hi, hsome⟩ := map_eq_ok_iff.mp h
        obtain rfl := Option.some.inj hsome
        exact ⟨op, operands, by rw [Opcode.ofMnemonic?_eq_some_iff.mp hop], hi⟩
      next => cases h
    next => cases h
  · rintro ⟨op, operands, rfl, hi⟩
    rw [ofTokens, Opcode.ofMnemonic?_mnemonic]
    exact map_eq_ok_iff.mpr ⟨i, hi, rfl⟩

theorem ofTokens_eq_none_iff {tokens : List Token} : ofTokens tokens = .ok none ↔ tokens = [] := by
  constructor
  · intro h
    unfold ofTokens at h
    split at h
    next => rfl
    next =>
      split at h
      · obtain ⟨_, _, hnone⟩ := map_eq_ok_iff.mp h
        cases hnone
      · cases h
    next => cases h
  · rintro rfl
    rfl

end PCode.Assembly
