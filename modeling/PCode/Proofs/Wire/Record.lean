import Mathlib.Algebra.Group.Nat.Defs
import PCode.Proofs.Traversal
import PCode.Wire.Record

/-!
# Records and instructions

`Instruction.Representable` says which instructions have a record: the code stands for an opcode,
the operands are those of the opcode, and the value of `ICT`, `JMP` or `JPC` fits 16 bits.

* `record_eq_ok_iff`: the records of an instruction and the operand bytes of an opcode determine
  each other.
* `exists_record_iff`: the instructions with a record are the representable ones.
-/

namespace PCode

/-! ## Words as bytes -/

namespace LittleEndian

/-- Reading what was written gives the number, without what is beyond its bytes. -/
theorem value_bytes (count n : Nat) : value (bytes count n) = n % 256 ^ count := by
  induction count generalizing n with
  | zero => simp [bytes, value, Nat.mod_one]
  | succ count ih =>
    have hpow : 256 ^ (count + 1) = 256 * 256 ^ count := Nat.pow_succ'
    rw [bytes, value, ih, UInt8.toNat_ofNat', hpow, Nat.mod_mul]

theorem value_mod (bs : Bytes) : value bs % 256 ^ bs.length = value bs := by
  rw [← value_bytes, bytes_value]

theorem ofNat_value_bytes16 (w : Int16) : Int16.ofNat (value (bytes 2 w.toUInt16.toNat)) = w := by
  have hlt : w.toUInt16.toNat < 256 ^ 2 := w.toUInt16.toNat_lt
  rw [value_bytes, Nat.mod_eq_of_lt hlt]
  exact congrArg UInt16.toInt16 UInt16.ofNat_toNat

theorem ofNat_value_bytes32 (w : Int32) : Int32.ofNat (value (bytes 4 w.toUInt32.toNat)) = w := by
  have hlt : w.toUInt32.toNat < 256 ^ 4 := w.toUInt32.toNat_lt
  rw [value_bytes, Nat.mod_eq_of_lt hlt]
  exact congrArg UInt32.toInt32 UInt32.ofNat_toNat

theorem bytes_ofNat_value16 {bs : Bytes} (h : bs.length = 2) :
    bytes 2 (Int16.ofNat (value bs)).toUInt16.toNat = bs := by
  have hmod : value bs % 2 ^ 16 = value bs := by simpa [h] using value_mod bs
  rw [Int16.toUInt16_ofNat', UInt16.toNat_ofNat', hmod, ← h, bytes_value]

theorem bytes_ofNat_value32 {bs : Bytes} (h : bs.length = 4) :
    bytes 4 (Int32.ofNat (value bs)).toUInt32.toNat = bs := by
  have hmod : value bs % 2 ^ 32 = value bs := by simpa [h] using value_mod bs
  rw [Int32.toUInt32_ofNat', UInt32.toNat_ofNat', hmod, ← h, bytes_value]

end LittleEndian

theorem toInt_eq_iff_toInt32 {short : Int16} {w : Int32} :
    short.toInt = w.toInt ↔ short.toInt32 = w := by
  rw [← Int32.toInt_inj, Int16.toInt_toInt32]

/-! ## Operands as bytes -/

namespace Opcode

theorem payloadSize_of_address {op : Opcode} (h : op.shape = .address) : op.payloadSize = 4 := by
  cases op <;> first | rfl | cases h

theorem payloadSize_of_value {op : Opcode} (h : op.shape = .value) (hlit : op ≠ lit) :
    op.payloadSize = 2 := by
  cases op <;> first | rfl | exact absurd rfl hlit | cases h

theorem eq_opr_of_operation {op : Opcode} (h : op.shape = .operation) : op = opr := by
  cases op <;> first | rfl | cases h

@[simp] theorem code_instruction (op : Opcode) (payload : Bytes) :
    (op.instruction payload).code = op.code := by
  unfold instruction
  split
  · rfl
  · split <;> rfl
  next h => rw [eq_opr_of_operation h]; rfl

@[simp] theorem shape_instruction (op : Opcode) (payload : Bytes) :
    (op.instruction payload).shape = op.shape := by
  unfold instruction
  split
  next h => exact h.symm
  next h => split <;> exact h.symm
  next h => exact h.symm

end Opcode

namespace Instruction

open LittleEndian

/-- **Operands.** The operand bytes of an instruction are those that its opcode reads it from. -/
theorem payload_eq_ok_iff {i : Instruction} {op : Opcode} (hcode : op.code = i.code)
    (hshape : op.shape = i.shape) {bs : Bytes} :
    i.payload op = .ok bs ↔ bs.length = op.payloadSize ∧ i = op.instruction bs := by
  cases i with
  | address code level offset =>
    obtain rfl : op.code = code := hcode
    replace hshape : op.shape = .address := hshape
    simp only [payload, Opcode.instruction, hshape, Opcode.payloadSize_of_address hshape,
      address.injEq, true_and, Except.ok.injEq]
    constructor
    · rintro rfl
      simp [ofNat_value_bytes16]
    · rintro ⟨hlength, rfl, rfl⟩
      rw [bytes_ofNat_value16 (by simp [hlength]), bytes_ofNat_value16 (by simp [hlength]),
        List.take_append_drop]
  | value code immediate =>
    obtain rfl : op.code = code := hcode
    replace hshape : op.shape = .value := hshape
    by_cases hlit : op = .lit
    · subst hlit
      simp only [payload, Opcode.instruction, hshape, Opcode.payloadSize, if_true, value.injEq,
        true_and, Except.ok.injEq]
      constructor
      · rintro rfl
        simp [ofNat_value_bytes32]
      · rintro ⟨hlength, rfl⟩
        exact bytes_ofNat_value32 hlength
    · simp only [payload, Opcode.instruction, hshape, Opcode.payloadSize_of_value hshape hlit,
        if_neg hlit, value.injEq, true_and]
      constructor
      · intro h
        split at h
        next short hshort =>
          obtain rfl := Except.ok.inj h
          rw [ofNat_value_bytes16, toInt_eq_iff_toInt32.mp (int16?_eq_some_iff.mp hshort)]
          simp
        next => cases h
      · rintro ⟨hlength, rfl⟩
        rw [int16?_eq_some_iff.mpr (Int16.toInt_toInt32 _).symm]
        simp only [bytes_ofNat_value16 hlength]
  | operation selected =>
    obtain rfl := Opcode.eq_opr_of_operation hshape
    simp only [payload, Opcode.instruction, Opcode.shape, Opcode.payloadSize, operation.injEq,
      Except.ok.injEq]
    constructor
    · rintro rfl
      simp [LittleEndian.value]
    · rintro ⟨hlength, rfl⟩
      obtain ⟨b, rfl⟩ := List.length_eq_one_iff.mp hlength
      simp [LittleEndian.value]

/-! ## Records -/

/-- **Records.** The record of an instruction is an opcode and as many operand bytes as it takes,
and it is read back as the instruction. -/
theorem record_eq_ok_iff {i : Instruction} {r : Bytes} :
    i.record = .ok r ↔ ∃ op : Opcode, ∃ payload : Bytes, payload.length = op.payloadSize ∧
      r = op.code :: payload ∧ i = op.instruction payload := by
  constructor
  · intro h
    unfold record at h
    split at h
    next => cases h
    next op hop =>
      split at h
      next hshape =>
        have hcode : op.code = i.code := Opcode.ofCode?_eq_some_iff.mp hop
        obtain ⟨bs, hpayload, rfl⟩ := map_eq_ok_iff.mp h
        obtain ⟨hlength, hi⟩ := (payload_eq_ok_iff hcode hshape).mp hpayload
        exact ⟨op, bs, hlength, rfl, hi⟩
      next => cases h
  · rintro ⟨op, bs, hlength, rfl, rfl⟩
    have hop : (op.instruction bs).opcode? = some op :=
      Opcode.ofCode?_eq_some_iff.mpr (op.code_instruction bs).symm
    have hpayload : (op.instruction bs).payload op = .ok bs :=
      (payload_eq_ok_iff (op.code_instruction bs).symm (op.shape_instruction bs).symm).mpr
        ⟨hlength, rfl⟩
    simp [record, hop, hpayload, Except.map]

/-- The value of an opcode whose record has 16 bits for it lies in the range of 16 bits. -/
def Fits : Instruction → Prop
  | value code immediate =>
    code ∈ [Opcode.ict.code, Opcode.jmp.code, Opcode.jpc.code] →
      -32768 ≤ immediate.toInt ∧ immediate.toInt ≤ 32767
  | _ => True

/-- The instruction can be written as a record. -/
structure Representable (i : Instruction) : Prop where
  /-- The code is that of an opcode, and the operands are those of the opcode. -/
  wellShaped : i.WellShaped
  /-- The value is not too large for the record. -/
  fits : i.Fits

instance : DecidablePred WellShaped := fun i =>
  inferInstanceAs (Decidable (∃ op ∈ i.opcode?, op.shape = i.shape))

instance : DecidablePred Fits
  | address .. | operation _ => inferInstanceAs (Decidable True)
  | value code immediate =>
    inferInstanceAs (Decidable (code ∈ [Opcode.ict.code, Opcode.jmp.code, Opcode.jpc.code] →
      -32768 ≤ immediate.toInt ∧ immediate.toInt ≤ 32767))

instance : DecidablePred Representable := fun i =>
  decidable_of_iff (i.WellShaped ∧ i.Fits) ⟨fun h => ⟨h.1, h.2⟩, fun h => ⟨h.1, h.2⟩⟩

example : (value Opcode.jmp.code (-32768)).Representable ∧
    ¬ (value Opcode.jmp.code 32768).Representable ∧ (value Opcode.lit.code 32768).Representable ∧
    ¬ (value Opcode.lod.code 0).Representable := by decide

theorem fits_value_iff {op : Opcode} (hshape : op.shape = .value) {immediate : Int32} :
    (value op.code immediate).Fits ↔ (op ≠ .lit → (int16? immediate.toInt).isSome) := by
  have hmem : op.code ∈ [Opcode.ict.code, Opcode.jmp.code, Opcode.jpc.code] ↔ op ≠ .lit := by
    cases op <;> first | decide | cases hshape
  simp only [Fits, hmem, int16?_isSome_iff]
  constructor
  all_goals
    intro h hlit
    have hrange := h hlit
    omega

theorem representable_iff {i : Instruction} {op : Opcode} (hop : i.opcode? = some op) :
    i.Representable ↔ op.shape = i.shape ∧ i.Fits := by
  constructor
  · rintro ⟨⟨op', hop', hshape⟩, hfits⟩
    obtain rfl : op = op' := Option.some.inj (hop.symm.trans hop')
    exact ⟨hshape, hfits⟩
  · rintro ⟨hshape, hfits⟩
    exact ⟨⟨op, hop, hshape⟩, hfits⟩

theorem exists_payload_iff {i : Instruction} {op : Opcode} (hcode : op.code = i.code)
    (hshape : op.shape = i.shape) : (∃ bs, i.payload op = .ok bs) ↔ i.Fits := by
  cases i with
  | address | operation => simp [payload, Fits]
  | value code immediate =>
    obtain rfl : op.code = code := hcode
    simp only [payload, fits_value_iff hshape]
    by_cases hlit : op = .lit
    · simp [hlit]
    · cases int16? immediate.toInt <;> simp [hlit]

theorem exists_record_iff {i : Instruction} : (∃ r, i.record = .ok r) ↔ i.Representable := by
  constructor
  · rintro ⟨r, hr⟩
    obtain ⟨op, bs, hlength, rfl, rfl⟩ := record_eq_ok_iff.mp hr
    have hcode : op.code = (op.instruction bs).code := (op.code_instruction bs).symm
    have hshape : op.shape = (op.instruction bs).shape := (op.shape_instruction bs).symm
    refine ⟨⟨op, Opcode.ofCode?_eq_some_iff.mpr hcode, hshape⟩, ?_⟩
    exact (exists_payload_iff hcode hshape).mp
      ⟨bs, (payload_eq_ok_iff hcode hshape).mpr ⟨hlength, rfl⟩⟩
  · rintro ⟨⟨op, hop, hshape⟩, hfits⟩
    have hcode := Opcode.ofCode?_eq_some_iff.mp hop
    obtain ⟨bs, hbs⟩ := (exists_payload_iff hcode hshape).mpr hfits
    obtain ⟨hlength, hi⟩ := (payload_eq_ok_iff hcode hshape).mp hbs
    exact ⟨op.code :: bs, record_eq_ok_iff.mpr ⟨op, bs, hlength, rfl, hi⟩⟩

end Instruction

end PCode
