import PCode.Proofs.Wire.Record
import PCode.Wire.Binary

/-!
# Binary programs and their bytes

`Records l bs` says that the bytes are the records of the instructions, one after the other. Both
directions of the codec compute this relation, so each undoes the other.

* `encode_eq_ok_iff`, `decode_eq_ok_iff`: writing and reading agree with `Records`.
* `exists_encode_error_iff`: an error of writing names the first instruction without a record.
* `decode_eq_ok_iff_encode_eq_ok`: the codec is a bijection between the representable programs and
  the strings of bytes that hold a program.
-/

namespace PCode

/-- The bytes are the records of the instructions, one after the other. -/
inductive Records : List Instruction → Bytes → Prop
  | nil : Records [] []
  | cons {i : Instruction} {r : Bytes} {l : List Instruction} {bs : Bytes} :
    i.record = .ok r → Records l bs → Records (i :: l) (r ++ bs)

namespace Records

variable {l : List Instruction}

/-- No record is empty, so only the empty program has no bytes. -/
theorem nil_right_iff : Records l [] ↔ l = [] := by
  constructor
  · intro h
    generalize hbs : ([] : Bytes) = bs at h
    cases h with
    | nil => rfl
    | cons hr h =>
      obtain ⟨op, payload, -, rfl, -⟩ := Instruction.record_eq_ok_iff.mp hr
      cases hbs
  · rintro rfl
    exact nil

/-- The first byte decides where the first record ends. -/
theorem cons_right_iff {code : UInt8} {rest : Bytes} :
    Records l (code :: rest) ↔ ∃ op : Opcode, ∃ tail, op.code = code ∧
      op.payloadSize ≤ rest.length ∧ l = op.instruction (rest.take op.payloadSize) :: tail ∧
      Records tail (rest.drop op.payloadSize) := by
  constructor
  · intro h
    generalize hbs : code :: rest = bs at h
    cases h with
    | nil => cases hbs
    | @cons i r tail bs hr h =>
      obtain ⟨op, payload, hlength, rfl, rfl⟩ := Instruction.record_eq_ok_iff.mp hr
      rw [List.cons_append] at hbs
      obtain ⟨rfl, rfl⟩ := List.cons.inj hbs
      refine ⟨op, tail, rfl, ?_, ?_, ?_⟩
      · simp [hlength]
      · rw [← hlength, List.take_left]
      · rwa [← hlength, List.drop_left]
  · rintro ⟨op, tail, rfl, hsize, rfl, h⟩
    have hrecord : (op.instruction (rest.take op.payloadSize)).record =
        .ok (op.code :: rest.take op.payloadSize) :=
      Instruction.record_eq_ok_iff.mpr ⟨op, _, by simp [hsize], rfl, rfl⟩
    simpa using cons hrecord h

end Records

namespace Program

/-! ## Writing -/

theorem encode_eq_numbered (p : Program) :
    p.encode = (numbered 0 Instruction.record EncodeError.mk p.toList).map List.flatten := rfl

theorem records_iff_mapM {l : List Instruction} {bs : Bytes} :
    Records l bs ↔ ∃ rs, l.mapM Instruction.record = .ok rs ∧ bs = rs.flatten := by
  induction l generalizing bs with
  | nil =>
    constructor
    · rintro ⟨⟩
      exact ⟨[], rfl, rfl⟩
    · rintro ⟨rs, hrs, rfl⟩
      obtain rfl := Except.ok.inj hrs
      exact .nil
  | cons i l ih =>
    constructor
    · intro h
      cases h with
      | cons hr h =>
        obtain ⟨rs, hrs, rfl⟩ := ih.mp h
        exact ⟨_, mapM_cons_eq_ok_iff.mpr ⟨_, rs, hr, hrs, rfl⟩, rfl⟩
    · rintro ⟨rs, hrs, rfl⟩
      obtain ⟨r, rest, hr, hrest, rfl⟩ := mapM_cons_eq_ok_iff.mp hrs
      exact .cons hr (ih.mpr ⟨rest, hrest, rfl⟩)

theorem encode_eq_ok_iff {p : Program} {bs : Bytes} : p.encode = .ok bs ↔ Records p.toList bs := by
  simp only [encode_eq_numbered, map_eq_ok_iff, numbered_eq_ok_iff, records_iff_mapM]

/-- **A program without an encoding.** The error has the position of the first instruction that is
not representable. -/
theorem exists_encode_error_iff {p : Program} {n : Nat} :
    (∃ cause, p.encode = .error ⟨n, cause⟩) ↔
      FirstFailure Instruction.Representable p.toList n := by
  have hnumbered : (∃ cause, numbered 0 Instruction.record EncodeError.mk p.toList =
      .error ⟨n, cause⟩) ↔ ∃ k, FirstFailure Instruction.Representable p.toList k ∧ n = 0 + k :=
    exists_numbered_eq_error_iff (fun _ => Instruction.exists_record_iff)
      fun _ _ _ _ => congrArg EncodeError.position
  simp only [encode_eq_numbered, map_eq_error_iff, hnumbered, Nat.zero_add]
  simp

theorem exists_encode_iff {p : Program} :
    (∃ bs, p.encode = .ok bs) ↔ ∀ i ∈ p.toList, i.Representable := by
  simp only [encode_eq_ok_iff, records_iff_mapM, ← Instruction.exists_record_iff,
    ← exists_mapM_eq_ok_iff]
  constructor
  · rintro ⟨_, rs, hrs, -⟩
    exact ⟨rs, hrs⟩
  · rintro ⟨rs, hrs⟩
    exact ⟨_, rs, hrs, rfl⟩

/-! ## Reading -/

theorem decodeFrom_eq_ok_iff {offset : Nat} {done : Array Instruction} {bs : Bytes} {p : Program} :
    decodeFrom offset done bs = .ok p ↔
      ∃ l, Records l bs ∧ p.toList = done.toList ++ l := by
  -- the induction follows the reader: `done` holds what the bytes before these denote
  fun_induction decodeFrom offset done bs with
  | case1 offset done =>
    simp only [Records.nil_right_iff, exists_eq_left, List.append_nil, Except.ok.injEq]
    constructor
    · rintro rfl
      rfl
    · intro h
      exact (congrArg ofList h).symm
  | case2 offset done code rest hnone =>
    simp [Records.cons_right_iff, ← Opcode.ofCode?_eq_some_iff, hnone]
  | case3 offset done code rest op hop payload hshort =>
    simp only [payload, List.length_take] at hshort
    constructor
    · nofun
    · rintro ⟨l, hl, -⟩
      obtain ⟨op', tail, hcode, hsize, -⟩ := Records.cons_right_iff.mp hl
      obtain rfl : op' = op := by simpa [← hcode] using hop
      omega
  | case4 offset done code rest op hop payload hlong ih =>
    simp only [payload, List.length_take] at hlong
    rw [ih]
    constructor
    · rintro ⟨tail, htail, hp⟩
      refine ⟨op.instruction payload :: tail, Records.cons_right_iff.mpr ?_, by simpa using hp⟩
      exact ⟨op, tail, Opcode.ofCode?_eq_some_iff.mp hop, by omega, rfl, htail⟩
    · rintro ⟨l, hl, hp⟩
      obtain ⟨op', tail, hcode, -, rfl, htail⟩ := Records.cons_right_iff.mp hl
      obtain rfl : op' = op := by simpa [← hcode] using hop
      exact ⟨tail, htail, by simpa using hp⟩

theorem decode_eq_ok_iff {bs : Bytes} {p : Program} :
    decode bs = .ok p ↔ Records p.toList bs := by
  rw [decode, decodeFrom_eq_ok_iff]
  simp [eq_comm]

/-- What a program is written as is read as the program. -/
theorem decode_of_encode {p : Program} {bs : Bytes} (h : p.encode = .ok bs) : decode bs = .ok p :=
  decode_eq_ok_iff.mpr (encode_eq_ok_iff.mp h)

/-- **The codec is a bijection.** A string of bytes is read as a program if and only if the program
is written as these bytes. The programs that can be written are those of representable
instructions: each code is that of one of the ten opcodes, with the operands of this opcode, and
the values of `ICT`, `JMP` and `JPC` fit 16 bits. -/
theorem decode_eq_ok_iff_encode_eq_ok :
    (∀ (bs : Bytes) (p : Program), decode bs = .ok p ↔ p.encode = .ok bs) ∧
      ∀ p : Program, (∃ bs, p.encode = .ok bs) ↔
        ∀ i ∈ p.toList, i.Representable :=
  ⟨fun _ _ => decode_eq_ok_iff.trans encode_eq_ok_iff.symm, fun _ => exists_encode_iff⟩

end Program

end PCode
