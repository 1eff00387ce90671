import PCode.Proofs.Wire.Binary

/-!
# Where reading stops

Reading goes from record to record and looks at nothing beyond the record it is at. So it can only
fail where a record ends: the bytes up to there are a program, and the ones from there on start no
record. `Stuck bs cause` says that they start none, and why.

* `decodeFrom_append`: records are read, whatever follows them.
* `decodeFrom_of_stuck`: bytes that start no record are refused at once.
* `exists_stuck_of_decodeFrom`: nothing else is refused.
* `decode_error_located`: the offset and the code of every error, as conditions on the bytes.
-/

namespace PCode

/-- There are bytes, but no record starts them, for the given cause. -/
def Stuck (bs : Bytes) : DecodeCause → Prop
  | .unknownInstruction code => bs.head? = some code ∧ ∀ op : Opcode, op.code ≠ code
  | .truncated code => bs.head? = some code ∧ ∃ op : Opcode, op.code = code ∧
      bs.length < op.recordSize

namespace Stuck

variable {bs : Bytes} {cause : DecodeCause}

theorem ne_nil (h : Stuck bs cause) : bs ≠ [] := by
  rintro rfl
  cases cause with
  | unknownInstruction code | truncated code => exact absurd h.1 (by simp)

end Stuck

namespace Program

variable {offset : Nat} {done : Array Instruction} {bs : Bytes}

/-! ## One record after the other -/

/-- A record in front of the bytes is read first, and then the rest. -/
theorem decodeFrom_record {op : Opcode} {payload : Bytes} (h : payload.length = op.payloadSize) :
    decodeFrom offset done (op.code :: (payload ++ bs)) =
      decodeFrom (offset + op.recordSize) (done.push (op.instruction payload)) bs := by
  rw [decodeFrom]
  simp only [Opcode.ofCode?_code, ← h, List.take_left, List.drop_left, Nat.lt_irrefl, if_false]

/-- **No lookahead.** Bytes that hold a program are read as it, whatever follows them. -/
theorem decodeFrom_append {l : List Instruction} {front : Bytes} (h : Records l front) :
    decodeFrom offset done (front ++ bs) =
      decodeFrom (offset + front.length) (done ++ l.toArray) bs := by
  induction h generalizing offset done with
  | nil => simp
  | @cons i r l front hr h ih =>
    obtain ⟨op, payload, hlength, rfl, rfl⟩ := Instruction.record_eq_ok_iff.mp hr
    rw [List.cons_append, List.cons_append, List.append_assoc, decodeFrom_record hlength, ih]
    congr 1
    · simp only [Opcode.recordSize, List.length_cons, List.length_append, hlength]
      omega
    · simp

theorem decodeFrom_of_stuck {cause : DecodeCause} (h : Stuck bs cause) :
    decodeFrom offset done bs = .error ⟨offset, cause⟩ := by
  obtain ⟨code, rest, rfl⟩ := List.exists_cons_of_ne_nil h.ne_nil
  cases cause with
  | unknownInstruction c =>
    obtain ⟨hhead, hunknown⟩ := h
    obtain rfl : code = c := Option.some.inj hhead
    have hnone : Opcode.ofCode? code = none := by
      apply Option.eq_none_iff_forall_ne_some.mpr
      intro op hop
      exact hunknown op (Opcode.ofCode?_eq_some_iff.mp hop)
    rw [decodeFrom, hnone]
  | truncated c =>
    obtain ⟨hhead, op, rfl, hshort⟩ := h
    obtain rfl : code = op.code := Option.some.inj hhead
    have htake : (rest.take op.payloadSize).length < op.payloadSize := by
      rw [List.length_cons, Opcode.recordSize] at hshort
      rw [List.length_take]
      omega
    rw [decodeFrom, Opcode.ofCode?_code]
    exact if_pos htake

/-! ## The place of an error -/

theorem exists_stuck_of_decodeFrom {e : DecodeError} (h : decodeFrom offset done bs = .error e) :
    ∃ l front rest, bs = front ++ rest ∧ Records l front ∧ e.offset = offset + front.length ∧
      Stuck rest e.cause := by
  -- the induction follows the reader; a record that it passes is put in front of the others
  fun_induction decodeFrom offset done bs with
  | case1 offset done => cases h
  | case2 offset done code rest hnone =>
    obtain rfl := Except.error.inj h
    refine ⟨[], [], code :: rest, rfl, .nil, rfl, rfl, fun op hop => ?_⟩
    exact absurd (Opcode.ofCode?_eq_some_iff.mpr hop) (by simp [hnone])
  | case3 offset done code rest op hop payload hshort =>
    obtain rfl := Except.error.inj h
    refine ⟨[], [], code :: rest, rfl, .nil, rfl, rfl, op, Opcode.ofCode?_eq_some_iff.mp hop, ?_⟩
    simp only [payload, List.length_take] at hshort
    rw [List.length_cons, Opcode.recordSize]
    omega
  | case4 offset done code rest op hop payload hlong ih =>
    obtain ⟨l, front, tail, hrest, hl, hoffset, hstuck⟩ := ih h
    obtain rfl : op.code = code := Opcode.ofCode?_eq_some_iff.mp hop
    have hlength : payload.length = op.payloadSize := by
      simp only [payload, List.length_take] at hlong ⊢
      omega
    have hrecord : (op.instruction payload).record = .ok (op.code :: payload) :=
      Instruction.record_eq_ok_iff.mpr ⟨op, payload, hlength, rfl, rfl⟩
    refine ⟨_, _, tail, ?_, .cons hrecord hl, ?_, hstuck⟩
    · rw [List.append_assoc, ← hrest, List.cons_append, List.take_append_drop]
    · simp only [hoffset, Opcode.recordSize, List.length_append, List.length_cons, hlength]
      omega

/-- **The place of an error.** Reading fails at an offset if the bytes before it are a program and
those from it on start no record. -/
theorem decode_eq_error_iff {k : Nat} {cause : DecodeCause} :
    decode bs = .error ⟨k, cause⟩ ↔
      (∃ p, decode (bs.take k) = .ok p) ∧ Stuck (bs.drop k) cause := by
  constructor
  · intro h
    obtain ⟨l, front, rest, rfl, hl, hoffset, hstuck⟩ := exists_stuck_of_decodeFrom h
    obtain rfl : k = front.length := by simpa using hoffset
    rw [List.take_left, List.drop_left]
    exact ⟨⟨ofList l, decode_eq_ok_iff.mpr hl⟩, hstuck⟩
  · rintro ⟨⟨p, hp⟩, hstuck⟩
    have hlength : (bs.take k).length = k := by
      have hlt : k < bs.length := by simpa using hstuck.ne_nil
      rw [List.length_take]
      omega
    calc decode bs = decodeFrom 0 #[] (bs.take k ++ bs.drop k) := by
          rw [List.take_append_drop, decode]
      _ = decodeFrom k p.instructions (bs.drop k) := by
          rw [decodeFrom_append (decode_eq_ok_iff.mp hp), hlength, Nat.zero_add]
          simp [toList]
      _ = .error ⟨k, cause⟩ := decodeFrom_of_stuck hstuck

/-- **Errors of reading are located exactly.** A byte is reported as unknown if the bytes before it
are a program and it is the code of no opcode. It is reported as the start of a truncated record if
the bytes before it are a program, it is the code of an opcode, and from it on there are fewer bytes
than a record of the opcode has: five, but three for `ICT`, `JMP` and `JPC`, and two for `OPR`. -/
theorem decode_error_located (bs : Bytes) (k : Nat) (c : UInt8) :
    (decode bs = .error ⟨k, .unknownInstruction c⟩ ↔
      k < bs.length ∧ (∃ p, decode (bs.take k) = .ok p) ∧ bs[k]? = some c ∧
        ∀ op : Opcode, op.code ≠ c) ∧
    (decode bs = .error ⟨k, .truncated c⟩ ↔
      k < bs.length ∧ (∃ p, decode (bs.take k) = .ok p) ∧ bs[k]? = some c ∧
        ∃ op : Opcode, op.code = c ∧ bs.length - k < op.recordSize) ∧
    ∀ op : Opcode, op.recordSize =
      if op = .opr then 2 else if op ∈ [.ict, .jmp, .jpc] then 3 else 5 := by
  have hlt : bs[k]? = some c → k < bs.length := fun h => (List.getElem?_eq_some_iff.mp h).1
  refine ⟨?_, ?_, fun op => by cases op <;> rfl⟩
  · rw [decode_eq_error_iff, Stuck, List.head?_drop]
    constructor
    · rintro ⟨hp, hc, hunknown⟩
      exact ⟨hlt hc, hp, hc, hunknown⟩
    · rintro ⟨-, hp, hc, hunknown⟩
      exact ⟨hp, hc, hunknown⟩
  · rw [decode_eq_error_iff, Stuck, List.head?_drop, List.length_drop]
    constructor
    · rintro ⟨hp, hc, hshort⟩
      exact ⟨hlt hc, hp, hc, hshort⟩
    · rintro ⟨-, hp, hc, hshort⟩
      exact ⟨hp, hc, hshort⟩

end Program

end PCode
