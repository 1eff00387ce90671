import Mathlib.Control.Monad.Basic
import PCode.Proofs.Assembly.Acceptance
import PCode.Proofs.Machine.Congruence
import PCode.Proofs.Machine.Session

/-!
# Instructions that are refused

Two parts look at the code and the operands of an instruction: the machine before it executes it,
and the encoder before it writes its record. They refuse the same instructions for the same reason,
although one goes by a list of cases and the other by the shape that the opcode takes.

* `Instruction.not_rejects_of_execute`: an instruction whose code and operands belong together is
  not refused, wherever else it may stop.
* `Machine.step_refuses_iff`: a step refuses the instructions that the encoder refuses.
* `Machine.not_rejects_of_after`, `Machine.not_rejects_of_run`: a program of representable
  instructions is never refused.
* `Machine.rejection_agrees_with_encode`: so no program that was read from bytes or from a text is.
-/

namespace PCode

/-! ## Execution -/

/-- Compares an action with itself in the same state. A refusal is not spared, and would have to be
another cause than it is. So an action that keeps this simulation refuses nothing. -/
def screening : Simulation Cause where
  related s t := t = s
  spared c := ¬c.Rejects
  stop _ := .stackOverflow

theorem screening_keeps {α : Type} {x : Exec α} (h : ∀ s c s', x s = .error c s' → ¬c.Rejects) :
    screening.Keeps (fun _ => True) x := by
  rintro _ s rfl
  cases hx : x s with
  | ok a s' => exact ⟨rfl, rfl, trivial⟩
  | error c s' => exact .inl (h s c s' hx)

theorem screening_congruent :
    Congruent screening (fun _ => True) (fun _ => True) (fun _ => True) where
  top_eq h := congrArg State.top h
  pc_eq h := congrArg State.pc h
  room := by
    rintro s _ n rfl hn
    exact ⟨hn, fun _ _ => trivial⟩
  overflow _ := .inl id
  stops _ h := .inl h
  push _ := screening_keeps fun s c s' h => by
    unfold Exec.push at h
    split at h <;> cases h
    exact id
  pop := screening_keeps fun s c s' h => by
    unfold Exec.pop at h
    split at h <;> cases h
    exact id
  setTop _ := screening_keeps fun s c s' h => by
    unfold Exec.setTop at h
    split at h
    · cases h
      exact id
    · split at h <;> cases h
      exact id
  cell _ := screening_keeps fun s c s' h => by
    unfold Exec.cell at h
    split at h <;> cases h
    exact id
  read _ := screening_keeps fun s c s' h => by cases h
  write _ _ := screening_keeps fun s c s' h => by cases h
  level _ := screening_keeps fun s c s' h => by
    unfold Exec.level at h
    split at h <;> cases h
    exact id
  frame _ := screening_keeps fun s c s' h => by cases h
  setFrame _ _ _ := screening_keeps fun s c s' h => by cases h
  jump _ := screening_keeps fun s c s' h => by
    unfold Exec.jump at h
    split at h <;> cases h
    exact id

namespace Instruction

variable {i : Instruction}

/-- **Execution.** An instruction whose code and operands belong together is not refused. -/
theorem not_rejects_of_execute {c : Cause} {s s' : State} (hi : i.WellShaped)
    (h : i.execute s = .error c s') : ¬c.Rejects := by
  intro hrejects
  have hkeeps := screening_congruent.execute hi fun _ _ => trivial
  obtain ⟨t, hstop, -⟩ := hkeeps.of_error rfl h (not_not_intro hrejects)
  have hc : c = .stackOverflow := (EStateM.Result.error.inj (h.symm.trans hstop)).1
  rw [hc] at hrejects
  exact hrejects

/-! ## Encoding -/

theorem record_of_unknown (h : i.opcode? = none) :
    i.record = .error (.unknownInstruction i.code) := by
  simp only [record, h]

theorem record_of_mismatch {op : Opcode} (hop : i.opcode? = some op) (hshape : op.shape ≠ i.shape) :
    i.record = .error (.shapeMismatch i.code) := by
  simp only [record, hop, if_neg hshape]

theorem immediate_of_record_error {e : RecordError} (hi : i.WellShaped) (h : i.record = .error e) :
    ∃ immediate, e = .immediateOutOfRange immediate := by
  obtain ⟨op, hop, hshape⟩ := hi
  simp only [record, hop, if_pos hshape, map_eq_error_iff] at h
  unfold payload at h
  split at h
  · cases h
  · split at h
    · cases h
    · split at h <;> cases h
      exact ⟨_, rfl⟩
  · cases h

end Instruction

theorem Program.encode_singleton_eq_error_iff {i : Instruction} {cause : RecordError} :
    (ofList [i]).encode = .error ⟨0, cause⟩ ↔ i.record = .error cause := by
  rw [encode_eq_numbered, map_eq_error_iff, toList_ofList, numbered_cons]
  cases i.record with
  | error e =>
    show Except.error (EncodeError.mk 0 e) = .error ⟨0, cause⟩ ↔ _
    simp
  | ok r => exact ⟨nofun, nofun⟩

/-! ## Steps -/

/-- The machine and the encoder refuse an instruction for the same reason. -/
inductive SameReason : Cause → RecordError → Prop
  /-- The code stands for no opcode. -/
  | unknown (code : UInt8) : SameReason (.unknownInstruction code) (.unknownInstruction code)
  /-- The operands are not those that the opcode takes. -/
  | mismatch (code : UInt8) : SameReason (.malformedInstruction code) (.shapeMismatch code)

namespace Machine

variable {ω τ : Type} [Sink ω] [Sink τ] {p : Program} {m : Machine ω τ} {i : Instruction}

theorem step_of_throw {c : Cause} (hrun : m.state.status = .running)
    (hi : p.get? m.state.pc = some i) (h : i.execute = throw c) :
    (step p m).1 = .error ⟨m.state.pc, c⟩ := by
  obtain ⟨s, output, trace⟩ := m
  have hexecute : i.execute s.fetched = .error c s.fetched := by
    rw [h]
    rfl
  have hcycle : cycle p s = .error c s.fetched := cycle_error_iff.mpr (.inr ⟨i, hi, hexecute⟩)
  rw [step_of_error hrun hcycle]
  rfl

theorem not_rejects_of_cycle {c : Cause} {s s' : State}
    (hp : ∀ i, p.get? s.pc = some i → i.WellShaped) (h : cycle p s = .error c s') :
    ¬c.Rejects := by
  rcases cycle_error_iff.mp h with ⟨-, rfl, -⟩ | ⟨i, hi, hexecute⟩
  · exact id
  · exact Instruction.not_rejects_of_execute (hp i hi) hexecute

theorem not_rejects_of_step {fault : Fault}
    (hp : ∀ i, p.get? m.state.pc = some i → i.WellShaped) (h : (step p m).1 = .error fault) :
    ¬fault.cause.Rejects := by
  have hcase := stepCase p m
  generalize step p m = result at h hcase
  cases hcase with
  | failed hrun hc =>
    cases h
    exact not_rejects_of_cycle hp hc
  | refused =>
    cases h
    exact id
  | stopped | silent | written => cases h

/-- A step refuses an instruction just if the encoder does, and for the same reason. -/
theorem step_refuses_iff {c : Cause} {e : RecordError} (hce : SameReason c e)
    (hrun : m.state.status = .running) (hi : p.get? m.state.pc = some i) :
    (step p m).1 = .error ⟨m.state.pc, c⟩ ↔ i.record = .error e := by
  cases hop : i.opcode? with
  | none =>
    rw [step_of_throw hrun hi (Instruction.execute_of_unknown hop),
      Instruction.record_of_unknown hop]
    cases hce <;> simp
  | some op =>
    by_cases hshape : op.shape = i.shape
    · -- neither of the two refuses the instruction
      have hwell : i.WellShaped := ⟨op, hop, hshape⟩
      constructor
      · intro h
        have hp : ∀ j, p.get? m.state.pc = some j → j.WellShaped := by
          intro j hj
          obtain rfl := Option.some.inj (hi.symm.trans hj)
          exact hwell
        have hrejects : c.Rejects := by cases hce <;> trivial
        exact absurd hrejects (not_rejects_of_step hp h)
      · intro h
        obtain ⟨immediate, rfl⟩ := Instruction.immediate_of_record_error hwell h
        cases hce
    · rw [step_of_throw hrun hi (Instruction.execute_of_mismatch hop hshape),
        Instruction.record_of_mismatch hop hshape]
      cases hce <;> simp

/-! ## Runs -/

theorem not_rejects_of_after {fault : Fault} {n : Nat} (hp : ∀ i ∈ p.toList, i.Representable)
    (h : (step p (after p m n)).1 = .error fault) : ¬fault.cause.Rejects := by
  refine not_rejects_of_step (fun i hi => ?_) h
  have hmem : i ∈ p.toList := Array.mem_toList_iff.mpr (Array.mem_of_getElem? hi)
  exact (hp i hmem).wellShaped

theorem not_rejects_of_run {fuel : Nat} {fault : Fault} {m' : Machine ω τ}
    (hp : ∀ i ∈ p.toList, i.Representable) (h : run p fuel m = some (.error fault, m')) :
    ¬fault.cause.Rejects := by
  rcases fault_of_run h with ⟨k, hk⟩ | ⟨message, hmessage⟩
  · exact not_rejects_of_after hp hk
  · rw [hmessage]
    exact id

/-- **Refusal.** A step refuses the instruction that it has fetched just if the encoder refuses it,
and for the same reason. So a program that was read from bytes or assembled from a text is never
refused, however long it runs and on whatever machine. -/
theorem rejection_agrees_with_encode :
    (∀ (p : Program) (m : Machine ω τ) (i : Instruction), m.state.status = .running →
      p.get? m.state.pc = some i → ∀ code,
        ((step p m).1 = .error ⟨m.state.pc, .unknownInstruction code⟩ ↔
          (Program.ofList [i]).encode = .error ⟨0, .unknownInstruction code⟩) ∧
        ((step p m).1 = .error ⟨m.state.pc, .malformedInstruction code⟩ ↔
          (Program.ofList [i]).encode = .error ⟨0, .shapeMismatch code⟩)) ∧
    ∀ p : Program, ((∃ bs, Program.decode bs = .ok p) ∨ ∃ text, Program.assemble text = .ok p) →
      ∀ m : Machine ω τ,
        (∀ n fault, (step p (after p m n)).1 = .error fault → ¬fault.cause.Rejects) ∧
        ∀ fuel fault m', run p fuel m = some (.error fault, m') → ¬fault.cause.Rejects := by
  constructor
  · intro p m i hrun hi code
    rw [Program.encode_singleton_eq_error_iff, Program.encode_singleton_eq_error_iff]
    exact ⟨step_refuses_iff (.unknown code) hrun hi, step_refuses_iff (.mismatch code) hrun hi⟩
  · intro p hread m
    have hp : ∀ i ∈ p.toList, i.Representable := by
      rcases hread with ⟨bs, hbs⟩ | htext
      · exact Program.exists_encode_iff.mp
          ⟨bs, Program.encode_eq_ok_iff.mpr (Program.decode_eq_ok_iff.mp hbs)⟩
      · exact Program.exists_assemble_iff.mp htext
    exact ⟨fun n fault => not_rejects_of_after hp, fun fuel fault m' => not_rejects_of_run hp⟩

/-- `LOD` with a value is refused by both. `OPR` with a code that no operation has is refused by
none, although its run ends with a fault. -/
theorem rejection_agrees_with_encode_examples :
    let m : Machine Buffer Buffer := new { stackSize := 2 } Buffer.empty
    let lod := Instruction.value Opcode.lod.code 0
    let opr := Program.ofList [.operation 200]
    (step (.ofList [lod]) m).1 = .error ⟨0, .malformedInstruction Opcode.lod.code⟩ ∧
      Program.decode [Opcode.opr.code, 200] = .ok opr ∧
      (step opr (after opr m 0)).1 = .error ⟨0, .unknownOperation 200⟩ ∧
      ¬(Cause.unknownOperation 200).Rejects := by
  intro m lod opr
  have hencode : (Program.ofList [lod]).encode = .error ⟨0, .shapeMismatch Opcode.lod.code⟩ := rfl
  have hlod := (rejection_agrees_with_encode.1 (.ofList [lod]) m lod rfl rfl _).2.mpr hencode
  have hdecode : Program.decode [Opcode.opr.code, 200] = .ok opr := Program.decode_of_encode rfl
  have hstep : (step opr (after opr m 0)).1 = .error ⟨0, .unknownOperation 200⟩ := by decide +kernel
  have hopr := (rejection_agrees_with_encode.2 opr (.inl ⟨_, hdecode⟩) m).1 0 _ hstep
  exact ⟨hlod, hdecode, hstep, hopr⟩

end Machine

end PCode
