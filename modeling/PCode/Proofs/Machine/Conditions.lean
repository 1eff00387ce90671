import Mathlib.Algebra.Group.Int.Defs
import Mathlib.Algebra.Group.Nat.Defs
import PCode.Proofs.Machine.Bookkeeping
import PCode.Proofs.Machine.Guarded

/-!
# When a step ends with a fault

`Operation.conditions`, `Instruction.conditions` and `Program.conditions` list, in the order in
which they are looked at, the conditions of an operation, of an instruction that has been fetched,
and of a step. Each comes with the cause of the fault that its failure is, and with the state that
is then left.

* `Instruction.guarded_execute`, `Machine.guarded_cycle`: instructions and steps go by their lists.
* `Machine.step_faults_at_first_condition`: so a step succeeds if all its conditions hold, and else
  ends with the fault of the first that does not.
-/

namespace PCode

open Condition Exec

/-! ## The lists -/

/-- The conditions of an operation. -/
def Operation.conditions (s : State) : Operation → List Condition
  | neg | odd | wrt => [.live s]
  | add | sub | mul | eq | neq | ls | gr | lseq | greq => [.live s, .live s.popped]
  | div =>
    [.live s, .live s.popped, ⟨s.word (s.top - 1) ≠ 0, .divisionByZero, s.popped.popped⟩]
  | wrl => []
  | lid => [.live s, .cell (s.word (s.top - 1)).toInt s.popped]
  | sid => [.live s, .live s.popped, .cell (s.word (s.top - 2)).toInt s.popped.popped]

namespace Instruction

/-- The conditions that depend on the operands. The program counter of the state has already moved
on to the next instruction. -/
def operandConditions (i : Instruction) (s : State) : List Condition :=
  match i.opcode?, i with
  | some .lit, value _ _ => [.room s]
  | some .lod, address _ l offset =>
    [.level l.toInt s, .cellAt (s.addressOf l offset) s, .room s]
  | some .lda, address _ l offset => [.level l.toInt s, .fits (s.addressOf l offset) s, .room s]
  | some .sto, address _ l offset =>
    [.live s, .level l.toInt s.popped, .cellAt (s.addressOf l offset) s.popped]
  | some .cal, address _ l position =>
    [.level (l.toInt + 1) s, ⟨s.top + 2 ≤ s.stack.size, .stackOverflow, s⟩,
      .target position.toInt (s.opened l.toInt)]
  | some .ret, address _ l arguments =>
    [.level l.toInt s, .live s, .cell (s.base l) s.popped, .cell (s.base l + 1) s.popped,
      .target (s.returnTo l) (s.closed l),
      .notBelow (s.base l - arguments.toInt) (s.returned l),
      .notAbove (s.base l - arguments.toInt) (s.returned l),
      .room { s.returned l with top := (s.base l - arguments.toInt).toNat }]
  | some .ict, value _ distance =>
    [.notBelow (s.top + distance.toInt) s, .notAbove (s.top + distance.toInt) s]
  | some .jmp, value _ position => [.target position.toInt s]
  | some .jpc, value _ position =>
    [.live s, ⟨s.word (s.top - 1) = 0 → 0 ≤ position.toInt,
      .programCounterOutOfRange position.toInt, s.popped⟩]
  | some .opr, operation code =>
    ⟨(Operation.ofCode? code).isSome, .unknownOperation code, s⟩ ::
      (Operation.ofCode? code).elim [] (Operation.conditions s)
  | _, _ => []

/-- The conditions of an instruction that has been fetched: its code stands for an opcode, it
carries what the opcode takes, and then those of its operands. -/
def conditions (i : Instruction) (s : State) : List Condition :=
  ⟨i.opcode?.isSome, .unknownInstruction i.code, s⟩ ::
    ⟨i.opcode?.map Opcode.shape = some i.shape, .malformedInstruction i.code, s⟩ ::
      i.operandConditions s

end Instruction

/-- The conditions of a step: there is an instruction to fetch, then those of the instruction. -/
def Program.conditions (p : Program) (s : State) : List Condition :=
  ⟨s.pc < p.size, .programCounterOutOfRange s.pc, { s with position := s.pc }⟩ ::
    (p.get? s.pc).elim [] (·.conditions s.fetched)

/-! ## Instructions -/

theorem Operation.guarded_perform (op : Operation) {s : State} (htop : s.top ≤ s.stack.size) :
    Guarded op.perform s (op.conditions s) := by
  cases op with
  | neg | odd => exact (guarded_unary _ htop).silent
  | add | sub | mul | eq | neq | ls | gr | lseq | greq => exact (guarded_binary _ htop).silent
  | div => exact (guarded_divide htop).silent
  | wrt => exact guarded_pop.bind fun _ _ _ => .of_ok rfl
  | wrl => exact .of_ok rfl
  | lid => exact (guarded_loadIndirect htop).silent
  | sid => exact guarded_storeIndirect.silent

namespace Instruction

variable {i : Instruction} {s : State}

theorem guarded_execute_of_wellShaped (hi : i.WellShaped) (htop : s.top ≤ s.stack.size)
    (hsize : s.stack.size < 2 ^ 63) : Guarded i.execute s (i.operandConditions s) := by
  obtain ⟨op, hop, hshape⟩ := hi
  have hcode : op.code = i.code := Opcode.ofCode?_eq_some_iff.mp hop
  cases i with
  | address code level offset =>
    obtain rfl : op.code = code := hcode
    cases op with
    | lod => exact (guarded_load level offset hsize).silent
    | lda => exact (guarded_loadAddress level offset).silent
    | sto => exact (guarded_store level offset hsize).silent
    | cal => exact (guarded_openFrame level offset).silent
    | ret => exact (guarded_closeFrame level offset).silent
    | _ => cases hshape
  | value code immediate =>
    obtain rfl : op.code = code := hcode
    cases op with
    | lit => exact (guarded_push _).silent
    | ict => exact (guarded_moveTop _).silent
    | jmp => exact (guarded_jump _).silent
    | jpc => exact (guarded_jumpIfZero _).silent
    | _ => cases hshape
  | operation code =>
    show Guarded (operation code).execute s
      (⟨(Operation.ofCode? code).isSome, .unknownOperation code, s⟩ ::
        (Operation.ofCode? code).elim [] (Operation.conditions s))
    rw [execute_operation]
    cases Operation.ofCode? code with
    | some op => exact .cons rfl (op.guarded_perform htop)
    | none => exact .throw _ _

/-- **Instructions.** An instruction stops at the first of its conditions that does not hold. -/
theorem guarded_execute (i : Instruction) (htop : s.top ≤ s.stack.size)
    (hsize : s.stack.size < 2 ^ 63) : Guarded i.execute s (i.conditions s) := by
  unfold conditions
  cases hop : i.opcode? with
  | none =>
    rw [execute_of_unknown hop]
    exact .throw _ _
  | some op =>
    refine .cons rfl ?_
    by_cases hshape : op.shape = i.shape
    · have hfits : some op.shape = some i.shape := congrArg some hshape
      have hexecute := guarded_execute_of_wellShaped ⟨op, hop, hshape⟩ htop hsize
      exact .cons (decide_eq_true hfits) hexecute
    · have hmismatch : ¬some op.shape = some i.shape := fun h => hshape (Option.some.inj h)
      rw [execute_of_mismatch hop hshape, Option.map_some, decide_eq_false hmismatch]
      exact .throw _ _

end Instruction

/-! ## Steps -/

namespace Machine

variable {ω τ : Type} [Sink ω] [Sink τ] {p : Program} {m : Machine ω τ} {s : State}

theorem guarded_fetch : Guarded (fetch p.get?) s
    [⟨s.pc < p.size, .programCounterOutOfRange s.pc, { s with position := s.pc }⟩] := by
  unfold Guarded
  cases hi : p.get? s.pc with
  | none =>
    have hend : ¬s.pc < p.size := Nat.not_lt.mpr (Array.getElem?_eq_none_iff.mp hi)
    rw [fetch_error_iff.mpr ⟨hi, rfl, rfl⟩, stop?_of_fails (decide_eq_false hend)]
    rfl
  | some i =>
    obtain ⟨hlt, -⟩ := Array.getElem?_eq_some_iff.mp hi
    rw [fetch_ok_iff.mpr ⟨hi, rfl⟩, stop?_of_holds (decide_eq_true hlt)]
    rfl

/-- **One cycle.** It stops at the first of its conditions that does not hold. -/
theorem guarded_cycle (p : Program) (htop : s.top ≤ s.stack.size)
    (hsize : s.stack.size < 2 ^ 63) : Guarded (cycle p) s (p.conditions s) := by
  refine guarded_fetch.bind fun i s' h => ?_
  obtain ⟨hi, rfl⟩ := fetch_ok_iff.mp h
  rw [hi]
  exact (i.guarded_execute (s := s.fetched) htop hsize).map (i, ·)

/-- The output sink takes what the next step writes, if it writes anything. -/
def Accepts (p : Program) (m : Machine ω τ) : Prop :=
  ∀ i text s, cycle p m.state = .ok (i, some text) s → (Sink.write text m.output).1 = .ok ()

theorem step_of_firstFailing {c : Condition} (hrun : m.state.status = .running)
    (htop : m.state.top ≤ m.state.stack.size) (hsize : m.state.stack.size < 2 ^ 63)
    (hfirst : firstFailing (p.conditions m.state) = some c) :
    (step p m).1 = .error ⟨m.state.pc, c.cause⟩ := by
  obtain ⟨s, output, trace⟩ := m
  have hcycle := (guarded_cycle p htop hsize).error_of_firstFailing hfirst
  have hstep : (step p ⟨s, output, trace⟩).1 = .error ⟨c.left.position, c.cause⟩ := by
    rw [step_of_error hrun hcycle]
    rfl
  have hposition : c.left.position = s.pc := position_of_fault hstep
  rw [hstep, hposition]

theorem step_of_all_hold (hrun : m.state.status = .running)
    (htop : m.state.top ≤ m.state.stack.size) (hsize : m.state.stack.size < 2 ^ 63)
    (haccepts : Accepts p m) (hfirst : firstFailing (p.conditions m.state) = none) :
    ∃ status, (step p m).1 = .ok status := by
  obtain ⟨s, output, trace⟩ := m
  obtain ⟨⟨i, out⟩, s', hcycle⟩ := (guarded_cycle p htop hsize).ok_of_firstFailing hfirst
  cases out with
  | none =>
    rw [step_of_silent hrun hcycle]
    exact ⟨_, rfl⟩
  | some text =>
    have hwrite : Sink.write text output = (.ok (), (Sink.write text output).2) :=
      Prod.ext (haccepts i text s' hcycle) rfl
    rw [step_of_written hrun hcycle hwrite]
    exact ⟨_, rfl⟩

/-- **The fault of a step.** Take a machine that is running, with its top within a stack whose cells
are numbered by words, and an output sink that takes what the step writes. The step succeeds just if
all its conditions hold. If not, it ends with the fault of the first that does not, at the position
where the program counter stood. -/
theorem step_faults_at_first_condition (p : Program) (m : Machine ω τ)
    (hrun : m.state.status = .running) (htop : m.state.top ≤ m.state.stack.size)
    (hsize : m.state.stack.size < 2 ^ 63) (haccepts : Accepts p m) :
    ((∃ status, (step p m).1 = .ok status) ↔ ∀ c ∈ p.conditions m.state, c.holds) ∧
      ∀ fault, (step p m).1 = .error fault ↔
        ∃ c, firstFailing (p.conditions m.state) = some c ∧ fault = ⟨m.state.pc, c.cause⟩ := by
  rw [← firstFailing_eq_none_iff]
  cases hfirst : firstFailing (p.conditions m.state) with
  | none =>
    obtain ⟨status, hok⟩ := step_of_all_hold hrun htop hsize haccepts hfirst
    rw [hok]
    exact ⟨⟨fun _ => rfl, fun _ => ⟨status, rfl⟩⟩, fun fault => ⟨nofun, nofun⟩⟩
  | some c =>
    rw [step_of_firstFailing hrun htop hsize hfirst]
    refine ⟨⟨nofun, nofun⟩, fun fault => ⟨fun h => ⟨c, rfl, (Except.error.inj h).symm⟩, ?_⟩⟩
    rintro ⟨c', hc', rfl⟩
    cases hc'
    rfl

/-- A load through a base at the end of the range of words, and a return that has room for its
frame but none for the word that it leaves there. -/
theorem step_faults_at_first_condition_edges :
    let machine (s : State) : Machine Buffer Buffer := ⟨s, Buffer.empty, none⟩
    let far : State := { stack := #[0, 0], display := #[Int64.ofInt (2 ^ 63 - 1)] }
    let load := Program.ofList [.address Opcode.lod.code 0 1]
    let full : State := { stack := #[0, 0, 0, 0], display := #[2], top := 1 }
    let back := Program.ofList [.address Opcode.ret.code 0 (-2)]
    Accepts load (machine far) ∧
      (step load (machine far)).1 = .error ⟨0, .addressOutOfRange (2 ^ 63 - 1)⟩ ∧
      Accepts back (machine full) ∧
      (step back (machine full)).1 = .error ⟨0, .stackOverflow⟩ ∧
      ((back.conditions full).map (·.holds)) =
        [true, true, true, true, true, true, true, true, true, true, false] := by
  intro machine far load full back
  have haccepts (p : Program) (s : State) : Accepts p (machine s) := fun _ _ _ _ => rfl
  have hfar : (firstFailing (load.conditions far)).map (·.cause) =
      some (.addressOutOfRange (2 ^ 63 - 1)) := by decide +kernel
  have hfull : (firstFailing (back.conditions full)).map (·.cause) = some .stackOverflow := by
    decide +kernel
  obtain ⟨c, hc, hcause⟩ := Option.map_eq_some_iff.mp hfar
  obtain ⟨d, hd, hcause'⟩ := Option.map_eq_some_iff.mp hfull
  have hload := step_faults_at_first_condition load (machine far) rfl (by decide) (by decide)
    (haccepts load far)
  have hreturn := step_faults_at_first_condition back (machine full) rfl (by decide) (by decide)
    (haccepts back full)
  refine ⟨haccepts load far, (hload.2 _).mpr ⟨c, hc, ?_⟩, haccepts back full,
    (hreturn.2 _).mpr ⟨d, hd, ?_⟩, by decide +kernel⟩
  · rw [hcause]
  · rw [hcause']

end Machine

end PCode
