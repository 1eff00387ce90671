import PCode.Proofs.Machine.BoundedOutput
import PCode.Proofs.Machine.Footprint
import PCode.Proofs.Machine.Popped

/-!
# What a fault leaves behind

Instructions change the state before they have looked at all their conditions, and what they have
done before a fault stays done. Most have then only popped some of their operands. A call finds out
last that its target is negative, when its frame is open. A return closes its frame first, and then
may have nowhere to go, or no place for its result.

* `Leaves`: the states that a step can leave with a fault, one rule for each of these cases.
* `Residue`: how such a state differs from the one before, field by field.
* `Machine.fault_leaves_residue`: every fault leaves such a state. The output has grown only if it
  is the output sink that has failed.
-/

namespace PCode

open Condition

/-! ## Calls and returns -/

namespace Program

/-- The next instruction is a call that can open its frame, but has a negative position to go to. -/
def CallsAstray (p : Program) (s : State) (level : Int16) : Prop :=
  ∃ position, p.get? s.pc = some (.address Opcode.cal.code level position) ∧
    s.HasLevel (level.toInt + 1) ∧ s.top + 2 ≤ s.stack.size ∧ position.toInt < 0

/-- The next instruction is a return that finds its frame. -/
def ClosesFrame (p : Program) (s : State) (level arguments : Int16) : Prop :=
  p.get? s.pc = some (.address Opcode.ret.code level arguments) ∧
    s.HasLevel level.toInt ∧ 0 < s.top ∧ s.HasCell (s.base level) ∧ s.HasCell (s.base level + 1)

variable {p : Program} {s : State}

theorem CallsAstray.eq {level level' : Int16} (h : p.CallsAstray s level)
    (h' : p.CallsAstray s level') : level' = level := by
  obtain ⟨position, hi, -⟩ := h
  obtain ⟨position', hi', -⟩ := h'
  cases hi.symm.trans hi'
  rfl

theorem ClosesFrame.eq {level level' arguments arguments' : Int16}
    (h : p.ClosesFrame s level arguments) (h' : p.ClosesFrame s level' arguments') :
    level' = level ∧ arguments' = arguments := by
  cases h.1.symm.trans h'.1
  exact ⟨rfl, rfl⟩

/-- A call is no return. -/
theorem CallsAstray.not_closesFrame {level level' arguments : Int16}
    (h : p.CallsAstray s level) : ¬p.ClosesFrame s level' arguments := by
  rintro ⟨hi', -⟩
  obtain ⟨position, hi, -⟩ := h
  have hsame := Option.some.inj (hi.symm.trans hi')
  have hcode : Opcode.cal.code = Opcode.ret.code := congrArg Instruction.code hsame
  exact absurd hcode (by decide)

theorem CallsAstray.ne_none {level : Int16} (h : p.CallsAstray s level) :
    p.get? s.pc ≠ none := by
  obtain ⟨position, hi, -⟩ := h
  rw [hi]
  exact Option.some_ne_none _

theorem ClosesFrame.ne_none {level arguments : Int16}
    (h : p.ClosesFrame s level arguments) : p.get? s.pc ≠ none := by
  rw [h.1]
  exact Option.some_ne_none _

end Program

section Leaving

variable {p : Program} {s s' : State} {c : Condition}

/-! ## States that are left -/

/-- The state that a step with a fault leaves, but for the status. -/
inductive Leaves (p : Program) (s : State) : State → Prop
  /-- There is no instruction. -/
  | unfetched (hend : p.get? s.pc = none) : Leaves p s { s with position := s.pc }
  /-- The instruction has only popped. -/
  | popped {i : Instruction} (hi : p.get? s.pc = some i) (hcall : ∀ level, ¬p.CallsAstray s level)
      (hreturn : ∀ level arguments, ¬p.ClosesFrame s level arguments) (hn : p.popped s ≤ s.top) :
      Leaves p s (s.fetched.dropped (p.popped s))
  /-- A call has opened its frame. -/
  | opened {level : Int16} (h : p.CallsAstray s level) : Leaves p s (s.fetched.opened level.toInt)
  /-- A return has closed its frame, and has nowhere to go on. -/
  | closed {level arguments : Int16} (h : p.ClosesFrame s level arguments)
      (target : s.returnTo level < 0) : Leaves p s (s.fetched.closed level)
  /-- A return has gone back, and there is no place for its result. -/
  | returned {level arguments : Int16} (h : p.ClosesFrame s level arguments)
      (target : 0 ≤ s.returnTo level)
      (outside : s.base level - arguments.toInt < 0 ∨
        s.stack.size < s.base level - arguments.toInt) :
      Leaves p s (s.fetched.returned level)
  /-- A return has gone back, and its result would be just above the stack. -/
  | full {level arguments : Int16} (h : p.ClosesFrame s level arguments)
      (target : 0 ≤ s.returnTo level) (above : s.base level - arguments.toInt = s.stack.size) :
      Leaves p s { s.fetched.returned level with top := s.stack.size }

/-- The conditions of a return from where its frame is closed. -/
theorem Leaves.of_return {level arguments : Int16} (h : p.ClosesFrame s level arguments)
    (hfirst : firstFailing
      [.target (s.fetched.returnTo level) (s.fetched.closed level),
        .notBelow (s.fetched.base level - arguments.toInt) (s.fetched.returned level),
        .notAbove (s.fetched.base level - arguments.toInt) (s.fetched.returned level),
        .room { s.fetched.returned level with
          top := (s.fetched.base level - arguments.toInt).toNat }] = some c) :
    Leaves p s c.left := by
  rcases firstFailing_cons_iff.mp hfirst with ⟨htarget, rfl⟩ | ⟨htarget, hfirst⟩
  · exact .closed h (Int.not_le.mp (of_decide_eq_false htarget))
  have htarget' : 0 ≤ s.returnTo level := of_decide_eq_true htarget
  rcases firstFailing_cons_iff.mp hfirst with ⟨hbelow, rfl⟩ | ⟨hbelow, hfirst⟩
  · exact .returned h htarget' (.inl (Int.not_le.mp (of_decide_eq_false hbelow)))
  have hbelow' : 0 ≤ s.base level - arguments.toInt := of_decide_eq_true hbelow
  rcases firstFailing_cons_iff.mp hfirst with ⟨habove, rfl⟩ | ⟨habove, hfirst⟩
  · exact .returned h htarget' (.inr (Int.not_le.mp (of_decide_eq_false habove)))
  have habove' : s.base level - arguments.toInt ≤ s.stack.size := of_decide_eq_true habove
  rcases firstFailing_cons_iff.mp hfirst with ⟨hroom, rfl⟩ | ⟨-, hfirst⟩
  · have hroom' : ¬(s.base level - arguments.toInt).toNat < s.stack.size :=
      of_decide_eq_false hroom
    have hfull : (s.base level - arguments.toInt).toNat = s.stack.size := by omega
    show Leaves p s { s.fetched.returned level with top := (s.base level - arguments.toInt).toNat }
    rw [hfull]
    exact .full h htarget' (by omega)
  · cases hfirst

theorem Leaves.of_firstFailing (hfirst : firstFailing (p.conditions s) = some c) :
    Leaves p s c.left := by
  cases hi : p.get? s.pc with
  | none =>
    simp only [Program.conditions, hi, Option.elim_none] at hfirst
    rcases firstFailing_cons_iff.mp hfirst with ⟨-, rfl⟩ | ⟨-, hnil⟩
    · exact .unfetched hi
    · cases hnil
  | some i =>
    have hlt : s.pc < p.size := (Array.getElem?_eq_some_iff.mp hi).1
    rw [Program.conditions_of_some hi, firstFailing_cons_iff, decide_eq_true hlt] at hfirst
    obtain ⟨hno, -⟩ | ⟨-, hfirst⟩ := hfirst
    · cases hno
    rcases (i.popping_conditions s.fetched).of_firstFailing hfirst with
      ⟨⟨d, hd, hfails⟩, hleft, hn⟩ | ⟨hall, hrest⟩
    · rw [← Program.popped_of_some hi] at hleft hn
      rw [hleft]
      refine .popped hi ?_ ?_ hn
      · rintro level ⟨position, hi', hlevel, hroom, -⟩
        cases hi.symm.trans hi'
        exact absurd (Instruction.counted_of_call (s := s.fetched).mpr ⟨hlevel, hroom⟩ d hd)
          (by simp [hfails])
      · rintro level arguments ⟨hi', hframe⟩
        cases hi.symm.trans hi'
        exact absurd (Instruction.counted_of_return (s := s.fetched).mpr hframe d hd)
          (by simp [hfails])
    · by_cases hcal : ∃ level position, i = .address Opcode.cal.code level position
      · obtain ⟨level, position, rfl⟩ := hcal
        obtain ⟨hlevel, hroom⟩ := Instruction.counted_of_call.mp hall
        rcases firstFailing_cons_iff.mp hrest with ⟨htarget, rfl⟩ | ⟨-, hnil⟩
        · have htarget' : position.toInt < 0 := Int.not_le.mp (of_decide_eq_false htarget)
          exact .opened ⟨position, hi, hlevel, hroom, htarget'⟩
        · cases hnil
      by_cases hret : ∃ level arguments, i = .address Opcode.ret.code level arguments
      · obtain ⟨level, arguments, rfl⟩ := hret
        exact .of_return ⟨hi, Instruction.counted_of_return (s := s.fetched).mp hall⟩ hrest
      rw [Instruction.drop_conditions (by grind) (by grind)] at hrest
      cases hrest

theorem Leaves.of_operation {code : UInt8} {n : Nat} (hi : p.get? s.pc = some (.operation code))
    (hpopped : p.popped s = n) (hn : n ≤ s.top) : Leaves p s (s.fetched.dropped n) := by
  subst hpopped
  refine .popped hi ?_ ?_ hn
  · rintro level ⟨position, hi', -⟩
    cases hi.symm.trans hi'
  · rintro level arguments ⟨hi', -⟩
    cases hi.symm.trans hi'

/-! ## Field by field -/

/-- What is left of a state by a step that ends with a fault. -/
structure Residue (p : Program) (s s' : State) : Prop where
  /-- A call that goes astray has written the header of its frame, above the top. -/
  stack_of_call {level : Int16} : p.CallsAstray s level →
    s'.stack = (s.stack.setIfInBounds s.top (s.frame (level.toInt + 1))).setIfInBounds (s.top + 1)
      (Int64.ofNat (s.pc + 1))
  /-- Else no cell has changed. -/
  stack_eq : (∀ level, ¬p.CallsAstray s level) → s'.stack = s.stack
  /-- A call that goes astray has set the display word of its frame. -/
  display_of_call {level : Int16} : p.CallsAstray s level →
    s'.display = s.display.setIfInBounds (level.toInt + 1).toNat (Int64.ofNat s.top)
  /-- A return that has found its frame has set the display word to what the frame has saved. -/
  display_of_return {level arguments : Int16} : p.ClosesFrame s level arguments →
    s'.display = s.display.setIfInBounds level.toInt.toNat (s.word (s.base level).toNat)
  /-- Else the display has not changed. -/
  display_eq : (∀ level, ¬p.CallsAstray s level) →
    (∀ level arguments, ¬p.ClosesFrame s level arguments) → s'.display = s.display
  /-- Without an instruction the program counter stays. -/
  pc_of_end : p.get? s.pc = none → s'.pc = s.pc
  /-- A return that has found its frame, and a position in it, has gone there. -/
  pc_of_return {level arguments : Int16} : p.ClosesFrame s level arguments →
    0 ≤ s.returnTo level → (s'.pc : Int) = s.returnTo level
  /-- Else the program counter has moved on by one. -/
  pc_eq : p.get? s.pc ≠ none →
    (∀ level arguments, p.ClosesFrame s level arguments → s.returnTo level < 0) →
    s'.pc = s.pc + 1
  steps_of_end : p.get? s.pc = none → s'.steps = s.steps
  steps_eq : p.get? s.pc ≠ none → s'.steps = s.steps + 1
  /-- A return that has found its frame has left the top at the frame; or at the end of the stack,
  if this is where its result would be. -/
  top_of_return {level arguments : Int16} : p.ClosesFrame s level arguments →
    ((s.returnTo level < 0 ∨ s.base level - arguments.toInt < 0 ∨
        s.stack.size < s.base level - arguments.toInt) ∧ (s'.top : Int) = s.base level) ∨
      (0 ≤ s.returnTo level ∧ (s'.top : Int) = s.base level - arguments.toInt ∧
        s'.top = s.stack.size)
  /-- Else the top is lower by what has been popped. -/
  top_eq : (∀ level arguments, ¬p.ClosesFrame s level arguments) → s'.top + p.popped s = s.top

/-- The status does not matter. -/
theorem Residue.faulted (h : Residue p s s') : Residue p s { s' with status := .faulted } :=
  { h with }

/-- What is left if there is no frame that a call has opened or a return has closed. -/
theorem Residue.of_neither (hcall : ∀ level, ¬p.CallsAstray s level)
    (hreturn : ∀ level arguments, ¬p.ClosesFrame s level arguments)
    (hstack : s'.stack = s.stack) (hdisplay : s'.display = s.display)
    (htop : s'.top + p.popped s = s.top)
    (hend : p.get? s.pc = none → s'.pc = s.pc ∧ s'.steps = s.steps)
    (hfetched : p.get? s.pc ≠ none → s'.pc = s.pc + 1 ∧ s'.steps = s.steps + 1) :
    Residue p s s' where
  stack_of_call h := absurd h (hcall _)
  stack_eq _ := hstack
  display_of_call h := absurd h (hcall _)
  display_of_return h := absurd h (hreturn _ _)
  display_eq _ _ := hdisplay
  pc_of_end h := (hend h).1
  pc_of_return h := absurd h (hreturn _ _)
  pc_eq h _ := (hfetched h).1
  steps_of_end h := (hend h).2
  steps_eq h := (hfetched h).2
  top_of_return h := absurd h (hreturn _ _)
  top_eq _ := htop

/-- What a call leaves that goes astray. It has popped nothing. -/
theorem Residue.of_call {level : Int16} (h : p.CallsAstray s level) :
    Residue p s (s.fetched.opened level.toInt) where
  stack_of_call h' := by
    obtain rfl := h.eq h'
    rfl
  stack_eq hno := absurd h (hno _)
  display_of_call h' := by
    obtain rfl := h.eq h'
    rfl
  display_of_return h' := absurd h' h.not_closesFrame
  display_eq hno _ := absurd h (hno _)
  pc_of_end hend := absurd hend h.ne_none
  pc_of_return h' := absurd h' h.not_closesFrame
  pc_eq _ _ := rfl
  steps_of_end hend := absurd hend h.ne_none
  steps_eq _ := rfl
  top_of_return h' := absurd h' h.not_closesFrame
  top_eq _ := by
    obtain ⟨position, hi, -⟩ := h
    have hpopped : p.popped s = 0 := by
      rw [Program.popped_of_some hi]
      refine besideFirstFailing_eq_zero ?_
      show ∀ n ∈ [0, 0, 0, 0], n = 0
      simp
    rw [hpopped]
    rfl

/-- What a return leaves, with the top and the program counter that it has come to. -/
theorem Residue.of_return {level arguments : Int16} {top pc : Nat}
    (h : p.ClosesFrame s level arguments)
    (hpc : (s.returnTo level < 0 ∧ pc = s.pc + 1) ∨
      (0 ≤ s.returnTo level ∧ (pc : Int) = s.returnTo level))
    (htop : ((s.returnTo level < 0 ∨ s.base level - arguments.toInt < 0 ∨
        s.stack.size < s.base level - arguments.toInt) ∧ (top : Int) = s.base level) ∨
      (0 ≤ s.returnTo level ∧ (top : Int) = s.base level - arguments.toInt ∧ top = s.stack.size)) :
    Residue p s { s.fetched.closed level with top := top, pc := pc } where
  stack_of_call hcall := absurd h hcall.not_closesFrame
  stack_eq _ := rfl
  display_of_call hcall := absurd h hcall.not_closesFrame
  display_of_return h' := by
    obtain ⟨rfl, -⟩ := h.eq h'
    rfl
  display_eq _ hno := absurd h (hno _ _)
  pc_of_end hend := absurd hend h.ne_none
  pc_of_return h' htarget := by
    obtain ⟨rfl, -⟩ := h.eq h'
    dsimp only
    omega
  pc_eq _ htarget := by
    have := htarget _ _ h
    dsimp only
    omega
  steps_of_end hend := absurd hend h.ne_none
  steps_eq _ := rfl
  top_of_return h' := by
    obtain ⟨rfl, rfl⟩ := h.eq h'
    exact htop
  top_eq hno := absurd h (hno _ _)

theorem Leaves.residue (h : Leaves p s s') : Residue p s s' := by
  cases h with
  | unfetched hend =>
    have hpopped : p.popped s = 0 := by
      refine besideFirstFailing_eq_zero ?_
      simp [Program.popsBefore, hend]
    refine .of_neither (fun _ h => h.ne_none hend) (fun _ _ h => h.ne_none hend) rfl rfl ?_
      (fun _ => ⟨rfl, rfl⟩) (fun h => absurd hend h)
    rw [hpopped]
    rfl
  | popped hi hcall hreturn hn =>
    have hsome : p.get? s.pc ≠ none := by
      rw [hi]
      exact Option.some_ne_none _
    exact .of_neither hcall hreturn rfl rfl (Nat.sub_add_cancel hn) (fun h => absurd h hsome)
      (fun _ => ⟨rfl, rfl⟩)
  | opened h => exact .of_call h
  | closed h target =>
    exact .of_return h (.inl ⟨target, rfl⟩) (.inl ⟨.inl target, Int.toNat_of_nonneg h.2.2.2.1.1⟩)
  | returned h target outside =>
    exact .of_return h (.inr ⟨target, Int.toNat_of_nonneg target⟩)
      (.inl ⟨.inr outside, Int.toNat_of_nonneg h.2.2.2.1.1⟩)
  | full h target above =>
    exact .of_return h (.inr ⟨target, Int.toNat_of_nonneg target⟩)
      (.inr ⟨target, above.symm, rfl⟩)

end Leaving

/-! ## Steps -/

namespace Machine

variable {τ : Type} [Sink τ] {p : Program} {s s' : State} {i : Instruction} {text : String}

theorem leaves_of_cycle_error {cause : Cause} (htop : s.top ≤ s.stack.size)
    (hsize : s.stack.size < 2 ^ 63) (hc : cycle p s = .error cause s') : Leaves p s s' := by
  have hguarded := guarded_cycle p htop hsize
  cases hfirst : firstFailing (p.conditions s) with
  | none =>
    obtain ⟨a, s₁, hok⟩ := hguarded.ok_of_firstFailing hfirst
    cases hok.symm.trans hc
  | some c =>
    cases (hguarded.error_of_firstFailing hfirst).symm.trans hc
    exact .of_firstFailing hfirst

theorem leaves_of_cycle_written (htop : s.top ≤ s.stack.size) (hsize : s.stack.size < 2 ^ 63)
    (hc : cycle p s = .ok (i, some text) s') : Leaves p s s' := by
  have hguarded := guarded_cycle p htop hsize
  cases hfirst : firstFailing (p.conditions s) with
  | some c => cases (hguarded.error_of_firstFailing hfirst).symm.trans hc
  | none =>
    obtain ⟨hi, he⟩ := cycle_ok_iff.mp hc
    have hall : ∀ c ∈ i.conditions s.fetched, c.holds := by
      rw [firstFailing_eq_none_iff, Program.conditions_of_some hi] at hfirst
      exact fun c hc => hfirst c (List.mem_cons_of_mem _ hc)
    have hpopped := (Program.popped_of_some hi).trans (besideFirstFailing_of_all_hold hall)
    cases he with
    | opr h =>
      cases h with
      | wrt live => exact .of_operation hi hpopped live
      | wrl => exact .of_operation hi hpopped (Nat.zero_le _)

/-- **The residue of a fault.** Take a machine with its top within a stack whose cells are numbered
by words, and an output sink that takes bytes up to the room that it has. A step that ends with a
fault leaves the state as `Residue` says, and the trace as it was. The output is as it was too,
unless the sink has no room for what a `WRT` or a `WRL` writes. It then has as many bytes of that
more as there was room for. -/
theorem fault_leaves_residue (p : Program) (m : Machine Buffer τ) (fault : Fault)
    (htop : m.state.top ≤ m.state.stack.size) (hsize : m.state.stack.size < 2 ^ 63)
    (hfault : (step p m).1 = .error fault) :
    let m' := (step p m).2
    Residue p m.state m'.state ∧ m'.state.status = .faulted ∧ m'.trace = m.trace ∧
      (m'.output = m.output ∨
        ∃ (op : Operation) (text message : String) (room : Nat), (op = .wrt ∨ op = .wrl) ∧
          p.get? m.state.pc = some (.operation op.code) ∧ op.written m.state = some text ∧
          fault.cause = .output message ∧ m.output.room = some room ∧
          room < (Text.utf8 text).length ∧
          Text.utf8 m'.output.text = Text.utf8 m.output.text ++ (Text.utf8 text).take room) := by
  have hcase := stepCase p m
  generalize step p m = result at hfault hcase
  cases hcase with
  | stopped | silent | written => cases hfault
  | failed hrun hc =>
    have hresidue := (leaves_of_cycle_error htop hsize hc).residue
    exact ⟨hresidue.faulted, rfl, rfl, .inl rfl⟩
  | refused hrun hc hw =>
    have hresidue := (leaves_of_cycle_written htop hsize hc).residue
    obtain ⟨hi, he⟩ := cycle_ok_iff.mp hc
    obtain ⟨hascii, op, hop, rfl⟩ := he.of_written
    have hwritten := (he.out_eq.trans (Instruction.written_operation op)).symm
    obtain ⟨room, hroom, hlong, htext⟩ := Buffer.text_of_write_error hw
    cases hfault
    refine ⟨hresidue.faulted, rfl, rfl,
      .inr ⟨op, _, _, room, hop, hi, hwritten, rfl, hroom, ?_, ?_⟩⟩
    · rw [Text.length_utf8_of_ascii hascii]
      exact hlong
    · rw [← Text.utf8_take_of_ascii hascii, ← Text.utf8_append]
      exact congrArg Text.utf8 htext

/-- A return whose result would be just above the stack, and a number of which a sink takes the
first digit. -/
theorem fault_leaves_residue_halfway :
    let back := Program.ofList [.address Opcode.ret.code 0 (-2)]
    let write := Program.ofList [.operation Operation.wrt.code]
    let m : Machine Buffer Buffer :=
      ⟨{ stack := #[9, 0, 7, 5], display := #[2, 3], top := 1 }, Buffer.empty, none⟩
    let m' : Machine Buffer Buffer :=
      ⟨{ stack := #[8, 12], display := #[0], top := 2 }, { room := some 1 }, none⟩
    (step back m).1 = .error ⟨0, .stackOverflow⟩ ∧
      (step back m).2.state.stack = #[9, 0, 7, 5] ∧ (step back m).2.state.display = #[7, 3] ∧
      (step back m).2.state.pc = 5 ∧ (step back m).2.state.top = 4 ∧
      (step write m').1 = .error ⟨0, .output "failed to write whole buffer"⟩ ∧
      (step write m').2.state.top = 1 ∧
      Text.utf8 (step write m').2.output.text = Text.utf8 "1" := by
  intro back write m m'
  have hback : (step back m).1 = .error ⟨0, .stackOverflow⟩ := by decide +kernel
  have hwrite : (step write m').1 = .error ⟨0, .output "failed to write whole buffer"⟩ := by
    decide +kernel
  have hframe : back.ClosesFrame m.state 0 (-2) :=
    ⟨rfl, ⟨by decide, by decide⟩, by decide, ⟨by decide, by decide⟩, ⟨by decide, by decide⟩⟩
  have hcall (level : Int16) : ¬back.CallsAstray m.state level := fun h => h.not_closesFrame hframe
  have hreturn (level arguments : Int16) : ¬write.ClosesFrame m'.state level arguments := by
    rintro ⟨hi, -⟩
    cases hi
  obtain ⟨hresidue, -⟩ := fault_leaves_residue back m _ (by decide) (by decide) hback
  obtain ⟨hresidue', -, -, houtput⟩ :=
    fault_leaves_residue write m' _ (by decide) (by decide) hwrite
  have htarget : m.state.returnTo 0 = 5 := by decide +kernel
  have hpc := hresidue.pc_of_return hframe (by omega)
  have htop : (step back m).2.state.top = 4 := by
    rcases hresidue.top_of_return hframe with ⟨hout, -⟩ | ⟨-, -, htop⟩
    · exact absurd hout (by decide)
    · exact htop
  have htop' : (step write m').2.state.top + write.popped m'.state = 2 := hresidue'.top_eq hreturn
  have hpopped : write.popped m'.state = 1 := by decide +kernel
  have hdisplay : (step back m).2.state.display = #[7, 3] := by
    rw [hresidue.display_of_return hframe]
    decide +kernel
  refine ⟨hback, hresidue.stack_eq hcall, hdisplay, by omega, htop, hwrite, by omega, ?_⟩
  rcases houtput with hsame | ⟨op, text, message, room, rfl | rfl, hi, hwritten, -, hroom, -, htext⟩
  · exact absurd hsame (by decide +kernel)
  · cases hwritten
    cases hroom
    rw [htext]
    decide +kernel
  · exact absurd hi (by decide)

end Machine

end PCode
