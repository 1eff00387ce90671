import PCode.Proofs.Machine.Bookkeeping
import PCode.Proofs.Machine.Completion
import PCode.Proofs.Machine.Frames
import PCode.Proofs.Machine.OutputLog
import PCode.Proofs.Machine.Popped

/-!
# Return from the outermost frame

The frame that is open at the start lies at cell 0, and both cells of its header are zero. So a
return from it goes to position 0, and that halts the machine. The header is made of ordinary cells,
which a program can overwrite, and the base of the frame is an ordinary word of the display. But only
a return from level 0 and a call from level -1 can change that word.

* `State.OutermostIntact`: the frame of level 0 is at cell 0, with the header of the start.
* `outermost_halts`: a return without arguments from there halts.
* `outermost_underflows`: one with arguments has no place for its result. It ends with a fault, though
  it has gone back to position 0 by then.
* `outermost_return_halts`: the whole, along any run.
-/

namespace PCode

open Condition

namespace State

/-- The frame of level 0 is at cell 0, and its header is that of the start. -/
structure OutermostIntact (s : State) : Prop where
  display : s.display[0]? = some 0
  saved : s.stack[0]? = some 0
  position : s.stack[1]? = some 0

namespace OutermostIntact

variable {s : State}

theorem hasLevel (h : s.OutermostIntact) : s.HasLevel 0 := by
  obtain ⟨hlt, -⟩ := Array.getElem?_eq_some_iff.mp h.display
  exact ⟨Int.le_refl 0, by omega⟩

theorem two_le (h : s.OutermostIntact) : 2 ≤ s.stack.size := by
  obtain ⟨hlt, -⟩ := Array.getElem?_eq_some_iff.mp h.position
  exact hlt

theorem base_eq (h : s.OutermostIntact) : s.base 0 = 0 := by
  have hframe : s.frame 0 = 0 :=
    Option.some.inj ((getElem?_display h.hasLevel).symm.trans h.display)
  show (s.frame 0).toInt = 0
  rw [hframe]
  rfl

theorem word_eq (h : s.OutermostIntact) : s.word 0 = 0 ∧ s.word 1 = 0 := by
  have hsize := h.two_le
  exact ⟨Option.some.inj ((getElem?_stack (by omega)).symm.trans h.saved),
    Option.some.inj ((getElem?_stack (by omega)).symm.trans h.position)⟩

theorem returnTo_eq (h : s.OutermostIntact) : s.returnTo 0 = 0 := by
  rw [returnTo, h.base_eq]
  show (s.word 1).toInt = 0
  rw [h.word_eq.2]
  rfl

theorem hasCell (h : s.OutermostIntact) : s.HasCell (s.base 0) ∧ s.HasCell (s.base 0 + 1) := by
  have hsize := h.two_le
  rw [h.base_eq]
  exact ⟨⟨Int.le_refl 0, by omega⟩, by decide, by omega⟩

theorem fetched (h : s.OutermostIntact) : s.fetched.OutermostIntact :=
  ⟨h.display, h.saved, h.position⟩

end OutermostIntact

end State

/-! ## The return -/

section Return

variable {s : State}

theorem take_one_setIfInBounds {stack : Array Int64} (h : 0 < stack.size) (word : Int64) :
    (stack.setIfInBounds 0 word).take 1 = #[word] := by
  apply Array.ext
  · simp
    omega
  · intro k hk hk'
    obtain rfl : k = 0 := by simpa using hk'
    simp

/-- **A return without arguments.** It goes to position 0 and leaves the word on top in cell 0, with
nothing above it. -/
theorem outermost_halts (h : s.OutermostIntact) (hlive : 0 < s.top) :
    ∃ s', (Instruction.address Opcode.ret.code 0 0).Effect s none s' ∧ s'.pc = 0 ∧
      s'.live = #[s.word (s.top - 1)] ∧ s'.display[0]? = some 0 := by
  have hslot : s.base 0 - (0 : Int16).toInt = s.base 0 := Int.sub_zero _
  have hroom : s.HasCell (s.base 0 - (0 : Int16).toInt) := by
    rw [hslot]
    exact h.hasCell.1
  have htarget : 0 ≤ s.returnTo 0 := Int.le_of_eq h.returnTo_eq.symm
  refine ⟨_, .ret h.hasLevel hlive h.hasCell.1 h.hasCell.2 htarget hroom, ?_, ?_, ?_⟩
  · exact congrArg Int.toNat h.returnTo_eq
  · have hsize : 0 < s.stack.size := Nat.lt_of_lt_of_le Nat.two_pos h.two_le
    show (s.stack.setIfInBounds (s.base 0 - (0 : Int16).toInt).toNat (s.word (s.top - 1))).take
      ((s.base 0 - (0 : Int16).toInt).toNat + 1) = _
    rw [hslot, h.base_eq]
    exact take_one_setIfInBounds hsize _
  · have hlevel : 0 < s.display.size := Int.ofNat_lt.mp h.hasLevel.2
    show (s.display.setIfInBounds 0 (s.word (s.base 0).toNat))[0]? = some 0
    rw [h.base_eq, Array.getElem?_setIfInBounds_self_of_lt hlevel]
    exact congrArg some h.word_eq.1

/-- **A return with arguments.** They would lie below cell 0. That is found out when the frame has
been closed and the program counter is back at 0. -/
theorem outermost_underflows (h : s.OutermostIntact) (hlive : 0 < s.top) {arguments : Int16}
    (harguments : 0 < arguments.toInt) :
    (Instruction.address Opcode.ret.code 0 arguments).execute s =
      .error .stackUnderflow (s.returned 0) := by
  have hguarded := (Exec.guarded_closeFrame (s := s) 0 arguments).silent
  have hbelow : ¬0 ≤ s.base 0 - arguments.toInt := by
    rw [h.base_eq]
    omega
  have htarget : 0 ≤ s.returnTo 0 := Int.le_of_eq h.returnTo_eq.symm
  refine hguarded.error_of_firstFailing
    (c := .notBelow (s.base 0 - arguments.toInt) (s.returned 0)) ?_
  -- The first five conditions hold, and the sixth does not.
  refine firstFailing_cons_iff.mpr (.inr ⟨decide_eq_true h.hasLevel, ?_⟩)
  refine firstFailing_cons_iff.mpr (.inr ⟨decide_eq_true hlive, ?_⟩)
  refine firstFailing_cons_iff.mpr (.inr ⟨decide_eq_true h.hasCell.1, ?_⟩)
  refine firstFailing_cons_iff.mpr (.inr ⟨decide_eq_true h.hasCell.2, ?_⟩)
  refine firstFailing_cons_iff.mpr (.inr ⟨decide_eq_true htarget, ?_⟩)
  exact firstFailing_cons_iff.mpr (.inl ⟨decide_eq_false hbelow, rfl⟩)

end Return

/-! ## Runs -/

namespace Machine

variable {ω τ : Type} [Sink ω] [Sink τ] {p : Program} {m : Machine ω τ} {n : Nat}

theorem step_of_outermost_halts (hrun : m.state.status = .running)
    (hi : p.get? m.state.pc = some (.address Opcode.ret.code 0 0)) (hlive : 0 < m.state.top)
    (h : m.state.OutermostIntact) :
    let s' := (step p m).2.state
    (step p m).1 = .ok .halted ∧ s'.status = .halted ∧ s'.pc = 0 ∧
      s'.live = #[m.state.word (m.state.top - 1)] ∧ s'.display[0]? = some 0 := by
  intro s'
  obtain ⟨t, heffect, hpc, hlast, hframe⟩ := outermost_halts h.fetched hlive
  have hstep : step p m = finish _ ⟨t, m.output, m.trace⟩ :=
    step_of_silent hrun (cycle_ok_iff.mpr ⟨hi, heffect⟩)
  have hs' : s' = t.settled := congrArg (·.2.state) hstep
  have hstatus : s'.status = .halted := by
    rw [hs']
    exact State.settled_halted_iff.mpr hpc
  refine ⟨?_, hstatus, by rw [hs']; exact hpc, by rw [hs']; exact hlast, by rw [hs']; exact hframe⟩
  rcases step_result p m with ⟨-, -, hfaulted⟩ | ⟨hok, -⟩
  · cases hfaulted.symm.trans hstatus
  · exact hok.trans (congrArg Except.ok hstatus)

theorem step_of_outermost_underflows (hrun : m.state.status = .running) {arguments : Int16}
    (hi : p.get? m.state.pc = some (.address Opcode.ret.code 0 arguments)) (hlive : 0 < m.state.top)
    (h : m.state.OutermostIntact) (harguments : 0 < arguments.toInt) :
    (step p m).1 = .error ⟨m.state.pc, .stackUnderflow⟩ ∧ (step p m).2.state.pc = 0 := by
  have hexecute := outermost_underflows h.fetched hlive harguments
  have hstep : step p m = fail _ ⟨m.state.fetched.returned 0, m.output, m.trace⟩ :=
    step_of_error hrun (cycle_error_iff.mpr (.inr ⟨_, hi, hexecute⟩))
  rw [hstep]
  exact ⟨rfl, congrArg Int.toNat h.fetched.returnTo_eq⟩

/-- As long as no frame of a level is opened or closed, its display word stays. -/
theorem display_after {k : Nat} (h : ∀ j < n, ∀ i ∈ fetched? p (after p m j), ¬i.ChangesFrame k) :
    (after p m n).state.display[k]? = m.state.display[k]? := by
  induction n with
  | zero => rfl
  | succ n ih =>
    show (step p (after p m n)).2.state.display[k]? = _
    rw [display_step (h n (by omega)), ih fun j hj => h j (by omega)]

/-- Steps that succeed keep the top within the stack. -/
theorem top_le_after (hm : m.state.top ≤ m.state.stack.size)
    (hrun : (after p m n).state.status = .running) :
    (after p m n).state.top ≤ (after p m n).state.stack.size := by
  induction n with
  | zero => exact hm
  | succ n ih =>
    have hbefore := ih (running_of_le hrun (Nat.le_succ n))
    rcases step_cases p (after p m n) with
      ⟨hstop, -, -⟩ | ⟨-, -, hfault⟩ | ⟨-, i, out, s, -, -, he, hstep⟩
    · exact absurd (running_of_le hrun (Nat.le_succ n)) hstop
    · cases hfault.symm.trans hrun
    · have hnow : (after p m (n + 1)).state = s.settled := hstep
      rw [hnow]
      exact he.top_le (s := (after p m n).state.fetched) hbefore

omit [Sink ω] [Sink τ] in
theorem reset_of_entry {limits : Limits} (hm : m.state = State.entry limits) : m.reset = m := by
  obtain ⟨s, output, trace⟩ := m
  subst hm
  simp only [reset, State.reset_entry]

/-- A machine at the start that first stops with step `n + 1` ends its run there. -/
theorem run_of_stop {limits : Limits} (hm : m.state = State.entry limits)
    (hrun : (after p m n).state.status = .running)
    (hstop : (after p m (n + 1)).state.status ≠ .running) {fuel : Nat} (hfuel : n < fuel) :
    ∃ result, RunResult p (after p m n) result ∧ ∃ m', run p fuel m = some (result, m') ∧
      m'.state = (after p m (n + 1)).state := by
  have hstops : StopsAfter p m.reset (n + 1) := by
    rw [reset_of_entry hm]
    exact ⟨hstop, fun hj => running_of_le hrun (Nat.le_of_lt_succ hj)⟩
  have hend := run_of_stopsAfter hstops hfuel
  rw [reset_of_entry hm] at hend
  obtain ⟨result, hresult, hconclude⟩ := conclude_step hrun hstop
  exact ⟨result, hresult, _, hend.trans (congrArg some hconclude), rfl⟩

theorem run_of_halt {limits : Limits} (hm : m.state = State.entry limits)
    (hsink : Sink.Reliable m.output) (hrun : (after p m n).state.status = .running)
    (hhalted : (after p m (n + 1)).state.status = .halted) {fuel : Nat} (hfuel : n < fuel) :
    ∃ m', run p fuel m = some (.ok (), m') ∧ m'.state = (after p m (n + 1)).state := by
  have hstop : (after p m (n + 1)).state.status ≠ .running := by
    rw [hhalted]
    exact Status.noConfusion
  obtain ⟨result, hresult, m', hend, hm'⟩ := run_of_stop hm hrun hstop hfuel
  have hflush : (Sink.flush (after p m (n + 1)).output).1 = .ok () :=
    reliable_after hsink (n + 1) [] .flush
  cases hresult with
  | faulted hfaulted => cases hfaulted.symm.trans hhalted
  | unflushed _ hfailed => cases hfailed.symm.trans hflush
  | flushed => exact ⟨m', hend, hm'⟩

theorem run_of_fault {limits : Limits} (hm : m.state = State.entry limits)
    (hrun : (after p m n).state.status = .running) {fault : Fault}
    (hfault : (step p (after p m n)).1 = .error fault) {fuel : Nat} (hfuel : n < fuel) :
    ∃ m', run p fuel m = some (.error fault, m') := by
  have hfaulted := faulted_of_error hfault
  obtain ⟨result, hresult, m', hend, -⟩ := run_of_stop hm hrun (stopped_of_error hfault) hfuel
  cases hresult with
  | faulted _ hsame =>
    cases hsame.symm.trans hfault
    exact ⟨m', hend⟩
  | unflushed hhalted => cases hhalted.symm.trans hfaulted
  | flushed hhalted => cases hhalted.symm.trans hfaulted

/-- **Return from the outermost frame.** Let a machine start with an output sink that never fails,
and let `n` calls of `step` execute no return from level 0 and no call from level -1, neither with
success nor with a fault. Then the frame of level 0 is still at cell 0. Say that the machine is
running, has come to a return from level 0 with a word on the stack, and finds the header of that
frame as it was at the start.

Without arguments the return halts the machine at position 0. Only the word that was on top is left
on the stack, the frame of level 0 is at cell 0, and a run to the end returns without a fault.

With arguments the step ends with a stack underflow, though the program counter is 0 by then. The
machine has faulted and stays so, and a run to the end returns the fault. -/
theorem outermost_return_halts (p : Program) (limits : Limits) (m : Machine ω τ) (n : Nat)
    (hm : m.state = State.entry limits) (hsink : Sink.Reliable m.output)
    (hkept : ∀ k < n, ∀ i ∈ fetched? p (after p m k), ¬i.ChangesFrame 0) :
    let s := (after p m n).state
    let s' := (after p m (n + 1)).state
    s.display[0]? = some 0 ∧
      ∀ arguments, s.status = .running →
        p.get? s.pc = some (.address Opcode.ret.code 0 arguments) → 0 < s.top →
        s.stack[0]? = some 0 → s.stack[1]? = some 0 →
        (arguments = 0 →
          (step p (after p m n)).1 = .ok .halted ∧ s'.status = .halted ∧ s'.pc = 0 ∧
          (∃ w, s.stack[s.top - 1]? = some w ∧ s'.live = #[w]) ∧ s'.display[0]? = some 0 ∧
          ∀ fuel > n, ∃ m', run p fuel m = some (.ok (), m') ∧ m'.state = s') ∧
        (0 < arguments.toInt →
          (step p (after p m n)).1 = .error ⟨s.pc, .stackUnderflow⟩ ∧ s'.pc = 0 ∧
          (∀ j > n, (after p m j).state.status = .faulted) ∧
          ∀ fuel > n, ∃ m', run p fuel m = some (.error ⟨s.pc, .stackUnderflow⟩, m')) := by
  intro s s'
  have hdisplay : s.display[0]? = some 0 := by
    have hlevels : 0 < limits.levels := Nat.le_max_right _ _
    rw [show s.display[0]? = _ from display_after hkept, hm]
    exact Array.getElem?_replicate.trans (if_pos hlevels)
  refine ⟨hdisplay, fun arguments hrun hi hlive hsaved hposition => ?_⟩
  have hintact : s.OutermostIntact := ⟨hdisplay, hsaved, hposition⟩
  constructor
  · rintro rfl
    obtain ⟨hresult, hhalted, hpc, hlast, hframe⟩ := step_of_outermost_halts hrun hi hlive hintact
    have htop : s.top ≤ s.stack.size := top_le_after (by rw [hm]; exact Nat.zero_le _) hrun
    exact ⟨hresult, hhalted, hpc, ⟨_, State.getElem?_stack (by omega), hlast⟩, hframe,
      fun fuel hfuel => run_of_halt hm hsink hrun hhalted hfuel⟩
  · intro harguments
    obtain ⟨hfault, hpc⟩ := step_of_outermost_underflows hrun hi hlive hintact harguments
    have hstop : s'.status ≠ .running := stopped_of_error hfault
    refine ⟨hfault, hpc, fun j hj => ?_, fun fuel hfuel => run_of_fault hm hrun hfault hfuel⟩
    rw [after_of_stopped hstop hj]
    exact faulted_of_error hfault

/-- Drops an argument when it returns from the outermost frame, where there is none. -/
def overdrawn : Program :=
  .ofList [.value Opcode.jmp.code 1, .value Opcode.ict.code 2, .value Opcode.lit.code 5,
    .address Opcode.ret.code 0 1]

/-- `recursion` comes to the return of its main program after two calls and two returns, with the
result of the procedure on top. -/
theorem outermost_return_halts_recursion :
    let m : Machine Buffer Buffer := new { stackSize := 16 } Buffer.empty
    (after recursion m 15).state.display[0]? = some 0 ∧
      (step recursion (after recursion m 15)).1 = .ok .halted ∧
      (after recursion m 16).state.live = #[5] ∧
      (∃ m', run recursion 100 m = some (.ok (), m') ∧ m'.state.status = .halted) ∧
      (after overdrawn m 4).state.pc = 0 ∧ (after overdrawn m 4).state.status = .faulted ∧
      ∃ m', run overdrawn 100 m = some (.error ⟨3, .stackUnderflow⟩, m') := by
  intro m
  have hsink : Sink.Reliable m.output := Buffer.reliable rfl rfl
  obtain ⟨hdisplay, hreturn⟩ := outermost_return_halts recursion { stackSize := 16 } m 15 rfl hsink
    (by decide +kernel)
  obtain ⟨hresult, hhalted, -, ⟨w, hw, hlive⟩, -, hrun⟩ :=
    (hreturn 0 (by decide +kernel) (by decide +kernel) (by decide +kernel) (by decide +kernel)
      (by decide +kernel)).1 rfl
  obtain ⟨m', hend, hm'⟩ := hrun 100 (by decide)
  have htop : (after recursion m 15).state.stack[(after recursion m 15).state.top - 1]? = some 5 := by
    decide +kernel
  obtain rfl : w = 5 := Option.some.inj (hw.symm.trans htop)
  obtain ⟨-, hoverdrawn⟩ := outermost_return_halts overdrawn { stackSize := 16 } m 3 rfl hsink
    (by decide +kernel)
  obtain ⟨-, hpc, hfaulted, hrun'⟩ :=
    (hoverdrawn 1 (by decide +kernel) (by decide +kernel) (by decide +kernel) (by decide +kernel)
      (by decide +kernel)).2 (by decide)
  have hposition : (after overdrawn m 3).state.pc = 3 := by decide +kernel
  rw [hposition] at hrun'
  exact ⟨hdisplay, hresult, hlive, ⟨m', hend, by rw [hm']; exact hhalted⟩, hpc,
    hfaulted 4 (by decide), hrun' 100 (by decide)⟩

end Machine

end PCode
