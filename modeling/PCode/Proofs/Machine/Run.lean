import PCode.Machine.Step
import PCode.Proofs.Machine.Effect

/-!
# Runs of the machine

A run is a number of calls of `step`. `Machine.after p n m` is the machine after `n` calls, and
`Machine.executed? p m` the instruction that the next call executes with success, if it does.

* `stepCase`: a call of `step` by what the cycle and the output sink say.
* `step_cases`: a call of `step` does nothing, or ends with a fault, or has the effect of the
  instruction at the program counter.
-/

namespace PCode

namespace State

/-- The state once the instruction at the program counter has been fetched. -/
def fetched (s : State) : State :=
  { s with position := s.pc, pc := s.pc + 1, steps := s.steps + 1 }

/-- The state at the end of a step, given the state that the instruction left. -/
def settled (s : State) : State := { s with status := if s.pc = 0 then .halted else .running }

@[simp] theorem fetched_stack (s : State) : s.fetched.stack = s.stack := rfl

@[simp] theorem fetched_display (s : State) : s.fetched.display = s.display := rfl

@[simp] theorem fetched_top (s : State) : s.fetched.top = s.top := rfl

@[simp] theorem fetched_pc (s : State) : s.fetched.pc = s.pc + 1 := rfl

@[simp] theorem settled_stack (s : State) : s.settled.stack = s.stack := rfl

@[simp] theorem settled_display (s : State) : s.settled.display = s.display := rfl

@[simp] theorem settled_top (s : State) : s.settled.top = s.top := rfl

@[simp] theorem settled_pc (s : State) : s.settled.pc = s.pc := rfl

theorem settled_halted_iff {s : State} : s.settled.status = .halted ↔ s.pc = 0 := by
  unfold settled
  split <;> simp [*]

theorem settled_running_iff {s : State} : s.settled.status = .running ↔ s.pc ≠ 0 := by
  unfold settled
  split <;> simp [*]

end State

namespace Machine

variable {ω τ : Type} [Sink ω] [Sink τ] {p : Program} {m : Machine ω τ}

/-- The machine after a number of calls of `step`. -/
def after (p : Program) (m : Machine ω τ) : Nat → Machine ω τ
  | 0 => m
  | n + 1 => (step p (after p m n)).2

/-- The instruction that the next call of `step` executes with success. -/
def executed? (p : Program) (m : Machine ω τ) : Option Instruction :=
  match m.state.status, (step p m).1 with
  | .running, .ok _ => p.get? m.state.pc
  | _, _ => none

/-! ## One step -/

theorem fetch_ok_iff {α : Type} {get? : Nat → Option α} {i : α} {s s' : State} :
    Exec.fetch get? s = .ok i s' ↔ get? s.pc = some i ∧ s' = s.fetched := by
  unfold Exec.fetch State.fetched
  split <;> grind

theorem fetch_error_iff {α : Type} {get? : Nat → Option α} {cause : Cause} {s s' : State} :
    Exec.fetch get? s = .error cause s' ↔
      get? s.pc = none ∧ cause = .programCounterOutOfRange s.pc ∧
        s' = { s with position := s.pc } := by
  unfold Exec.fetch
  split <;> grind

theorem cycle_ok_iff {i : Instruction} {out : Option String} {s s' : State} :
    cycle p s = .ok (i, out) s' ↔ p.get? s.pc = some i ∧ i.Effect s.fetched out s' := by
  unfold cycle
  constructor
  · intro h
    obtain ⟨j, s₁, hfetch, hrest⟩ := Exec.bind_ok_iff.mp h
    obtain ⟨hj, rfl⟩ := fetch_ok_iff.mp hfetch
    obtain ⟨o, s₂, hexec, hpure⟩ := Exec.bind_ok_iff.mp hrest
    obtain ⟨hpair, rfl⟩ := Exec.pure_ok_iff.mp hpure
    obtain ⟨rfl, rfl⟩ := Prod.mk.inj hpair
    exact ⟨hj, Instruction.execute_ok_iff.mp hexec⟩
  · rintro ⟨hi, he⟩
    refine Exec.bind_ok_iff.mpr ⟨i, s.fetched, fetch_ok_iff.mpr ⟨hi, rfl⟩, ?_⟩
    exact Exec.bind_ok_iff.mpr ⟨out, s', he.execute, Exec.pure_ok_iff.mpr ⟨rfl, rfl⟩⟩

/-- A cycle stops because there is no instruction to fetch, or where the instruction does. -/
theorem cycle_error_iff {cause : Cause} {s s' : State} :
    cycle p s = .error cause s' ↔
      (p.get? s.pc = none ∧ cause = .programCounterOutOfRange s.pc ∧
          s' = { s with position := s.pc }) ∨
        ∃ i, p.get? s.pc = some i ∧ i.execute s.fetched = .error cause s' := by
  unfold cycle
  constructor
  · intro h
    rcases Exec.bind_error_iff.mp h with hfetch | ⟨i, s₁, hfetch, hrest⟩
    · exact .inl (fetch_error_iff.mp hfetch)
    · obtain ⟨hi, rfl⟩ := fetch_ok_iff.mp hfetch
      rcases Exec.bind_error_iff.mp hrest with hexecute | ⟨out, s₂, -, hpure⟩
      · exact .inr ⟨i, hi, hexecute⟩
      · cases hpure
  · rintro (hfetch | ⟨i, hi, hexecute⟩)
    · exact Exec.bind_error_iff.mpr (.inl (fetch_error_iff.mpr hfetch))
    · exact Exec.bind_error_iff.mpr (.inr ⟨i, s.fetched, fetch_ok_iff.mpr ⟨hi, rfl⟩,
        Exec.bind_error_iff.mpr (.inl hexecute)⟩)

theorem step_of_stopped (h : m.state.status ≠ .running) : step p m = (.ok m.state.status, m) := by
  obtain ⟨s, output, trace⟩ := m
  exact if_neg h

section Running

variable {s s' : State} {output output' : ω} {trace : Option τ} {i : Instruction} {text : String}

theorem step_of_error {cause : Cause} (hrun : s.status = .running)
    (hc : cycle p s = .error cause s') :
    step p ⟨s, output, trace⟩ = fail cause ⟨s', output, trace⟩ := by
  simp only [step, hrun, hc, ↓reduceIte]

theorem step_of_silent (hrun : s.status = .running) (hc : cycle p s = .ok (i, none) s') :
    step p ⟨s, output, trace⟩ = finish i ⟨s', output, trace⟩ := by
  simp only [step, hrun, hc, ↓reduceIte]

theorem step_of_written (hrun : s.status = .running) (hc : cycle p s = .ok (i, some text) s')
    (hw : Sink.write text output = (.ok (), output')) :
    step p ⟨s, output, trace⟩ = finish i ⟨s', output', trace⟩ := by
  simp only [step, hrun, hc, hw, ↓reduceIte]

theorem step_of_refused {message : String} (hrun : s.status = .running)
    (hc : cycle p s = .ok (i, some text) s')
    (hw : Sink.write text output = (.error message, output')) :
    step p ⟨s, output, trace⟩ = fail (.output message) ⟨s', output', trace⟩ := by
  simp only [step, hrun, hc, hw, ↓reduceIte]

end Running

/-- What a call of `step` can do: nothing on a machine that has stopped, and else what the cycle says,
and the output sink if there is a text to be written. -/
inductive StepCase (p : Program) : Machine ω τ → Except Fault Status × Machine ω τ → Prop
  | stopped {m : Machine ω τ} (hstop : m.state.status ≠ .running) :
      StepCase p m (.ok m.state.status, m)
  | failed {s s' : State} {output : ω} {trace : Option τ} {cause : Cause}
      (hrun : s.status = .running) (hc : cycle p s = .error cause s') :
      StepCase p ⟨s, output, trace⟩ (fail cause ⟨s', output, trace⟩)
  | silent {s s' : State} {output : ω} {trace : Option τ} {i : Instruction}
      (hrun : s.status = .running) (hc : cycle p s = .ok (i, none) s') :
      StepCase p ⟨s, output, trace⟩ (finish i ⟨s', output, trace⟩)
  | written {s s' : State} {output output' : ω} {trace : Option τ} {i : Instruction} {text : String}
      (hrun : s.status = .running) (hc : cycle p s = .ok (i, some text) s')
      (hw : Sink.write text output = (.ok (), output')) :
      StepCase p ⟨s, output, trace⟩ (finish i ⟨s', output', trace⟩)
  | refused {s s' : State} {output output' : ω} {trace : Option τ} {i : Instruction}
      {text message : String} (hrun : s.status = .running)
      (hc : cycle p s = .ok (i, some text) s')
      (hw : Sink.write text output = (.error message, output')) :
      StepCase p ⟨s, output, trace⟩ (fail (.output message) ⟨s', output', trace⟩)

theorem stepCase (p : Program) (m : Machine ω τ) : StepCase p m (step p m) := by
  by_cases hrun : m.state.status = .running
  · obtain ⟨s, output, trace⟩ := m
    cases hc : cycle p s with
    | error cause s' =>
      rw [step_of_error hrun hc]
      exact .failed hrun hc
    | ok r s' =>
      obtain ⟨i, _ | text⟩ := r
      · rw [step_of_silent hrun hc]
        exact .silent hrun hc
      · rcases hw : Sink.write text output with ⟨message | _, output'⟩
        · rw [step_of_refused hrun hc hw]
          exact .refused hrun hc hw
        · rw [step_of_written hrun hc hw]
          exact .written hrun hc hw
  · rw [step_of_stopped hrun]
    exact .stopped hrun

theorem executed?_of_stopped (h : m.state.status ≠ .running) : executed? p m = none := by
  unfold executed?
  split
  · exact absurd ‹_› h
  · rfl

theorem executed?_of_fail {cause : Cause} {m' : Machine ω τ} (h : step p m = fail cause m') :
    executed? p m = none := by
  unfold executed?
  rw [h]
  cases m.state.status <;> rfl

theorem executed?_of_finish {i : Instruction} {m' : Machine ω τ} (hrun : m.state.status = .running)
    (h : step p m = finish i m') : executed? p m = p.get? m.state.pc := by
  unfold executed?
  rw [h, hrun]
  rfl

/-- **One step.** A machine that has stopped stays as it is. One that is running ends with a fault,
or fetches the instruction at the program counter and has its effect. -/
theorem step_cases (p : Program) (m : Machine ω τ) :
    (m.state.status ≠ .running ∧ executed? p m = none ∧ (step p m).2 = m) ∨
    (m.state.status = .running ∧ executed? p m = none ∧
      (step p m).2.state.status = .faulted) ∨
    (m.state.status = .running ∧ ∃ i out s, executed? p m = some i ∧
      p.get? m.state.pc = some i ∧ i.Effect m.state.fetched out s ∧
      (step p m).2.state = s.settled) := by
  by_cases hrun : m.state.status = .running
  · right
    obtain ⟨s, output, trace⟩ := m
    have failed {cause : Cause} {m' : Machine ω τ}
        (h : step p ⟨s, output, trace⟩ = fail cause m') :
        executed? p ⟨s, output, trace⟩ = none ∧
          (step p ⟨s, output, trace⟩).2.state.status = .faulted :=
      ⟨executed?_of_fail h, by rw [h]; rfl⟩
    have finished {i : Instruction} {out : Option String} {s' : State} {output' : ω}
        (hc : cycle p s = .ok (i, out) s')
        (h : step p ⟨s, output, trace⟩ = finish i ⟨s', output', trace⟩) :
        ∃ i out s', executed? p ⟨s, output, trace⟩ = some i ∧ p.get? s.pc = some i ∧
          i.Effect s.fetched out s' ∧ (step p ⟨s, output, trace⟩).2.state = s'.settled := by
      obtain ⟨hi, he⟩ := cycle_ok_iff.mp hc
      exact ⟨i, out, s', by rw [executed?_of_finish hrun h]; exact hi, hi, he, by rw [h]; rfl⟩
    cases hc : cycle p s with
    | error cause s' => exact .inl ⟨hrun, failed (step_of_error hrun hc)⟩
    | ok r s' =>
      obtain ⟨i, _ | text⟩ := r
      · exact .inr ⟨hrun, finished hc (step_of_silent hrun hc)⟩
      · rcases hw : Sink.write text output with ⟨message | _, output'⟩
        · exact .inl ⟨hrun, failed (step_of_refused hrun hc hw)⟩
        · exact .inr ⟨hrun, finished hc (step_of_written hrun hc hw)⟩
  · exact .inl ⟨hrun, executed?_of_stopped hrun, by rw [step_of_stopped hrun]⟩

theorem effect_of_executed? {i : Instruction} (h : executed? p m = some i) :
    m.state.status = .running ∧ ∃ out s, i.Effect m.state.fetched out s ∧
      (step p m).2.state = s.settled := by
  rcases step_cases p m with ⟨-, hx, -⟩ | ⟨-, hx, -⟩ | ⟨hrun, j, out, s, hx, -, he, hstep⟩
  · rw [hx] at h; cases h
  · rw [hx] at h; cases h
  · rw [hx] at h; cases h
    exact ⟨hrun, out, s, he, hstep⟩

end Machine

end PCode
