import Mathlib.Control.Monad.Basic
import PCode.Proofs.Machine.Bookkeeping
import PCode.Proofs.Machine.Session

/-!
# Runs to the end

A run to the end takes steps for as long as the machine is running, and then flushes the output. Two
things can go wrong, the last step and the flush, and the step comes first.

* `StopsAfter p m k`: the machine stops with its `k`-th step.
* `advance_of_stopsAfter`, `advance_of_running`: the steps of a run end with that step, or go on for
  as long as they may.
* `run_iterates_step`: a run to the end is calls of `step` up to the first that stops the machine.
  It never ends if there is none.
-/

namespace PCode

namespace Machine

variable {ω τ : Type} [Sink ω] [Sink τ] {p : Program} {m : Machine ω τ} {k n : Nat}

/-- The machine has stopped after a number of calls of `step`, and not before. -/
structure StopsAfter (p : Program) (m : Machine ω τ) (k : Nat) : Prop where
  stopped : (after p m k).state.status ≠ .running
  running {j : Nat} : j < k → (after p m j).state.status = .running

/-! ## The result of a step -/

/-- A step returns the status that it leaves, unless it returns a fault. -/
theorem step_result (p : Program) (m : Machine ω τ) :
    (∃ fault, (step p m).1 = .error fault ∧ (step p m).2.state.status = .faulted) ∨
      ((step p m).1 = .ok (step p m).2.state.status ∧
        (m.state.status = .running → (step p m).2.state.status ≠ .faulted)) := by
  have hcase := stepCase p m
  generalize step p m = result at hcase
  have settled {s : State} : s.settled.status ≠ .faulted := by
    unfold State.settled
    split <;> exact Status.noConfusion
  cases hcase with
  | stopped hstop => exact .inr ⟨rfl, fun hrun => absurd hrun hstop⟩
  | failed | refused => exact .inl ⟨_, rfl, rfl⟩
  | silent | written => exact .inr ⟨rfl, fun _ => settled⟩

theorem result_of_running (h : (step p m).2.state.status = .running) :
    (step p m).1 = .ok .running := by
  rcases step_result p m with ⟨fault, -, hfaulted⟩ | ⟨hok, -⟩
  · rw [hfaulted] at h
    cases h
  · rw [hok, h]

theorem running_of_result (h : (step p m).1 = .ok .running) :
    (step p m).2.state.status = .running := by
  rcases step_result p m with ⟨fault, herror, -⟩ | ⟨hok, -⟩
  · rw [herror] at h
    cases h
  · rw [hok] at h
    exact Except.ok.inj h

theorem running_of_error {fault : Fault} (h : (step p m).1 = .error fault) :
    m.state.status = .running := by
  by_contra hstop
  rw [step_of_stopped hstop] at h
  cases h

theorem faulted_of_error {fault : Fault} (h : (step p m).1 = .error fault) :
    (step p m).2.state.status = .faulted := by
  rcases step_result p m with ⟨-, -, hfaulted⟩ | ⟨hok, -⟩
  · exact hfaulted
  · cases hok.symm.trans h

theorem stopped_of_error {fault : Fault} (h : (step p m).1 = .error fault) :
    (step p m).2.state.status ≠ .running := by
  rw [faulted_of_error h]
  exact Status.noConfusion

/-! ## Where the steps end -/

/-- A machine that has stopped stays as it is, however often `step` is called. -/
theorem after_of_stopped (h : (after p m k).state.status ≠ .running) (hn : k ≤ n) :
    after p m n = after p m k := by
  induction hn with
  | refl => rfl
  | @step n _ ih =>
    show (step p (after p m n)).2 = after p m k
    rw [ih, step_of_stopped h]

theorem running_of_le {j : Nat} (h : (after p m k).state.status = .running) (hj : j ≤ k) :
    (after p m j).state.status = .running := by
  by_contra hstop
  rw [after_of_stopped hstop hj] at h
  exact hstop h

theorem stopsAfter_step (h : StopsAfter p m (k + 1)) : StopsAfter p (step p m).2 k where
  stopped := by
    rw [after_step]
    exact h.stopped
  running hj := by
    rw [after_step]
    exact h.running (Nat.succ_lt_succ hj)

theorem advance_succ (h : (step p m).2.state.status = .running) :
    advance p (n + 1) m = advance p n (step p m).2 := by
  have hstep : step p m = (.ok .running, (step p m).2) := Prod.ext (result_of_running h) rfl
  rw [advance, hstep]

theorem advance_of_running (h : ∀ j ≤ n, (after p m j).state.status = .running) :
    advance p n m = (.ok .running, after p m n) := by
  induction n generalizing m with
  | zero =>
    show (Except.ok m.state.status, m) = _
    rw [show m.state.status = .running from h 0 (Nat.le_refl 0)]
    rfl
  | succ n ih =>
    have hrunning : (step p m).2.state.status = .running :=
      h 1 (Nat.succ_le_succ (Nat.zero_le n))
    have hrest : ∀ j ≤ n, (after p (step p m).2 j).state.status = .running := by
      intro j hj
      rw [after_step]
      exact h (j + 1) (Nat.succ_le_succ hj)
    rw [advance_succ hrunning, ih hrest, after_step]

theorem advance_of_stopsAfter (h : StopsAfter p m (k + 1)) (hn : k < n) :
    advance p n m = step p (after p m k) := by
  induction k generalizing m n with
  | zero =>
    obtain ⟨n, rfl⟩ := Nat.exists_eq_succ_of_ne_zero (Nat.ne_of_gt hn)
    show _ = step p m
    unfold advance
    split
    next m' hstep =>
      have hresult : (step p m).1 = .ok .running := by rw [hstep]
      exact absurd (running_of_result hresult) h.stopped
    next => rfl
  | succ k ih =>
    obtain ⟨n, rfl⟩ := Nat.exists_eq_succ_of_ne_zero (Nat.ne_of_gt (Nat.zero_lt_of_lt hn))
    have hrunning : (step p m).2.state.status = .running :=
      h.running (Nat.succ_lt_succ (Nat.succ_pos k))
    rw [advance_succ hrunning, ih (stopsAfter_step h) (Nat.lt_of_succ_lt_succ hn), after_step]

/-! ## Runs -/

theorem run_of_running {fuel : Nat} (h : ∀ j ≤ fuel, (after p m.reset j).state.status = .running) :
    run p fuel m = none := by
  unfold run
  rw [advance_of_running h]
  exact if_pos (h fuel (Nat.le_refl fuel))

theorem run_of_stopsAfter {fuel : Nat} (h : StopsAfter p m.reset (k + 1)) (hk : k < fuel) :
    run p fuel m =
      some (conclude (step p (after p m.reset k)).1 (after p m.reset (k + 1))) := by
  unfold run
  rw [advance_of_stopsAfter h hk]
  exact if_neg h.stopped

/-- A machine is running after a reset, so it takes a step to stop it. -/
theorem exists_last_of_stopsAfter (h : StopsAfter p m.reset k) : ∃ last, k = last + 1 := by
  cases k with
  | zero => exact absurd rfl h.stopped
  | succ last => exact ⟨last, rfl⟩

theorem running_of_not_stopsAfter (h : ∀ k, ¬StopsAfter p m k) (n : Nat) :
    (after p m n).state.status = .running := by
  induction n using Nat.strongRecOn with
  | ind n ih =>
    by_contra hstop
    exact h n ⟨hstop, fun hj => ih _ hj⟩

/-- What a run to the end returns: the fault of the last step if there was one, and else how
flushing went. A failure to flush is reported at the position of the last instruction. -/
inductive RunResult (p : Program) (last : Machine ω τ) : Except Fault Unit → Prop
  | faulted {fault : Fault} (hstatus : (step p last).2.state.status = .faulted)
      (hfault : (step p last).1 = .error fault) : RunResult p last (.error fault)
  | unflushed {message : String} (hstatus : (step p last).2.state.status = .halted)
      (hflush : (Sink.flush (step p last).2.output).1 = .error message) :
      RunResult p last (.error ⟨last.state.pc, .output message⟩)
  | flushed (hstatus : (step p last).2.state.status = .halted)
      (hflush : (Sink.flush (step p last).2.output).1 = .ok ()) : RunResult p last (.ok ())

theorem conclude_step {last : Machine ω τ} (hrun : last.state.status = .running)
    (hstop : (step p last).2.state.status ≠ .running) :
    ∃ result, RunResult p last result ∧ conclude (step p last).1 (step p last).2 =
      (result, { (step p last).2 with output := (Sink.flush (step p last).2.output).2 }) := by
  have hposition := position_step p hrun
  unfold conclude
  rcases step_result p last with ⟨fault, hfault, hstatus⟩ | ⟨hok, hnot⟩
  · refine ⟨.error fault, .faulted hstatus hfault, ?_⟩
    rw [hfault]
  · have hstatus : (step p last).2.state.status = .halted := by
      cases hstatus : (step p last).2.state.status with
      | running => exact absurd hstatus hstop
      | faulted => exact absurd hstatus (hnot hrun)
      | halted => rfl
    cases hflush : (Sink.flush (step p last).2.output).1 with
    | error message =>
      refine ⟨_, .unflushed hstatus hflush, ?_⟩
      rw [hok, ← hposition]
      simp only [hflush]
    | ok u =>
      refine ⟨_, .flushed hstatus hflush, ?_⟩
      rw [hok]
      simp only [hflush]

/-- **Runs.** Let `s k` be the machine after a reset and `k` calls of `step`. If `k` is the first
number of calls after which it has stopped, then later calls change nothing, and a run to the end
takes `k` steps and leaves `s k`, with its output flushed. It returns what `RunResult` says of the
last of these steps. If there is no such number, the run has no end. -/
theorem run_iterates_step (p : Program) (m : Machine ω τ) :
    let s : Nat → Machine ω τ := after p m.reset
    (∀ k, StopsAfter p m.reset k →
      (∀ j ≥ k, s j = s k ∧ step p (s j) = (.ok (s k).state.status, s k)) ∧
      (∀ fuel < k, run p fuel m = none) ∧
      ∃ last result, k = last + 1 ∧ s k = (step p (s last)).2 ∧ RunResult p (s last) result ∧
        ∀ fuel ≥ k, run p fuel m =
          some (result, { s k with output := (Sink.flush (s k).output).2 })) ∧
    ((∀ k, ¬StopsAfter p m.reset k) → ∀ fuel, run p fuel m = none) := by
  intro s
  constructor
  · intro k hk
    have hsame {j : Nat} (hj : j ≥ k) : s j = s k := after_of_stopped hk.stopped hj
    refine ⟨fun j hj => ⟨hsame hj, ?_⟩, fun fuel hfuel => ?_, ?_⟩
    · rw [hsame hj]
      exact step_of_stopped hk.stopped
    · exact run_of_running fun j hj => hk.running (Nat.lt_of_le_of_lt hj hfuel)
    · obtain ⟨last, rfl⟩ := exists_last_of_stopsAfter hk
      obtain ⟨result, hresult, hconclude⟩ :=
        conclude_step (hk.running (Nat.lt_succ_self last)) hk.stopped
      refine ⟨last, result, rfl, rfl, hresult, fun fuel hfuel => ?_⟩
      rw [run_of_stopsAfter hk hfuel]
      exact congrArg some hconclude
  · intro hnever fuel
    exact run_of_running fun j _ => running_of_not_stopsAfter hnever j

/-- Writes a number, and halts by a jump to position 0. -/
def farewell : Program :=
  .ofList [.value Opcode.jmp.code 1, .value Opcode.lit.code 7, .operation Operation.wrt.code,
    .value Opcode.jmp.code 0]

/-- Jumps to the jump. -/
def standstill : Program := .ofList [.value Opcode.jmp.code 1, .value Opcode.jmp.code 1]

theorem standstill_step (hrun : m.state.status = .running) (hpc : m.state.pc ≤ 1) :
    (step standstill m).2.state.status = .running ∧ (step standstill m).2.state.pc ≤ 1 := by
  obtain ⟨s, output, trace⟩ := m
  have hi : standstill.get? s.pc = some (.value Opcode.jmp.code 1) := by
    rcases Nat.le_one_iff_eq_zero_or_eq_one.mp hpc with h | h
    · rw [show s.pc = 0 from h]
      rfl
    · rw [show s.pc = 1 from h]
      rfl
  rw [step_of_silent hrun (cycle_ok_iff.mpr ⟨hi, .jmp (by decide)⟩)]
  exact ⟨rfl, Nat.le_refl 1⟩

/-- The run of `farewell` ends with its fourth step, and only flushing fails. The run of
`standstill` never ends. -/
theorem run_iterates_step_examples :
    let m : Machine Buffer Buffer := new { stackSize := 4 } { flushFailure := some "no space left" }
    StopsAfter farewell m.reset 4 ∧ run farewell 3 m = none ∧
      (∃ m', run farewell 100 m = some (.error ⟨3, .output "no space left"⟩, m') ∧
        m'.state.status = .halted ∧ m'.output.text = "7 ") ∧
      (∀ k, ¬StopsAfter standstill m.reset k) ∧ ∀ fuel, run standstill fuel m = none := by
  intro m
  have hstops : StopsAfter farewell m.reset 4 := by
    have hrunning : ∀ j < 4, (after farewell m.reset j).state.status = .running := by
      decide +kernel
    exact ⟨by decide +kernel, hrunning _⟩
  obtain ⟨-, hshort, last, result, hlast, -, hresult, hlong⟩ :=
    (run_iterates_step farewell m).1 4 hstops
  have hnever : ∀ k, ¬StopsAfter standstill m.reset k := by
    have hrunning (n : Nat) : (after standstill m.reset n).state.status = .running ∧
        (after standstill m.reset n).state.pc ≤ 1 := by
      induction n with
      | zero => exact ⟨rfl, Nat.zero_le 1⟩
      | succ n ih => exact standstill_step ih.1 ih.2
    exact fun k h => h.stopped (hrunning k).1
  have hreturn : result = .error ⟨3, .output "no space left"⟩ := by
    obtain rfl : last = 3 := by omega
    have hhalted : (step farewell (after farewell m.reset 3)).2.state.status = .halted := by
      decide +kernel
    have hunflushed : (Sink.flush (step farewell (after farewell m.reset 3)).2.output).1 =
        .error "no space left" := by decide +kernel
    cases hresult with
    | faulted hstatus => cases hhalted.symm.trans hstatus
    | unflushed _ hflush =>
      cases hunflushed.symm.trans hflush
      rfl
    | flushed _ hflush => cases hunflushed.symm.trans hflush
  subst hreturn
  exact ⟨hstops, hshort 3 (by decide), ⟨_, hlong 100 (by decide), by decide +kernel,
    by decide +kernel⟩, hnever, (run_iterates_step standstill m).2 hnever⟩

end Machine

end PCode
