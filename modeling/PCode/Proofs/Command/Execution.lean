import PCode.Command.Outcome
import PCode.Proofs.Machine.Trace

/-!
# Executing a program

To execute a program with its trace shown is to execute it without one, and to put its listing and
the records of its steps before what is reported of it. Everything said of an execution is therefore
said of the machine without a trace, and the trace is a text that this machine determines.

* `Machine.run_eq_some`: where a run that comes to its end has stopped.
* `Machine.Lockstep.records_eq`: machines in lockstep have the same records.
* `Outcome.ofExecution_eq`: an execution by the run of the machine without a trace.
-/

namespace PCode

open Files

namespace Machine

/-! ## Runs that come to their end -/

section Run

variable {ω τ : Type} [Sink ω] [Sink τ] {p : Program} {m : Machine ω τ} {fuel k n : Nat}

theorem run_eq_some {r : Except Fault Unit × Machine ω τ} (h : run p fuel m = some r) :
    ∃ last < fuel, StopsAfter p m.reset (last + 1) ∧
      r = conclude (step p (after p m.reset last)).1 (after p m.reset (last + 1)) := by
  have hends : ∃ k, StopsAfter p m.reset k := by
    by_contra hnever
    have hrunning := running_of_not_stopsAfter (not_exists.mp hnever)
    cases (run_of_running fun j _ => hrunning j).symm.trans h
  obtain ⟨k, hstops⟩ := hends
  have hk : k ≤ fuel := by
    by_contra hlate
    have hrunning (j : Nat) (hj : j ≤ fuel) : (after p m.reset j).state.status = .running :=
      hstops.running (Nat.lt_of_le_of_lt hj (Nat.not_le.mp hlate))
    cases (run_of_running hrunning).symm.trans h
  obtain ⟨last, rfl⟩ := exists_last_of_stopsAfter hstops
  exact ⟨last, hk, hstops, Option.some.inj (h.symm.trans (run_of_stopsAfter hstops hk))⟩

theorem trace_run {result : Except Fault Unit} {m' : Machine ω τ}
    (h : run p fuel m = some (result, m')) : m'.trace = (after p m.reset fuel).trace := by
  obtain ⟨last, hlast, hstops, hr⟩ := run_eq_some h
  rw [after_of_stopped hstops.stopped hlast]
  exact congrArg (·.2.trace) hr

theorem trace_after_of_none (h : m.trace = none) (n : Nat) : (after p m n).trace = none := by
  induction n with
  | zero => exact h
  | succ n ih =>
    show (step p (after p m n)).2.trace = none
    cases hx : executed? p (after p m n) with
    | none => exact (step_of_not_executed? hx).1.trans ih
    | some i =>
      obtain ⟨-, -, -, htrace⟩ := step_of_executed? hx
      rw [htrace, ih]
      rfl

/-- A machine that has stopped leaves no more records. -/
theorem records_of_stopped (h : (after p m k).state.status ≠ .running) (hn : k ≤ n) :
    records p m n = records p m k := by
  induction hn with
  | refl => rfl
  | @step n hn ih =>
    have hstop : (after p m n).state.status ≠ .running := by
      rw [after_of_stopped h hn]
      exact h
    rw [records_of_not_executed? (executed?_of_stopped hstop), ih]

end Run

/-! ## Records in lockstep -/

namespace Lockstep

variable {ω ω' τ τ' : Type} [Sink ω] [Sink ω'] [Sink τ] [Sink τ'] {a : ω} {b : ω'}
  {m : Machine ω τ} {m' : Machine ω' τ'} {p : Program}

theorem after (hab : Sink.Alike a b) (h : Lockstep a b m m') (n : Nat) :
    Lockstep a b (Machine.after p m n) (Machine.after p m' n) := by
  induction n with
  | zero => exact h
  | succ n ih => exact (ih.step hab).2

theorem executed?_eq (hab : Sink.Alike a b) (h : Lockstep a b m m') :
    executed? p m' = executed? p m := by
  simp only [executed?, h.state_eq, (h.step (p := p) hab).1]

theorem records_eq (hab : Sink.Alike a b) (h : Lockstep a b m m') (n : Nat) :
    records p m' n = records p m n := by
  induction n with
  | zero => rfl
  | succ n ih =>
    have hstate := (h.after (p := p) hab (n + 1)).state_eq
    have hexecuted := (h.after (p := p) hab n).executed?_eq (p := p) hab
    cases hx : executed? p (Machine.after p m n) with
    | none => rw [records_of_not_executed? hx, records_of_not_executed? (hexecuted.trans hx), ih]
    | some i =>
      rw [records_of_executed? hx, records_of_executed? (hexecuted.trans hx), hstate, ih]

end Lockstep

/-- The machine on which a command executes a program, without a trace. -/
def plain (limits : Limits) : Machine Buffer Buffer := new limits Buffer.empty

theorem reset_plain (limits : Limits) : (plain limits).reset = plain limits := by
  simp only [plain, reset, new, State.reset_entry]

end Machine

/-! ## Executions -/

namespace Outcome

/-- What is shown of a program and its first steps. -/
def transcript (p : Program) (limits : Limits) (steps : Nat) : String :=
  p.listing ++ String.join (Machine.records p (.plain limits) steps)

open Machine in
/-- **Executions.** The outcome is that of the machine without a trace. If the trace is to be shown,
the transcript comes before the report. -/
theorem ofExecution_eq (fuel : Nat) (d : Directory) (p : Program) (limits : Limits) (debug : Bool) :
    ofExecution fuel d p limits debug =
      (run p fuel (plain limits)).map fun (result, m) =>
        let shown := if debug then transcript p limits fuel else ""
        ⟨exitOf result, m.output.text, shown ++ report result, d⟩ := by
  cases debug with
  | false =>
    show ((run p fuel (plain limits)).map _) = _
    refine Option.map_congr ?_
    rintro ⟨result, m⟩ hrun
    have htrace : m.trace = none := (trace_run hrun).trans (trace_after_of_none rfl fuel)
    simp only [htrace]
    rfl
  | true =>
    let traced : Machine Buffer Buffer := (plain limits).withTrace { text := p.listing }
    have hlock : Lockstep Buffer.empty Buffer.empty (plain limits) traced := .start rfl rfl rfl
    have hruns := hlock.run (p := p) (.refl Buffer.empty) fuel
    have hrecords := hlock.records_eq (p := p) (.refl Buffer.empty) fuel
    have hlisting : traced.trace = some { text := p.listing } := rfl
    have hshown :
        ((after p traced fuel).trace.getD Buffer.empty).text = transcript p limits fuel := by
      rw [trace_after hlisting fuel, Buffer.serveAll_write rfl, hrecords]
      rfl
    show ((run p fuel traced).map _) = _
    generalize hplain : run p fuel (plain limits) = r, hrun : run p fuel traced = r' at hruns
    cases hruns with
    | none => rfl
    | @some r r' hr =>
      obtain ⟨result, m⟩ := r
      obtain ⟨result', m'⟩ := r'
      obtain ⟨hresult, -, requests, houtput, houtput'⟩ := hr
      have hreset : traced.reset = traced := by
        simp only [traced, withTrace, reset, plain, new, State.reset_entry]
      have htrace := trace_run hrun
      rw [hreset] at htrace
      dsimp only at hresult houtput houtput'
      simp only [Option.map_some, hresult, houtput, houtput', htrace, hshown, if_true]

end Outcome

end PCode
