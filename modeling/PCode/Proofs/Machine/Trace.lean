import PCode.Proofs.Machine.Completion
import PCode.Proofs.Machine.Lockstep

/-!
# The trace

The trace sink only listens. Nothing that a machine returns, and nothing of its state or its output,
depends on whether there is one, or on what it does with the texts that it is sent. What it is sent
is one record for each instruction that was executed with success, in order.

Steps are counted when an instruction is fetched and recorded when it has been executed. So there
are as many records as steps, but for an instruction that was fetched and then stopped halfway.

* `records p m n`: the records of the first `n` steps.
* `trace_after`: the trace sink has been sent these records, and nothing else.
* `length_records`: their number against the number of steps.
* `trace_is_exact_log`: the whole.
-/

namespace PCode

namespace Machine

variable {ω τ : Type} [Sink ω] [Sink τ] {p : Program} {m : Machine ω τ} {i : Instruction}

/-! ## One step -/

theorem step_of_executed? (h : executed? p m = some i) :
    m.state.status = .running ∧ p.get? m.state.pc = some i ∧
      (step p m).1 = .ok (step p m).2.state.status ∧
      (step p m).2.trace = note i (step p m).2.state.pc m.trace := by
  have hcase := stepCase p m
  generalize hstep : step p m = result at hcase
  cases hcase with
  | stopped hstop => cases (executed?_of_stopped hstop).symm.trans h
  | failed | refused => cases (executed?_of_fail hstep).symm.trans h
  | silent hrun hc | written hrun hc =>
    obtain ⟨hi, -⟩ := cycle_ok_iff.mp hc
    rw [executed?_of_finish hrun hstep, hi] at h
    cases h
    exact ⟨hrun, hi, rfl, rfl⟩

theorem step_of_not_executed? (h : executed? p m = none) :
    (step p m).2.trace = m.trace ∧
      (m.state.status ≠ .running ∨ ∃ fault, (step p m).1 = .error fault) := by
  have hcase := stepCase p m
  generalize hstep : step p m = result at hcase
  cases hcase with
  | stopped hstop => exact ⟨rfl, .inl hstop⟩
  | failed | refused => exact ⟨rfl, .inr ⟨_, rfl⟩⟩
  | silent hrun hc | written hrun hc =>
    obtain ⟨hi, -⟩ := cycle_ok_iff.mp hc
    rw [executed?_of_finish hrun hstep, hi] at h
    cases h

/-! ## Records -/

/-- What the first steps have executed with success: the instructions in order, each with the
position at which the program went on. -/
def journal (p : Program) (m : Machine ω τ) : Nat → List (Instruction × Nat)
  | 0 => []
  | n + 1 =>
    match executed? p (after p m n) with
    | some i => journal p m n ++ [(i, (after p m (n + 1)).state.pc)]
    | none => journal p m n

/-- The text of each of them, and in a second line the position. -/
def records (p : Program) (m : Machine ω τ) (n : Nat) : List String :=
  (journal p m n).map fun (i, pc) => i.text ++ "\n  pc=" ++ toString pc ++ "\n"

theorem records_of_executed? {n : Nat} (h : executed? p (after p m n) = some i) :
    records p m (n + 1) = records p m n ++ [traceRecord i (after p m (n + 1)).state.pc] := by
  unfold records
  rw [journal, h]
  exact List.map_append

theorem records_of_not_executed? {n : Nat} (h : executed? p (after p m n) = none) :
    records p m (n + 1) = records p m n := by
  unfold records
  rw [journal, h]

/-- The trace sink has been sent the records, whether it took them or not. -/
theorem trace_after {sink : τ} (h : m.trace = some sink) (n : Nat) :
    (after p m n).trace = some (Sink.serveAll ((records p m n).map .write) sink) := by
  induction n with
  | zero => exact h
  | succ n ih =>
    cases hx : executed? p (after p m n) with
    | none =>
      rw [records_of_not_executed? hx]
      exact (step_of_not_executed? hx).1.trans ih
    | some i =>
      obtain ⟨-, -, -, htrace⟩ := step_of_executed? hx
      show (step p (after p m n)).2.trace = _
      rw [htrace, ih, records_of_executed? hx, List.map_append]
      exact congrArg some (Sink.serveAll_concat _ (.write _) sink).symm

/-! ## The number of records -/

/-- The next step ends with a fault in the instruction that it has fetched. -/
def FaultsInside (p : Program) (m : Machine ω τ) : Prop :=
  (∃ fault, (step p m).1 = .error fault) ∧ (p.get? m.state.pc).isSome

/-- One of the first steps has ended with a fault in the instruction that it had fetched. -/
def FaultedInside (p : Program) (m : Machine ω τ) (n : Nat) : Prop :=
  ∃ k < n, FaultsInside p (after p m k)

theorem faultedInside_succ_iff {n : Nat} :
    FaultedInside p m (n + 1) ↔ FaultedInside p m n ∨ FaultsInside p (after p m n) := by
  constructor
  · rintro ⟨k, hk, hfault⟩
    rcases Nat.lt_succ_iff_lt_or_eq.mp hk with hlt | rfl
    · exact .inl ⟨k, hlt, hfault⟩
    · exact .inr hfault
  · rintro (⟨k, hk, hfault⟩ | hfault)
    · exact ⟨k, Nat.lt_succ_of_lt hk, hfault⟩
    · exact ⟨n, Nat.lt_succ_self n, hfault⟩

theorem not_faultedInside_of_running {n : Nat} (h : (after p m n).state.status = .running) :
    ¬FaultedInside p m n := by
  rintro ⟨k, hk, ⟨fault, hfault⟩, -⟩
  have hstop : (after p m (k + 1)).state.status ≠ .running := stopped_of_error hfault
  rw [after_of_stopped hstop hk] at h
  exact hstop h

/-- A step that fetches an instruction counts, however it ends. -/
theorem steps_of_fetched (hrun : m.state.status = .running) (hi : p.get? m.state.pc = some i) :
    (step p m).2.state.steps = m.state.steps + 1 := by
  rw [(sameBooks_step p hrun).steps_eq, State.tried_of_some hi]
  rfl

/-- A step that fetches nothing does not count. -/
theorem steps_of_not_fetched (hx : executed? p m = none) (hf : ¬FaultsInside p m) :
    (step p m).2.state.steps = m.state.steps := by
  rcases (step_of_not_executed? hx).2 with hstop | ⟨fault, hfault⟩
  · rw [step_of_stopped hstop]
  · have hnone : p.get? m.state.pc = none := by
      by_contra hsome
      exact hf ⟨⟨fault, hfault⟩, Option.isSome_iff_ne_none.mpr hsome⟩
    rw [(sameBooks_step p (running_of_error hfault)).steps_eq, State.tried_of_none hnone]

/-- **The number of records.** From the start on, there is one for each step, unless a step has
ended with a fault in its instruction; then there is one less. -/
theorem length_records (hm : m.state.steps = 0) (n : Nat) :
    (¬FaultedInside p m n → (records p m n).length = (after p m n).state.steps) ∧
      (FaultedInside p m n → (records p m n).length + 1 = (after p m n).state.steps) := by
  induction n with
  | zero => exact ⟨fun _ => hm.symm, fun ⟨_, hk, _⟩ => absurd hk (Nat.not_lt_zero _)⟩
  | succ n ih =>
    rw [faultedInside_succ_iff]
    show (_ → _ = (step p (after p m n)).2.state.steps) ∧
      (_ → _ = (step p (after p m n)).2.state.steps)
    cases hx : executed? p (after p m n) with
    | some i =>
      obtain ⟨hrun, hi, hok, -⟩ := step_of_executed? hx
      have hbefore := not_faultedInside_of_running hrun
      have hnow : ¬FaultsInside p (after p m n) := by
        rintro ⟨⟨fault, hfault⟩, -⟩
        cases hok.symm.trans hfault
      rw [records_of_executed? hx, List.length_append, ih.1 hbefore, steps_of_fetched hrun hi]
      exact ⟨fun _ => rfl, fun h => absurd h (not_or.mpr ⟨hbefore, hnow⟩)⟩
    | none =>
      rw [records_of_not_executed? hx]
      by_cases hf : FaultsInside p (after p m n)
      · obtain ⟨⟨fault, hfault⟩, hsome⟩ := hf
        obtain ⟨i, hi⟩ := Option.isSome_iff_exists.mp hsome
        have hrun := running_of_error hfault
        rw [ih.1 (not_faultedInside_of_running hrun), steps_of_fetched hrun hi]
        exact ⟨fun h => absurd (.inr ⟨⟨fault, hfault⟩, hsome⟩) h, fun _ => rfl⟩
      · rw [steps_of_not_fetched hx hf, or_iff_left hf]
        exact ih

/-! ## The trace as a log -/

/-- **The trace.** Whatever is called on a new machine, it returns the same with a trace as without,
and has the same state and the same output. The trace sink has been sent the records of the steps
taken, so a buffer without a limit holds them one after another. There are as many records as steps,
or one less once a fetched instruction has ended with a fault. -/
theorem trace_is_exact_log (p : Program) (limits : Limits) (output : ω) :
    (∀ (sink : τ) (calls : List (Call τ)),
      (session p ((new limits output).withTrace sink) calls).map
          (fun (replies, m) => (replies, m.state, m.output)) =
        (session p (new limits output) calls).map
          fun (replies, m) => (replies, m.state, m.output)) ∧
    (∀ (sink : τ) (n : Nat),
      let m : Machine ω τ := (new limits output).withTrace sink
      (after p m n).trace = some (Sink.serveAll ((records p m n).map .write) sink) ∧
        (¬FaultedInside p m n → (records p m n).length = (after p m n).state.steps) ∧
        (FaultedInside p m n → (records p m n).length + 1 = (after p m n).state.steps)) ∧
    ∀ (buffer : Buffer) (n : Nat), buffer.room = none →
      let m : Machine ω Buffer := (new limits output).withTrace buffer
      (after p m n).trace =
        some { buffer with text := buffer.text ++ String.join (records p m n) } := by
  refine ⟨fun sink calls => ?_, fun sink n => ?_, fun buffer n hroom => ?_⟩
  · have hlock : Lockstep output output ((new limits output : Machine ω τ).withTrace sink)
        (new limits output : Machine ω τ) := .start rfl rfl rfl
    have hsession := hlock.session (p := p) (.refl output) calls
    generalize session p ((new limits output).withTrace sink) calls = r,
      session p (new limits output) calls = r' at hsession
    cases hsession with
    | none => rfl
    | some hr =>
      obtain ⟨hreplies, hstate, requests, houtput, houtput'⟩ := hr
      simp only [Option.map_some, hreplies, hstate, houtput, houtput']
  · exact ⟨trace_after rfl n, length_records rfl n⟩
  · intro m
    have htrace : m.trace = some buffer := rfl
    rw [trace_after htrace n, Buffer.serveAll_write hroom]

/-- Divides by zero. -/
def halfway : Program :=
  .ofList [.value Opcode.lit.code 7, .value Opcode.lit.code 0, .operation Operation.div.code]

/-- The run of `halfway` takes three steps and leaves two records. -/
theorem trace_is_exact_log_halfway :
    let m : Machine Buffer Buffer := (new { stackSize := 4 } Buffer.empty).withTrace Buffer.empty
    FaultedInside halfway m 5 ∧ (after halfway m 5).state.steps = 3 ∧
      (records halfway m 5).length = 2 ∧
      (after halfway m 5).trace =
        some { Buffer.empty with text := "LIT 7\n  pc=1\nLIT 0\n  pc=2\n" } := by
  intro m
  have hinside : FaultedInside halfway m 5 :=
    ⟨2, by decide, ⟨⟨2, .divisionByZero⟩, by decide +kernel⟩, by decide +kernel⟩
  have hsteps : (after halfway m 5).state.steps = 3 := by decide +kernel
  obtain ⟨-, hsink, hbuffer⟩ :=
    trace_is_exact_log (τ := Buffer) halfway { stackSize := 4 } Buffer.empty
  have hlength := (hsink Buffer.empty 5).2.2 hinside
  have hrecords : String.join (records halfway m 5) = "LIT 7\n  pc=1\nLIT 0\n  pc=2\n" := by
    decide +kernel
  refine ⟨hinside, hsteps, Nat.succ.inj (hlength.trans hsteps), ?_⟩
  rw [hbuffer Buffer.empty 5 rfl, hrecords]
  rfl

end Machine

end PCode
