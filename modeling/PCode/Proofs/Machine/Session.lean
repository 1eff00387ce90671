import PCode.Proofs.Machine.Run

/-!
# Sessions

A session is a list of calls on one machine: to take a step, to run the program to its end, to start
again, and to send the trace to a sink. Calls can come in any order, also after the machine has
halted or faulted. A run that does not end ends no session either.

* `exists_advance_eq_after`, `exists_step_of_advance_error`: where a run stops and the fault that
  stops it are those of some step.
* `fault_of_run`: so is the fault of a run to the end, unless flushing failed.
* `state_of_session`: what holds of the state at the start, after a reset and after every step,
  holds of the state at the end of every session.
-/

namespace PCode

/-- A call on a machine. -/
inductive Call (τ : Type) where
  /-- Execute one instruction. -/
  | step
  /-- Run the program from the start to its end, which comes within a number of steps. -/
  | run (fuel : Nat)
  /-- Go back to the start. -/
  | reset
  /-- Send the trace to a sink from now on. -/
  | trace (sink : τ)

/-- What a call returns. -/
inductive Reply where
  /-- The status after a step, or the fault. -/
  | stepped (result : Except Fault Status)
  /-- The fault of a run, if any. -/
  | ran (result : Except Fault Unit)
  /-- Nothing. -/
  | done

namespace Machine

variable {ω τ : Type} [Sink ω] [Sink τ] {p : Program} {m m' : Machine ω τ}

/-- What a call returns, and the machine afterwards. Nothing if a run goes on for too long. -/
def call (p : Program) (m : Machine ω τ) : Call τ → Option (Reply × Machine ω τ)
  | .step =>
    let (result, m) := step p m
    some (.stepped result, m)
  | .run fuel => (run p fuel m).map fun (result, m) => (.ran result, m)
  | .reset => some (.done, m.reset)
  | .trace sink => some (.done, m.withTrace sink)

/-- What the calls return, and the machine afterwards. Nothing if a run goes on for too long. -/
def session (p : Program) (m : Machine ω τ) : List (Call τ) → Option (List Reply × Machine ω τ)
  | [] => some ([], m)
  | first :: rest => do
    let (reply, m) ← call p m first
    let (replies, m) ← session p m rest
    return (reply :: replies, m)

/-! ## Runs -/

theorem after_step (p : Program) (m : Machine ω τ) (n : Nat) :
    after p (step p m).2 n = after p m (n + 1) := by
  induction n with
  | zero => rfl
  | succ n ih => exact congrArg (fun m => (step p m).2) ih

/-- Where a run stops, some number of steps leads too. -/
theorem exists_advance_eq_after (p : Program) (n : Nat) (m : Machine ω τ) :
    ∃ k, (advance p n m).2 = after p m k := by
  induction n generalizing m with
  | zero => exact ⟨0, rfl⟩
  | succ n ih =>
    unfold advance
    split
    next m₁ hstep =>
      have hm₁ : m₁ = (step p m).2 := by rw [hstep]
      obtain ⟨k, hk⟩ := ih m₁
      exact ⟨k + 1, by rw [hk, hm₁, after_step]⟩
    next => exact ⟨1, rfl⟩

/-- The fault of a run is that of one of its steps. -/
theorem exists_step_of_advance_error {fault : Fault} {n : Nat}
    (h : (advance p n m).1 = .error fault) : ∃ k, (step p (after p m k)).1 = .error fault := by
  induction n generalizing m with
  | zero => cases h
  | succ n ih =>
    unfold advance at h
    split at h
    next m₁ hstep =>
      have hm₁ : m₁ = (step p m).2 := by rw [hstep]
      obtain ⟨k, hk⟩ := ih h
      exact ⟨k + 1, by rw [← after_step, ← hm₁, hk]⟩
    next => exact ⟨0, h⟩

theorem exists_run_eq_after {fuel : Nat} {result : Except Fault Unit}
    (h : run p fuel m = some (result, m')) : ∃ k, m'.state = (after p m.reset k).state := by
  obtain ⟨k, hk⟩ := exists_advance_eq_after p fuel m.reset
  unfold run at h
  simp only at h
  split at h
  · cases h
  · obtain ⟨-, rfl⟩ := Prod.mk.inj (Option.some.inj h)
    have hstate : (advance p fuel m.reset).2.state = (after p m.reset k).state := by rw [hk]
    exact ⟨k, hstate⟩

/-- The fault of a run to the end is that of one of its steps, unless it is that of flushing. -/
theorem fault_of_run {fuel : Nat} {fault : Fault} (h : run p fuel m = some (.error fault, m')) :
    (∃ k, (step p (after p m.reset k)).1 = .error fault) ∨
      ∃ message, fault.cause = .output message := by
  unfold run conclude at h
  dsimp only at h
  split at h
  · cases h
  · obtain ⟨hresult, -⟩ := Prod.mk.inj (Option.some.inj h)
    split at hresult
    next hadvance =>
      cases hresult
      exact .inl (exists_step_of_advance_error hadvance)
    next message _ _ =>
      cases hresult
      exact .inr ⟨message, rfl⟩
    next => cases hresult

/-! ## Invariants -/

/-- **Invariants of sessions.** What every step keeps of the state, and every reset, is kept by every
session. -/
theorem state_of_session {P : State → Prop} {calls : List (Call τ)} {replies : List Reply}
    (hstep : ∀ m : Machine ω τ, P m.state → P (step p m).2.state)
    (hreset : ∀ s, P s → P s.reset) (hm : P m.state)
    (h : session p m calls = some (replies, m')) : P m'.state := by
  have hafter (m : Machine ω τ) (hm : P m.state) (n : Nat) : P (after p m n).state := by
    induction n with
    | zero => exact hm
    | succ n ih => exact hstep _ ih
  induction calls generalizing m replies with
  | nil =>
    obtain ⟨-, rfl⟩ := Prod.mk.inj (Option.some.inj h)
    exact hm
  | cons first rest ih =>
    obtain ⟨⟨reply, m₁⟩, hfirst, hrest⟩ := Option.bind_eq_some_iff.mp h
    obtain ⟨⟨replies', m₂⟩, hsession, hpair⟩ := Option.bind_eq_some_iff.mp hrest
    obtain ⟨-, rfl⟩ := Prod.mk.inj (Option.some.inj hpair)
    refine ih ?_ hsession
    cases first with
    | step =>
      obtain ⟨-, rfl⟩ := Prod.mk.inj (Option.some.inj hfirst)
      exact hstep m hm
    | run fuel =>
      obtain ⟨⟨result, m₃⟩, hrun, hpair⟩ := Option.map_eq_some_iff.mp hfirst
      obtain ⟨-, rfl⟩ := Prod.mk.inj hpair
      obtain ⟨k, hk⟩ := exists_run_eq_after hrun
      rw [hk]
      exact hafter m.reset (hreset m.state hm) k
    | reset =>
      obtain ⟨-, rfl⟩ := Prod.mk.inj (Option.some.inj hfirst)
      exact hreset m.state hm
    | trace sink =>
      obtain ⟨-, rfl⟩ := Prod.mk.inj (Option.some.inj hfirst)
      exact hm

end Machine

end PCode
