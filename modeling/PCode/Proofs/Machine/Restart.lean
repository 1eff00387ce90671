import PCode.Proofs.Machine.Bookkeeping
import PCode.Proofs.Machine.Lockstep

/-!
# Starting again

A program can read cells above the top, display words that it never set and headers of frames that
are closed, so whatever a reset left behind could be seen by the next run. It leaves nothing: the
sizes of the arrays are all that it takes over, and these no call has changed.

* `size_of_session`: every session keeps the sizes.
* `reset_forgets_history`: a machine that has been reset is a new one, but for its sinks. With sinks
  that never fail it does what a new one does.
-/

namespace PCode

namespace Machine

variable {ω ω' τ : Type} [Sink ω] [Sink ω'] [Sink τ] {p : Program} {limits : Limits}
  {output : ω} {calls : List (Call τ)} {replies : List Reply} {m : Machine ω τ}

theorem size_of_session (h : session p (new limits output) calls = some (replies, m)) :
    m.state.stack.size = limits.cells ∧ m.state.display.size = limits.levels := by
  refine state_of_session (P := fun s => s.stack.size = limits.cells ∧
    s.display.size = limits.levels) (fun m hm => ?_) (fun s hs => ?_) ?_ h
  · rw [size_stack_step, size_display_step]
    exact hm
  · exact ⟨Array.size_replicate.trans hs.1, Array.size_replicate.trans hs.2⟩
  · exact ⟨Array.size_replicate, Array.size_replicate⟩

theorem reset_of_session (h : session p (new limits output) calls = some (replies, m)) :
    m.state.reset = State.entry limits := by
  obtain ⟨hstack, hdisplay⟩ := size_of_session h
  rw [State.reset, hstack, hdisplay, State.entry]

/-- A session asks its output sink for something, and does nothing else to it. -/
theorem output_of_session (h : session p (new limits output) calls = some (replies, m)) :
    ∃ requests, m.output = Sink.serveAll requests output := by
  have hself : Lockstep output output (new limits output : Machine ω τ)
      (new limits output : Machine ω τ) := .start rfl rfl rfl
  have hsession := hself.session (p := p) (.refl output) calls
  rw [h] at hsession
  cases hsession with
  | some hr =>
    obtain ⟨-, -, requests, houtput, -⟩ := hr
    exact ⟨requests, houtput⟩

/-- **Starting again.** Take the machine that any session on a new machine leaves. After a reset it
is a new machine of the same limits with the sinks that it has. If its output sink and that of
another new machine never fail, the same calls return the same on both, lead to the same states and
ask the sinks for the same. A sink that never failed at the start does not fail now. -/
theorem reset_forgets_history (p : Program) (limits : Limits) (output : ω) (calls : List (Call τ))
    (replies : List Reply) (m : Machine ω τ)
    (h : session p (new limits output) calls = some (replies, m)) :
    m.reset = { (new limits m.output : Machine ω τ) with trace := m.trace } ∧
      (Sink.Reliable output → Sink.Reliable m.output) ∧
      ∀ fresh : ω', Sink.Reliable m.output → Sink.Reliable fresh → ∀ next : List (Call τ),
        Option.Rel (fun r r' => r'.1 = r.1 ∧ Lockstep m.output fresh r.2 r'.2)
          (session p m.reset next) (session p (new limits fresh) next) := by
  have hreset := reset_of_session h
  refine ⟨?_, fun houtput => ?_, fun fresh hm hfresh next => ?_⟩
  · rw [reset, hreset, new]
  · obtain ⟨requests, hrequests⟩ := output_of_session h
    rw [hrequests]
    exact houtput.serveAll requests
  · have hlock : Lockstep m.output fresh m.reset (new limits fresh : Machine ω' τ) :=
      .start hreset.symm rfl rfl
    exact hlock.session (hm.alike hfresh) next

/-- Writes the fourth cell, which it has not set, and sets it then. -/
def leftover : Program :=
  .ofList [.value Opcode.jmp.code 1, .address Opcode.lod.code 0 3, .operation Operation.wrt.code,
    .value Opcode.ict.code 3, .value Opcode.lit.code 9, .value Opcode.jmp.code 0]

/-- The second run of `leftover` does what the first did, although the first has left a nine in the
cell that the second reads. -/
theorem reset_forgets_history_leftover :
    let new : Machine Buffer Buffer := Machine.new { stackSize := 4 } Buffer.empty
    ∃ replies m, session leftover new [.run 100, .step] = some (replies, m) ∧
      m.state.word 3 = 9 ∧ m.reset.state = new.state ∧ Sink.Reliable m.output ∧
      Option.Rel (fun r r' => r'.1 = r.1 ∧ Lockstep m.output Buffer.empty r.2 r'.2)
        (session leftover m.reset [.run 100]) (session leftover new [.run 100]) := by
  intro new
  have hword : (session leftover new [.run 100, .step]).map (·.2.state.word 3) = some 9 := by
    decide +kernel
  obtain ⟨⟨replies, m⟩, hsession, hnine⟩ := Option.map_eq_some_iff.mp hword
  obtain ⟨hreset, hreliable, hnext⟩ : _ ∧ _ ∧ ∀ fresh : Buffer, _ :=
    reset_forgets_history leftover { stackSize := 4 } Buffer.empty _ replies m hsession
  have hempty : Sink.Reliable Buffer.empty := Buffer.reliable rfl rfl
  refine ⟨replies, m, hsession, hnine, ?_, hreliable hempty, ?_⟩
  · rw [hreset]
    rfl
  · exact hnext Buffer.empty (hreliable hempty) hempty [.run 100]

end Machine

end PCode
