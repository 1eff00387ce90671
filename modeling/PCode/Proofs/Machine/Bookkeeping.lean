import PCode.Proofs.Machine.Congruence
import PCode.Proofs.Machine.Run

/-!
# What instructions leave alone

An instruction works on the top, the program counter, the cells and the display, and on the display
only where it opens or closes a frame. A relation between the state before and the state after that
such work brings about is therefore brought about by every instruction, also by one that stops
halfway, and by every step. `Persistent` says of a relation that it is one.

There are two. The sizes of the two arrays, the number of steps and the position that a fault names
are the *books* of the machine: only fetching writes in them. And the display word of a level stays
where no frame is opened or closed at that level.

* `Persistent.execute`, `Persistent.step`: what an instruction and a step bring about.
* `Machine.sameBooks_step`: after a step the books are those after its fetch.
* `Machine.position_of_fault`: a fault names the position where the step began.
* `Machine.display_step`: a step that does not open or close a frame at a level keeps its word.
-/

namespace PCode

namespace State

/-- The arrays have the same sizes, and position and number of steps are the same. -/
structure SameBooks (s s' : State) : Prop where
  size_stack : s'.stack.size = s.stack.size
  size_display : s'.display.size = s.display.size
  position_eq : s'.position = s.position
  steps_eq : s'.steps = s.steps

theorem SameBooks.trans {s s' s'' : State} (h : s.SameBooks s') (h' : s'.SameBooks s'') :
    s.SameBooks s'' where
  size_stack := h'.size_stack.trans h.size_stack
  size_display := h'.size_display.trans h.size_display
  position_eq := h'.position_eq.trans h.position_eq
  steps_eq := h'.steps_eq.trans h.steps_eq

/-- The state after an attempt to fetch the instruction at the program counter. -/
def tried (p : Program) (s : State) : State :=
  match p.get? s.pc with
  | none => { s with position := s.pc }
  | some _ => s.fetched

theorem tried_of_none {p : Program} {s : State} (h : p.get? s.pc = none) :
    s.tried p = { s with position := s.pc } := by
  simp only [tried, h]

theorem tried_of_some {p : Program} {s : State} {i : Instruction} (h : p.get? s.pc = some i) :
    s.tried p = s.fetched := by
  simp only [tried, h]

@[simp] theorem tried_stack (p : Program) (s : State) : (s.tried p).stack = s.stack := by
  unfold tried
  split <;> rfl

@[simp] theorem tried_display (p : Program) (s : State) : (s.tried p).display = s.display := by
  unfold tried
  split <;> rfl

@[simp] theorem tried_position (p : Program) (s : State) : (s.tried p).position = s.pc := by
  unfold tried
  split <;> rfl

end State

/-! ## Relations that work brings about -/

/-- The state that an action leaves, whichever way it ends. -/
def Exec.left {α : Type} : EStateM.Result Cause State α → State
  | .ok _ s => s
  | .error _ s => s

/-- Whatever is done to the top, the program counter, the status and the cells, and to the display
words of the levels that `Frame` tells, the state before and the state after are related. -/
structure Persistent (R : State → State → Prop) (Frame : Nat → Prop) : Prop where
  trans {s s' s'' : State} : R s s' → R s' s'' → R s s''
  registers (s : State) (top pc : Nat) (status : Status) :
    R s { s with top := top, pc := pc, status := status }
  store (s : State) (index : Nat) (word : Int64) :
    R s { s with stack := s.stack.setIfInBounds index word }
  setFrame (s : State) {level : Nat} : Frame level → ∀ word,
    R s { s with display := s.display.setIfInBounds level word }

theorem sameBooks_persistent : Persistent State.SameBooks (fun _ => True) where
  trans := State.SameBooks.trans
  registers _ _ _ _ := ⟨rfl, rfl, rfl, rfl⟩
  store _ _ _ := ⟨Array.size_setIfInBounds, rfl, rfl, rfl⟩
  setFrame _ _ _ _ := ⟨rfl, Array.size_setIfInBounds, rfl, rfl⟩

theorem display_persistent (k : Nat) :
    Persistent (fun s s' => s'.display[k]? = s.display[k]?) (· ≠ k) where
  trans h h' := h'.trans h
  registers _ _ _ _ := rfl
  store _ _ _ := rfl
  setFrame _ _ hlevel _ := Array.getElem?_setIfInBounds_ne hlevel

namespace Persistent

variable {α : Type} {R : State → State → Prop} {Frame : Nat → Prop}

theorem refl (h : Persistent R Frame) (s : State) : R s s := h.registers s s.top s.pc s.status

/-- Compares an action with itself in a state that a given one is related to, as it is to the state
afterwards. -/
def tracking (R : State → State → Prop) (start : State) : Simulation Cause where
  related s t := t = s ∧ R start s
  spared _ := False
  stop := id

/-- An action keeps track of the given state if it relates the state before to the state after. -/
theorem tracking_keeps (h : Persistent R Frame) {start : State} {x : Exec α}
    (hx : ∀ s, R s (Exec.left (x s))) : (tracking R start).Keeps (fun _ => True) x := by
  rintro _ s ⟨rfl, hs⟩
  have hxs := hx s
  cases hend : x s with
  | ok a s' =>
    rw [hend] at hxs
    exact ⟨⟨rfl, h.trans hs hxs⟩, rfl, trivial⟩
  | error c s' =>
    rw [hend] at hxs
    exact .inr ⟨rfl, rfl, h.trans hs hxs⟩

theorem tracking_congruent (h : Persistent R Frame) (start : State) :
    Congruent (tracking R start) (fun _ => True) (fun _ => True) Frame where
  top_eq h := congrArg State.top h.1
  pc_eq h := congrArg State.pc h.1
  room := by
    rintro s _ n ⟨rfl, -⟩ hn
    exact ⟨hn, fun _ _ => trivial⟩
  overflow h := .inr (congrArg (·.stack.size) h.1)
  stops _ _ := .inr rfl
  push _ := h.tracking_keeps fun s => by
    unfold Exec.push
    split
    · exact h.trans (h.store s _ _) (h.registers _ _ s.pc s.status)
    · exact h.refl s
  pop := h.tracking_keeps fun s => by
    unfold Exec.pop
    split
    · exact h.refl s
    · exact h.registers s _ s.pc s.status
  setTop _ := h.tracking_keeps fun s => by
    unfold Exec.setTop
    split
    · exact h.refl s
    · split
      · exact h.refl s
      · exact h.registers s _ s.pc s.status
  cell _ := h.tracking_keeps fun s => by
    unfold Exec.cell
    split <;> exact h.refl s
  read _ := h.tracking_keeps h.refl
  write _ _ := h.tracking_keeps fun s => h.store s _ _
  level _ := h.tracking_keeps fun s => by
    unfold Exec.level
    split <;> exact h.refl s
  frame _ := h.tracking_keeps h.refl
  setFrame _ hlevel _ := h.tracking_keeps fun s => h.setFrame s hlevel _
  jump _ := h.tracking_keeps fun s => by
    unfold Exec.jump
    split
    · exact h.refl s
    · exact h.registers s s.top _ s.status

/-- **Instructions.** However an instruction ends, it has related the state that it found to the
state that it leaves. -/
theorem execute (h : Persistent R Frame) {i : Instruction}
    (hframe : ∀ k, i.ChangesFrame k → Frame k) (s : State) : R s (Exec.left (i.execute s)) := by
  by_cases hi : i.WellShaped
  · have hkeeps := (h.tracking_congruent s).execute hi hframe s s ⟨rfl, h.refl s⟩
    cases hx : i.execute s with
    | ok out s' =>
      rw [hx] at hkeeps
      exact hkeeps.1.2
    | error c s' =>
      rw [hx] at hkeeps
      exact (hkeeps.resolve_left id).2.2
  · obtain ⟨c, -, hc⟩ := Instruction.execute_of_not_wellShaped hi
    rw [hc]
    exact h.refl s

/-! ## Steps -/

theorem cycle (h : Persistent R Frame) {p : Program} {s : State}
    (hframe : ∀ i ∈ p.get? s.pc, ∀ k, i.ChangesFrame k → Frame k) :
    R (s.tried p) (Exec.left (Machine.cycle p s)) := by
  cases hc : Machine.cycle p s with
  | ok r s' =>
    obtain ⟨i, out⟩ := r
    obtain ⟨hi, he⟩ := Machine.cycle_ok_iff.mp hc
    have hexecute := h.execute (hframe i hi) s.fetched
    rw [he.execute] at hexecute
    rw [State.tried_of_some hi]
    exact hexecute
  | error c s' =>
    rcases Machine.cycle_error_iff.mp hc with ⟨hnone, -, rfl⟩ | ⟨i, hi, hstop⟩
    · rw [State.tried_of_none hnone]
      exact h.refl _
    · have hexecute := h.execute (hframe i hi) s.fetched
      rw [hstop] at hexecute
      rw [State.tried_of_some hi]
      exact hexecute

/-- **One step.** The state after the fetch is related to the state after the step. -/
theorem step {ω τ : Type} [Sink ω] [Sink τ] {p : Program} {m : Machine ω τ}
    (h : Persistent R Frame) (hrun : m.state.status = .running)
    (hframe : ∀ i ∈ p.get? m.state.pc, ∀ k, i.ChangesFrame k → Frame k) :
    R (m.state.tried p) (Machine.step p m).2.state := by
  have hcycle := h.cycle hframe
  have hcase := Machine.stepCase p m
  generalize Machine.step p m = result at hcase
  -- Ending a step changes only the status and the sinks.
  cases hcase with
  | stopped hstop => exact absurd hrun hstop
  | @failed _ s' _ _ _ _ hc | @silent _ s' _ _ _ _ hc | @written _ s' _ _ _ _ _ _ hc _
  | @refused _ s' _ _ _ _ _ _ _ hc _ =>
    rw [hc] at hcycle
    exact h.trans hcycle (h.registers s' s'.top s'.pc _)

end Persistent

namespace Machine

variable {ω τ : Type} [Sink ω] [Sink τ] {p : Program} {m : Machine ω τ} {k : Nat}

/-- **Books.** After a step the books are those after its fetch. -/
theorem sameBooks_step (p : Program) (hrun : m.state.status = .running) :
    (m.state.tried p).SameBooks (step p m).2.state :=
  sameBooks_persistent.step hrun fun _ _ _ _ => trivial

theorem position_step (p : Program) (hrun : m.state.status = .running) :
    (step p m).2.state.position = m.state.pc :=
  (sameBooks_step p hrun).position_eq.trans (State.tried_position p m.state)

/-- A fault names the position of the instruction that was to be executed. -/
theorem position_of_fault {fault : Fault} (h : (step p m).1 = .error fault) :
    fault.position = m.state.pc := by
  have hfail : m.state.status = .running ∧ fault.position = (step p m).2.state.position := by
    have hcase := stepCase p m
    generalize step p m = result at h hcase
    cases hcase with
    | failed hrun | refused hrun =>
      cases h
      exact ⟨hrun, rfl⟩
    | stopped | silent | written => cases h
  rw [hfail.2, position_step p hfail.1]

theorem size_stack_step (p : Program) (m : Machine ω τ) :
    (step p m).2.state.stack.size = m.state.stack.size := by
  by_cases hrun : m.state.status = .running
  · rw [(sameBooks_step p hrun).size_stack, State.tried_stack]
  · rw [step_of_stopped hrun]

theorem size_display_step (p : Program) (m : Machine ω τ) :
    (step p m).2.state.display.size = m.state.display.size := by
  by_cases hrun : m.state.status = .running
  · rw [(sameBooks_step p hrun).size_display, State.tried_display]
  · rw [step_of_stopped hrun]

/-- The instruction that the next call of `step` executes, with success or not. -/
def fetched? (p : Program) (m : Machine ω τ) : Option Instruction :=
  if m.state.status = .running then p.get? m.state.pc else none

/-- **Display words.** A step keeps the display word of a level unless it executes an instruction
that opens or closes a frame there. -/
theorem display_step (h : ∀ i ∈ fetched? p m, ¬i.ChangesFrame k) :
    (step p m).2.state.display[k]? = m.state.display[k]? := by
  by_cases hrun : m.state.status = .running
  · have hother : ∀ i ∈ p.get? m.state.pc, ∀ level, i.ChangesFrame level → level ≠ k := by
      rintro i hi _ hchanges rfl
      exact h i ((if_pos hrun).trans hi) hchanges
    rw [(display_persistent k).step hrun hother, State.tried_display]
  · rw [step_of_stopped hrun]

end Machine

end PCode
