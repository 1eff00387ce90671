import Mathlib.Control.Monad.Basic
import PCode.Proofs.Machine.Congruence
import PCode.Proofs.Machine.Run

/-!
# Larger machines

A machine with more cells and more levels does the same as a smaller one, up to the first fault that
the smaller one ends with for want of room. `State.pad` is the state with more room: the extra words
stand at the end of the stack and of the display, and are zero.

A program can read cells above the top, and can have any word for an address. It still cannot tell
the sizes apart: an index is checked before it is used, and where the check fails on the smaller
machine the fault is one of the three that `Cause.IsLimit` names.

* `Machine.step_pad`: a step on the padded machine does what the step does, and pads the result.
* `Machine.steps_of_larger_limits`: so does every number of steps from the start.
-/

namespace PCode

/-- The fault is one that a larger stack or a larger display may avoid. -/
def Cause.IsLimit : Cause → Prop
  | stackOverflow | addressOutOfRange _ | levelOutOfRange _ => True
  | _ => False

instance : DecidablePred Cause.IsLimit := fun c => by
  cases c <;> first | exact .isTrue trivial | exact .isFalse id

/-! ## Padding -/

/-- The words, and then a number of zeros. -/
def extend (words : Array Int64) (extra : Nat) : Array Int64 := words ++ Array.replicate extra 0

section Extend

variable (words : Array Int64) (extra : Nat) {index : Nat}

theorem size_extend : (extend words extra).size = words.size + extra := by
  simp [extend]

theorem getElem?_extend_of_lt (h : index < words.size) :
    (extend words extra)[index]? = words[index]? := by
  rw [extend, Array.getElem?_append, if_pos h]

theorem getElem?_extend_of_le (h : words.size ≤ index) (h' : index < words.size + extra) :
    (extend words extra)[index]? = some 0 := by
  rw [extend, Array.getElem?_append, if_neg (by omega), Array.getElem?_replicate,
    if_pos (by omega)]

/-- Where there is no word, there is zero; so padding is not seen by reading. -/
theorem getD_extend (index : Nat) : (extend words extra).getD index 0 = words.getD index 0 := by
  rw [Array.getD_eq_getD_getElem?, Array.getD_eq_getD_getElem?]
  by_cases h : index < words.size
  · rw [getElem?_extend_of_lt words extra h]
  · rw [extend, Array.getElem?_append, if_neg h, Array.getElem?_replicate,
      Array.getElem?_eq_none (by omega)]
    split <;> rfl

theorem setIfInBounds_extend (h : index < words.size) (word : Int64) :
    (extend words extra).setIfInBounds index word = extend (words.setIfInBounds index word) extra :=
  Array.setIfInBounds_append_left h

theorem extend_replicate (count : Nat) :
    extend (Array.replicate count 0) extra = Array.replicate (count + extra) 0 :=
  Array.replicate_append_replicate

end Extend

namespace State

/-- The state with more cells and more levels. -/
def pad (cells levels : Nat) (s : State) : State :=
  { s with stack := extend s.stack cells, display := extend s.display levels }

theorem size_stack_pad (cells levels : Nat) (s : State) :
    (s.pad cells levels).stack.size = s.stack.size + cells := size_extend s.stack cells

theorem size_display_pad (cells levels : Nat) (s : State) :
    (s.pad cells levels).display.size = s.display.size + levels := size_extend s.display levels

/-- Both arrays have kept their sizes. -/
def SameSizes (s s' : State) : Prop :=
  s'.stack.size = s.stack.size ∧ s'.display.size = s.display.size

/-- The second state is the first, of a machine with larger limits: all is the same, and the cells
and levels that only the second has are zero. -/
structure Enlarged (limits limits' : Limits) (s s' : State) : Prop where
  status_eq : s'.status = s.status
  pc_eq : s'.pc = s.pc
  top_eq : s'.top = s.top
  steps_eq : s'.steps = s.steps
  position_eq : s'.position = s.position
  size_stack : s.stack.size = limits.cells ∧ s'.stack.size = limits'.cells
  size_display : s.display.size = limits.levels ∧ s'.display.size = limits'.levels
  cell_eq {i : Nat} : i < limits.cells → s'.stack[i]? = s.stack[i]?
  level_eq {i : Nat} : i < limits.levels → s'.display[i]? = s.display[i]?
  extra_cell {i : Nat} : limits.cells ≤ i → i < limits'.cells → s'.stack[i]? = some 0
  extra_level {i : Nat} : limits.levels ≤ i → i < limits'.levels → s'.display[i]? = some 0

theorem entry_pad {limits limits' : Limits} (hcells : limits.cells ≤ limits'.cells)
    (hlevels : limits.levels ≤ limits'.levels) :
    (entry limits).pad (limits'.cells - limits.cells) (limits'.levels - limits.levels) =
      entry limits' := by
  simp only [pad, entry, extend_replicate, Nat.add_sub_cancel' hcells,
    Nat.add_sub_cancel' hlevels]

theorem enlarged_pad {limits limits' : Limits} {s : State} (hcells : limits.cells ≤ limits'.cells)
    (hlevels : limits.levels ≤ limits'.levels) (hstack : s.stack.size = limits.cells)
    (hdisplay : s.display.size = limits.levels) :
    Enlarged limits limits' s
      (s.pad (limits'.cells - limits.cells) (limits'.levels - limits.levels)) where
  status_eq := rfl
  pc_eq := rfl
  top_eq := rfl
  steps_eq := rfl
  position_eq := rfl
  size_stack := ⟨hstack, by rw [size_stack_pad]; omega⟩
  size_display := ⟨hdisplay, by rw [size_display_pad]; omega⟩
  cell_eq h := getElem?_extend_of_lt _ _ (by omega)
  level_eq h := getElem?_extend_of_lt _ _ (by omega)
  extra_cell h h' := getElem?_extend_of_le _ _ (by omega) (by omega)
  extra_level h h' := getElem?_extend_of_le _ _ (by omega) (by omega)

end State

/-! ## Instructions -/

section Raising

variable {cells levels : Nat} (c l : Nat)

/-- The second state is the first, of `cells` cells and `levels` levels, with more room. -/
def raising (cells levels c l : Nat) : Simulation Cause where
  related s t := s.stack.size = cells ∧ s.display.size = levels ∧ t = s.pad c l
  spared := Cause.IsLimit
  stop := id

theorem raising_push (word : Int64) :
    (raising cells levels c l).Keeps (fun _ => True) (Exec.push word) := by
  rintro s _ ⟨hs, hd, rfl⟩
  unfold Exec.push
  by_cases hroom : s.top < s.stack.size
  · have hroom' : (s.pad c l).top < (s.pad c l).stack.size := by
      rw [State.size_stack_pad]
      exact Nat.lt_add_right c hroom
    rw [if_pos hroom, if_pos hroom']
    refine ⟨⟨by simpa using hs, hd, ?_⟩, rfl, trivial⟩
    simp only [State.pad, setIfInBounds_extend _ _ hroom]
  · rw [if_neg hroom]
    exact Simulation.matches_of_spared trivial _

theorem raising_pop : (raising cells levels c l).Keeps (fun _ => True) Exec.pop := by
  rintro s _ ⟨hs, hd, rfl⟩
  have htop : (s.pad c l).top = s.top := rfl
  unfold Exec.pop
  rw [htop]
  cases s.top with
  | zero => exact .inr ⟨rfl, hs, hd, rfl⟩
  | succ top => exact ⟨⟨hs, hd, rfl⟩, getD_extend s.stack c top, trivial⟩

theorem raising_setTop (top : Int) :
    (raising cells levels c l).Keeps (fun _ => True) (Exec.setTop top) := by
  rintro s _ ⟨hs, hd, rfl⟩
  unfold Exec.setTop
  by_cases hneg : top < 0
  · rw [if_pos hneg, if_pos hneg]
    exact .inr ⟨rfl, hs, hd, rfl⟩
  · rw [if_neg hneg, if_neg hneg]
    by_cases hfull : s.stack.size < top
    · rw [if_pos hfull]
      exact Simulation.matches_of_spared trivial _
    · have hroom : ¬(s.pad c l).stack.size < top := by
        rw [State.size_stack_pad]
        omega
      rw [if_neg hfull, if_neg hroom]
      exact ⟨⟨hs, hd, rfl⟩, rfl, trivial⟩

theorem raising_cell (address : Int) :
    (raising cells levels c l).Keeps (· < cells) (Exec.cell address) := by
  rintro s _ ⟨hs, hd, rfl⟩
  unfold Exec.cell
  by_cases hcell : 0 ≤ address ∧ address < s.stack.size
  · have hcell' : 0 ≤ address ∧ address < (s.pad c l).stack.size := by
      rw [State.size_stack_pad]
      omega
    rw [if_pos hcell, if_pos hcell']
    exact ⟨⟨hs, hd, rfl⟩, rfl, by omega⟩
  · rw [if_neg hcell]
    exact Simulation.matches_of_spared trivial _

theorem raising_level (level : Int) :
    (raising cells levels c l).Keeps (· < levels) (Exec.level level) := by
  rintro s _ ⟨hs, hd, rfl⟩
  unfold Exec.level
  by_cases hlevel : 0 ≤ level ∧ level < s.display.size
  · have hlevel' : 0 ≤ level ∧ level < (s.pad c l).display.size := by
      rw [State.size_display_pad]
      omega
    rw [if_pos hlevel, if_pos hlevel']
    exact ⟨⟨hs, hd, rfl⟩, rfl, by omega⟩
  · rw [if_neg hlevel]
    exact Simulation.matches_of_spared trivial _

theorem raising_write {index : Nat} (h : index < cells) (word : Int64) :
    (raising cells levels c l).Keeps (fun _ => True) (Exec.write index word) := by
  rintro s _ ⟨hs, hd, rfl⟩
  refine ⟨⟨by simpa using hs, hd, ?_⟩, rfl, trivial⟩
  simp only [State.pad, setIfInBounds_extend _ _ (hs.symm ▸ h)]

theorem raising_setFrame {level : Nat} (h : level < levels) (word : Int64) :
    (raising cells levels c l).Keeps (fun _ => True) (Exec.setFrame level word) := by
  rintro s _ ⟨hs, hd, rfl⟩
  refine ⟨⟨hs, by simpa using hd, ?_⟩, rfl, trivial⟩
  simp only [State.pad, setIfInBounds_extend _ _ (hd.symm ▸ h)]

theorem raising_jump (position : Int) :
    (raising cells levels c l).Keeps (fun _ => True) (Exec.jump position) := by
  rintro s _ ⟨hs, hd, rfl⟩
  unfold Exec.jump
  by_cases hneg : position < 0
  · rw [if_pos hneg, if_pos hneg]
    exact .inr ⟨rfl, hs, hd, rfl⟩
  · rw [if_neg hneg, if_neg hneg]
    exact ⟨⟨hs, hd, rfl⟩, rfl, trivial⟩

theorem raising_congruent :
    Congruent (raising cells levels c l) (· < cells) (· < levels) (fun _ => True) where
  top_eq := by
    rintro s _ ⟨-, -, rfl⟩
    rfl
  pc_eq := by
    rintro s _ ⟨-, -, rfl⟩
    rfl
  room := by
    rintro s _ n ⟨hs, -, rfl⟩ hn
    rw [State.size_stack_pad]
    exact ⟨by omega, fun index hindex => by omega⟩
  overflow _ := .inl trivial
  stops _ _ := .inr rfl
  push := raising_push c l
  pop := raising_pop c l
  setTop := raising_setTop c l
  cell := raising_cell c l
  read := by
    rintro index _ s _ ⟨hs, hd, rfl⟩
    exact ⟨⟨hs, hd, rfl⟩, getD_extend s.stack c index, trivial⟩
  write := raising_write c l
  level := raising_level c l
  frame := by
    rintro level _ s _ ⟨hs, hd, rfl⟩
    exact ⟨⟨hs, hd, rfl⟩, getD_extend s.display l level, trivial⟩
  setFrame h _ := raising_setFrame c l h
  jump := raising_jump c l

theorem raising_execute (i : Instruction) :
    (raising cells levels c l).Keeps (fun _ => True) i.execute := by
  by_cases hi : i.WellShaped
  · exact (raising_congruent c l).execute hi fun _ _ => trivial
  · obtain ⟨cause, -, hcause⟩ := Instruction.execute_of_not_wellShaped hi
    rw [hcause]
    exact Simulation.Holds.throw cause

theorem raising_fetch (p : Program) :
    (raising cells levels c l).Keeps (fun _ => True) (Exec.fetch p.get?) := by
  rintro s _ ⟨hs, hd, rfl⟩
  unfold Exec.fetch State.pad
  cases p.get? s.pc with
  | none => exact .inr ⟨rfl, hs, hd, rfl⟩
  | some i => exact ⟨⟨hs, hd, rfl⟩, rfl, trivial⟩

theorem raising_cycle (p : Program) :
    (raising cells levels c l).Keeps (fun _ => True) (Machine.cycle p) := by
  refine (raising_fetch c l p).bind fun i _ => (raising_execute c l i).bind fun out _ => ?_
  exact .pure ⟨rfl, trivial⟩

end Raising

/-! ## The machine -/

namespace Machine

variable {ω τ : Type} [Sink ω] [Sink τ] {p : Program} {m : Machine ω τ}

/-- The machine with more cells and more levels. -/
def pad (cells levels : Nat) (m : Machine ω τ) : Machine ω τ :=
  { m with state := m.state.pad cells levels }

section Cycle

variable (c l : Nat) {s s' : State}

theorem cycle_pad_of_ok {r : Instruction × Option String} (h : cycle p s = .ok r s') :
    cycle p (s.pad c l) = .ok r (s'.pad c l) ∧ s.SameSizes s' := by
  obtain ⟨t, hpad, hstack, hdisplay, rfl⟩ := (raising_cycle c l p).of_ok ⟨rfl, rfl, rfl⟩ h
  exact ⟨hpad, hstack, hdisplay⟩

theorem cycle_pad_of_error {cause : Cause} (h : cycle p s = .error cause s')
    (hlimit : ¬cause.IsLimit) :
    cycle p (s.pad c l) = .error cause (s'.pad c l) ∧ s.SameSizes s' := by
  obtain ⟨t, hpad, hstack, hdisplay, rfl⟩ :=
    (raising_cycle c l p).of_error ⟨rfl, rfl, rfl⟩ h hlimit
  exact ⟨hpad, hstack, hdisplay⟩

end Cycle

/-- The step has not ended with a fault for want of room. -/
def HasRoom : Except Fault Status → Prop
  | .error fault => ¬fault.cause.IsLimit
  | .ok _ => True

instance : DecidablePred HasRoom
  | .error fault => inferInstanceAs (Decidable ¬fault.cause.IsLimit)
  | .ok _ => .isTrue trivial

/-- **One step.** With more room the step has the same result and the same effect, if it did not
want for room before. -/
theorem step_pad (c l : Nat) (h : HasRoom (step p m).1) :
    step p (m.pad c l) = ((step p m).1, (step p m).2.pad c l) ∧
      m.state.SameSizes (step p m).2.state := by
  have hpadded {s : State} (hrun : s.status = .running) : (s.pad c l).status = .running := hrun
  have hcase := stepCase p m
  generalize step p m = result at h hcase
  cases hcase with
  | stopped hstop => exact ⟨step_of_stopped hstop, rfl, rfl⟩
  | failed hrun hc =>
    obtain ⟨hpad, hsizes⟩ := cycle_pad_of_error c l hc h
    exact ⟨step_of_error (hpadded hrun) hpad, hsizes⟩
  | silent hrun hc =>
    obtain ⟨hpad, hsizes⟩ := cycle_pad_of_ok c l hc
    exact ⟨step_of_silent (hpadded hrun) hpad, hsizes⟩
  | written hrun hc hw =>
    obtain ⟨hpad, hsizes⟩ := cycle_pad_of_ok c l hc
    exact ⟨step_of_written (hpadded hrun) hpad hw, hsizes⟩
  | refused hrun hc hw =>
    obtain ⟨hpad, hsizes⟩ := cycle_pad_of_ok c l hc
    exact ⟨step_of_refused (hpadded hrun) hpad hw, hsizes⟩

theorem after_pad (c l : Nat) {n : Nat} (h : ∀ k < n, HasRoom (step p (after p m k)).1) :
    after p (m.pad c l) n = (after p m n).pad c l ∧ m.state.SameSizes (after p m n).state := by
  induction n with
  | zero => exact ⟨rfl, rfl, rfl⟩
  | succ n ih =>
    obtain ⟨hafter, hstack, hdisplay⟩ := ih fun k hk => h k (Nat.lt_succ_of_lt hk)
    obtain ⟨hstep, hstack', hdisplay'⟩ := step_pad c l (h n (Nat.lt_succ_self n))
    refine ⟨?_, hstack'.trans hstack, hdisplay'.trans hdisplay⟩
    show (step p (after p (m.pad c l) n)).2 = (step p (after p m n)).2.pad c l
    rw [hafter, hstep]

/-- **Larger limits.** As long as no step from the start wants for room, a machine with larger limits
takes the same steps with the same results. After each of them its state is that of the smaller
machine with zeros in the rest, and its sinks hold the same. -/
theorem steps_of_larger_limits (p : Program) (limits limits' : Limits) (m m' : Machine ω τ)
    (n : Nat) (hcells : limits.cells ≤ limits'.cells) (hlevels : limits.levels ≤ limits'.levels)
    (hm : m.state = State.entry limits) (hm' : m'.state = State.entry limits')
    (houtput : m'.output = m.output) (htrace : m'.trace = m.trace)
    (h : ∀ k < n, HasRoom (step p (after p m k)).1) :
    (∀ k < n, (step p (after p m' k)).1 = (step p (after p m k)).1) ∧
      ∀ k ≤ n, State.Enlarged limits limits' (after p m k).state (after p m' k).state ∧
        (after p m' k).output = (after p m k).output ∧
        (after p m' k).trace = (after p m k).trace := by
  have hpad : m' = m.pad (limits'.cells - limits.cells) (limits'.levels - limits.levels) := by
    obtain ⟨s, output, trace⟩ := m
    obtain ⟨s', output', trace'⟩ := m'
    obtain rfl : s = State.entry limits := hm
    obtain rfl : s' = State.entry limits' := hm'
    obtain rfl : output' = output := houtput
    obtain rfl : trace' = trace := htrace
    rw [pad, State.entry_pad hcells hlevels]
  have hafter (k : Nat) (hk : k ≤ n) := after_pad (limits'.cells - limits.cells)
    (limits'.levels - limits.levels) fun j hj => h j (Nat.lt_of_lt_of_le hj hk)
  constructor
  · intro k hk
    rw [hpad, (hafter k (Nat.le_of_lt hk)).1, (step_pad _ _ (h k hk)).1]
  · intro k hk
    obtain ⟨hstate, hstack, hdisplay⟩ := hafter k hk
    rw [hpad, hstate]
    rw [hm] at hstack hdisplay
    refine ⟨State.enlarged_pad hcells hlevels ?_ ?_, rfl, rfl⟩
    · exact hstack.trans Array.size_replicate
    · exact hdisplay.trans Array.size_replicate

/-- A quotient by a word above the top, which is zero. -/
def peek : Program :=
  .ofList [.value Opcode.lit.code 7, .address Opcode.lod.code 0 3, .operation Operation.div.code]

/-- The run of `peek` ends with the same fault on four cells and on nine. -/
theorem steps_of_larger_limits_peek :
    let limits : Limits := { stackSize := 4, maxLevel := 0 }
    let limits' : Limits := { stackSize := 9, maxLevel := 3 }
    let m : Machine Buffer Buffer := new limits Buffer.empty
    let m' : Machine Buffer Buffer := new limits' Buffer.empty
    (∀ k < 4, HasRoom (step peek (after peek m k)).1) ∧
      (step peek (after peek m' 2)).1 = .error ⟨2, .divisionByZero⟩ ∧
      State.Enlarged limits limits' (after peek m 4).state (after peek m' 4).state := by
  intro limits limits' m m'
  have hroom : ∀ k < 4, HasRoom (step peek (after peek m k)).1 := by decide +kernel
  obtain ⟨hsteps, hafter⟩ := steps_of_larger_limits peek limits limits' m m' 4 (by decide)
    (by decide) rfl rfl rfl rfl hroom
  have hfault : (step peek (after peek m 2)).1 = .error ⟨2, .divisionByZero⟩ := by decide +kernel
  exact ⟨hroom, (hsteps 2 (by decide)).trans hfault, (hafter 4 (Nat.le_refl 4)).1⟩

end Machine

end PCode
