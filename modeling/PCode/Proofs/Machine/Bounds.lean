import PCode.Proofs.Machine.Checked
import PCode.Proofs.Machine.Session
import PCode.Proofs.Machine.Simulation

/-!
# The machine keeps its bounds

`State.Within cells levels` says that the arrays of a state have their sizes, and that the top and
the program counter lie in their ranges. On such a state the machine that checks every access does
what the machine does: it never traps, and ends within the bounds again. The display and the return
positions are read back from cells that a program can write, so this is shown for every content of
the cells, and also where an instruction stops halfway.

* `Checked.agrees_execute`, `Checked.step_eq_ok`: instructions and steps never trap.
* `Machine.sound_step`: a step keeps the bounds, and what the status says of the program counter.
* `Machine.session_in_bounds`: so does every session, and no call after it traps.
-/

namespace PCode

/-- The arrays have their sizes, the top is in the stack or just above it, and the program counter
is a position that a cell can hold. -/
structure State.Within (cells levels : Nat) (s : State) : Prop where
  size_stack : s.stack.size = cells
  size_display : s.display.size = levels
  top_le : s.top ≤ cells
  pc_lt : s.pc < 2 ^ 63

namespace Checked

variable {α : Type} {cells levels : Nat} {s : State}

/-! ## Numbers -/

theorem unsigned_of_lt {n : Nat} (h : n < 2 ^ 64) : unsigned n = pure n := if_pos h

theorem signed_of_bounds {n : Int} (h : -2 ^ 63 ≤ n ∧ n < 2 ^ 63) : signed n = pure n := by
  have hfits : (int64? n).isSome := (int64?_isSome_iff n).mpr (by omega)
  exact if_pos hfits

theorem bind_of_ok {β : Type} {x : Checked α} {f : α → Checked β} {a : α} {s' : State}
    (h : x s = .ok a s') : (x >>= f) s = f a s' := by
  show EStateM.bind x f s = f a s'
  rw [EStateM.bind, h]

/-! ## Elementary actions -/

/-- A checked action does what the action does, without a trap, on a state within its bounds, and
stays within them. -/
def checking (cells levels : Nat) : Simulation Stop where
  related s t := s.Within cells levels ∧ t = s
  spared _ := False
  stop := .fault

/-- The state afterwards is within its bounds, and the result satisfies `P`. -/
def Kept (cells levels : Nat) (P : α → Prop) : EStateM.Result Cause State α → Prop
  | .ok a s => s.Within cells levels ∧ P a
  | .error _ s => s.Within cells levels

theorem agrees_lift {P : α → Prop} {x : Exec α}
    (h : ∀ s, s.Within cells levels → Kept cells levels P (x s)) :
    (checking cells levels).Agrees P x (lift x) := by
  rintro _ s ⟨hs, rfl⟩
  have hkept := h s hs
  unfold lift EStateM.adaptExcept
  cases hx : x s with
  | ok a s' =>
    rw [hx] at hkept
    exact ⟨⟨hkept.1, rfl⟩, rfl, hkept.2⟩
  | error c s' =>
    rw [hx] at hkept
    exact .inr ⟨rfl, hkept, rfl⟩

theorem agrees_level (level : Int) :
    (checking cells levels).Agrees (· < levels) (Exec.level level) (lift (Exec.level level)) := by
  refine agrees_lift fun s hs => ?_
  have hsize := hs.size_display
  unfold Exec.level
  split
  · exact ⟨hs, by omega⟩
  · exact hs

theorem agrees_cell (address : Int) :
    (checking cells levels).Agrees (· < cells) (Exec.cell address) (lift (Exec.cell address)) := by
  refine agrees_lift fun s hs => ?_
  have hsize := hs.size_stack
  unfold Exec.cell
  split
  · exact ⟨hs, by omega⟩
  · exact hs

theorem agrees_setTop (top : Int) :
    (checking cells levels).Agrees (fun _ => True) (Exec.setTop top) (lift (Exec.setTop top)) := by
  refine agrees_lift fun s hs => ?_
  have hsize := hs.size_stack
  unfold Exec.setTop
  split
  · exact hs
  · split
    · exact hs
    · exact ⟨⟨hsize, hs.size_display, by dsimp only; omega, hs.pc_lt⟩, trivial⟩

theorem agrees_jump {position : Int} (h : position < 2 ^ 63) :
    (checking cells levels).Agrees (fun _ => True) (Exec.jump position)
      (lift (Exec.jump position)) := by
  refine agrees_lift fun s hs => ?_
  unfold Exec.jump
  split
  · exact hs
  · exact ⟨⟨hs.size_stack, hs.size_display, hs.top_le, by dsimp only; omega⟩, trivial⟩

theorem agrees_read {index : Nat} (h : index < cells) :
    (checking cells levels).Agrees (fun _ => True) (Exec.read index) (read index) := by
  rintro _ s ⟨hs, rfl⟩
  have hindex : index < s.stack.size := by rw [hs.size_stack]; exact h
  unfold Exec.read read
  simp only [Array.getD_eq_getD_getElem?, Array.getElem?_eq_getElem hindex, Option.getD_some]
  exact ⟨⟨hs, rfl⟩, rfl, trivial⟩

theorem agrees_write {index : Nat} (h : index < cells) (word : Int64) :
    (checking cells levels).Agrees (fun _ => True) (Exec.write index word) (write index word) := by
  rintro _ s ⟨hs, rfl⟩
  have hindex : index < s.stack.size := by rw [hs.size_stack]; exact h
  unfold Exec.write write
  rw [dif_pos hindex, Array.setIfInBounds_def, dif_pos hindex]
  exact ⟨⟨⟨by simpa using hs.size_stack, hs.size_display, hs.top_le, hs.pc_lt⟩, rfl⟩, rfl, trivial⟩

theorem agrees_frame {level : Nat} (h : level < levels) :
    (checking cells levels).Agrees (fun _ => True) (Exec.frame level) (frame level) := by
  rintro _ s ⟨hs, rfl⟩
  have hlevel : level < s.display.size := by rw [hs.size_display]; exact h
  unfold Exec.frame frame
  simp only [Array.getD_eq_getD_getElem?, Array.getElem?_eq_getElem hlevel, Option.getD_some]
  exact ⟨⟨hs, rfl⟩, rfl, trivial⟩

theorem agrees_setFrame {level : Nat} (h : level < levels) (word : Int64) :
    (checking cells levels).Agrees (fun _ => True) (Exec.setFrame level word)
      (setFrame level word) := by
  rintro _ s ⟨hs, rfl⟩
  have hlevel : level < s.display.size := by rw [hs.size_display]; exact h
  unfold Exec.setFrame setFrame
  rw [dif_pos hlevel, Array.setIfInBounds_def, dif_pos hlevel]
  exact ⟨⟨⟨hs.size_stack, by simpa using hs.size_display, hs.top_le, hs.pc_lt⟩, rfl⟩, rfl, trivial⟩

theorem agrees_push (hcells : cells < 2 ^ 60) (word : Int64) :
    (checking cells levels).Agrees (fun _ => True) (Exec.push word) (push word) := by
  rintro _ s ⟨hs, rfl⟩
  have hsize := hs.size_stack
  have htop := hs.top_le
  unfold Exec.push push
  split
  next hroom =>
    rw [unsigned_of_lt (by omega), Array.setIfInBounds_def, dif_pos hroom]
    refine ⟨⟨⟨?_, hs.size_display, ?_, hs.pc_lt⟩, rfl⟩, rfl, trivial⟩
    · simpa using hsize
    · dsimp only
      omega
  next => exact .inr ⟨rfl, hs, rfl⟩

theorem agrees_pop : (checking cells levels).Agrees (fun _ => True) Exec.pop pop := by
  rintro _ s ⟨hs, rfl⟩
  have hle := hs.top_le
  unfold Exec.pop pop
  cases htop : s.top with
  | zero => exact .inr ⟨rfl, hs, rfl⟩
  | succ top =>
    have hlt : top < cells := by omega
    have hpopped : { s with top := top }.Within cells levels :=
      ⟨hs.size_stack, hs.size_display, Nat.le_of_lt hlt, hs.pc_lt⟩
    exact agrees_read hlt _ _ ⟨hpopped, rfl⟩

theorem agrees_address (level offset : Int16) :
    (checking cells levels).Agrees (fun a => -2 ^ 63 ≤ a ∧ a < 2 ^ 63) (Exec.address level offset)
      (address level offset) := by
  refine (agrees_level _).bind fun index hindex => (agrees_frame hindex).bind fun base _ => ?_
  refine Simulation.Holds.ite (fun hfits => ?_) fun _ => .throw _
  have hrange := (int64?_isSome_iff _).mp hfits
  exact .pure ⟨rfl, by omega⟩

/-- Outside of the bounds there is something to find. -/
example : pop { stack := #[], display := #[], top := 1 } =
    .error (.trap (.cell 0)) { stack := #[], display := #[] } := rfl

/-! ## Instructions -/

theorem agrees_unary (hcells : cells < 2 ^ 60) (f : Int64 → Int64) :
    (checking cells levels).Agrees (fun _ => True) (Exec.unary f) (unary f) :=
  agrees_pop.bind fun word _ => agrees_push hcells (f word)

theorem agrees_binary (hcells : cells < 2 ^ 60) (f : Int64 → Int64 → Int64) :
    (checking cells levels).Agrees (fun _ => True) (Exec.binary f) (binary f) :=
  agrees_pop.bind fun right _ => agrees_pop.bind fun left _ => agrees_push hcells (f left right)

theorem agrees_divide (hcells : cells < 2 ^ 60) :
    (checking cells levels).Agrees (fun _ => True) Exec.divide divide := by
  refine agrees_pop.bind fun divisor _ => agrees_pop.bind fun dividend _ => ?_
  exact Simulation.Holds.guard fun _ => agrees_push hcells (dividend / divisor)

theorem agrees_load (hcells : cells < 2 ^ 60) (level offset : Int16) :
    (checking cells levels).Agrees (fun _ => True) (Exec.load level offset)
      (load level offset) := by
  refine (agrees_address level offset).bind fun a _ => (agrees_cell a).bind fun index hindex => ?_
  exact (agrees_read hindex).bind fun word _ => agrees_push hcells word

theorem agrees_loadAddress (hcells : cells < 2 ^ 60) (level offset : Int16) :
    (checking cells levels).Agrees (fun _ => True) (Exec.loadAddress level offset)
      (loadAddress level offset) := by
  refine (agrees_address level offset).bind fun a ha => ?_
  rw [signed_of_bounds ha, pure_bind]
  exact agrees_push hcells (Int64.ofInt a)

theorem agrees_store (level offset : Int16) :
    (checking cells levels).Agrees (fun _ => True) (Exec.store level offset)
      (store level offset) := by
  refine agrees_pop.bind fun word _ => (agrees_address level offset).bind fun a _ => ?_
  exact (agrees_cell a).bind fun index hindex => agrees_write hindex word

theorem agrees_loadIndirect (hcells : cells < 2 ^ 60) :
    (checking cells levels).Agrees (fun _ => True) Exec.loadIndirect loadIndirect := by
  refine agrees_pop.bind fun a _ => (agrees_cell a.toInt).bind fun index hindex => ?_
  exact (agrees_read hindex).bind fun word _ => agrees_push hcells word

theorem agrees_storeIndirect :
    (checking cells levels).Agrees (fun _ => True) Exec.storeIndirect storeIndirect := by
  refine agrees_pop.bind fun word _ => agrees_pop.bind fun a _ => ?_
  exact (agrees_cell a.toInt).bind fun index hindex => agrees_write hindex word

theorem agrees_moveTop (hcells : cells < 2 ^ 60) (distance : Int32) :
    (checking cells levels).Agrees (fun _ => True) (Exec.moveTop distance.toInt)
      (moveTop distance.toInt) := by
  have hlow := distance.le_toInt
  have hhigh := distance.toInt_lt
  refine Simulation.Holds.get.bind ?_
  rintro _ s ⟨hs, rfl⟩
  have htop := hs.top_le
  rw [signed_of_bounds (by omega), pure_bind, signed_of_bounds (by omega), pure_bind]
  exact agrees_setTop _

theorem agrees_jumpIfZero (position : Int32) :
    (checking cells levels).Agrees (fun _ => True) (Exec.jumpIfZero position.toInt)
      (jumpIfZero position.toInt) := by
  have hhigh := position.toInt_lt
  refine agrees_pop.bind fun word _ => ?_
  exact Simulation.Holds.ite (fun _ => agrees_jump (by omega)) fun _ => .pure ⟨rfl, trivial⟩

theorem agrees_openFrame (hcells : cells < 2 ^ 60) (level position : Int16) :
    (checking cells levels).Agrees (fun _ => True) (Exec.openFrame level position)
      (openFrame level position) := by
  have hlow := level.le_toInt
  have hhigh := level.toInt_lt
  have hposition := position.toInt_lt
  unfold Exec.openFrame openFrame
  rw [signed_of_bounds (by omega), pure_bind]
  refine (agrees_level _).bind fun callee hcallee => Simulation.Holds.get.bind ?_
  rintro _ s ⟨hs, rfl⟩
  have htop := hs.top_le
  dsimp only
  rw [unsigned_of_lt (by omega), pure_bind]
  refine Simulation.Holds.get.bind ?_
  rintro _ s' ⟨hs', rfl⟩
  refine Simulation.Holds.guard fun hroom => ?_
  have hbase : s.top + 2 ≤ cells := by
    have := hs'.size_stack
    omega
  refine (agrees_frame hcallee).bind fun saved _ => ?_
  refine (agrees_write (by omega) saved).bind fun _ _ => ?_
  rw [unsigned_of_lt (by omega), pure_bind]
  refine Simulation.Holds.get.bind ?_
  rintro _ s'' ⟨hs'', rfl⟩
  have hpc := hs''.pc_lt
  rw [signed_of_bounds (by omega), pure_bind, Int64.ofInt_eq_ofNat]
  refine (agrees_write (by omega) _).bind fun _ _ => ?_
  rw [signed_of_bounds (by omega), pure_bind, Int64.ofInt_eq_ofNat]
  exact (agrees_setFrame hcallee _).bind fun _ _ => agrees_jump (by omega)

/-- To move the top to a cell of the stack needs no check. -/
theorem agrees_setTop_modify {index : Nat} (h : index < cells) :
    (checking cells levels).Agrees (fun _ => True) (Exec.setTop index)
      (modify ({ · with top := index })) := by
  rintro _ s ⟨hs, rfl⟩
  have hsize := hs.size_stack
  unfold Exec.setTop
  rw [if_neg (by omega), if_neg (by omega), Int.toNat_natCast]
  exact ⟨⟨⟨hsize, hs.size_display, Nat.le_of_lt h, hs.pc_lt⟩, rfl⟩, rfl, trivial⟩

theorem agrees_closeFrame (hcells : cells < 2 ^ 60) (level arguments : Int16) :
    (checking cells levels).Agrees (fun _ => True) (Exec.closeFrame level arguments)
      (closeFrame level arguments) := by
  have hlow := arguments.le_toInt
  have hhigh := arguments.toInt_lt
  refine (agrees_level _).bind fun callee hcallee => agrees_pop.bind fun word _ => ?_
  refine (agrees_frame hcallee).bind fun base _ => (agrees_cell _).bind fun index hindex => ?_
  rw [signed_of_bounds (by omega), pure_bind, signed_of_bounds (by omega), pure_bind]
  refine (agrees_cell _).bind fun next hnext => (agrees_read hnext).bind fun position _ => ?_
  have hposition := position.toInt_lt
  refine (agrees_setTop_modify hindex).bind fun _ _ => ?_
  refine (agrees_read hindex).bind fun saved _ => ?_
  refine (agrees_setFrame hcallee saved).bind fun _ _ => (agrees_jump hposition).bind fun _ _ => ?_
  rw [signed_of_bounds (by omega), pure_bind]
  exact (agrees_setTop _).bind fun _ _ => agrees_push hcells word

theorem agrees_perform (hcells : cells < 2 ^ 60) (op : Operation) :
    (checking cells levels).Agrees (fun _ => True) op.perform (perform op) := by
  cases op with
  | neg | odd => exact (agrees_unary hcells _).silent
  | add | sub | mul | eq | neq | ls | gr | lseq | greq =>
    exact (agrees_binary hcells _).silent
  | div => exact (agrees_divide hcells).silent
  | wrt => exact agrees_pop.bind fun _ _ => .pure ⟨rfl, trivial⟩
  | wrl => exact .pure ⟨rfl, trivial⟩
  | lid => exact (agrees_loadIndirect hcells).silent
  | sid => exact agrees_storeIndirect.silent

theorem execute_operation (code : UInt8) :
    execute (.operation code) =
      match Operation.ofCode? code with
      | some op => perform op
      | none => throw (.fault (.unknownOperation code)) := rfl

/-- **Instructions.** A checked instruction does what the instruction does, and never traps. -/
theorem agrees_execute (hcells : cells < 2 ^ 60) (i : Instruction) :
    (checking cells levels).Agrees (fun _ => True) i.execute (execute i) := by
  cases hop : i.opcode? with
  | none =>
    simp only [Instruction.execute, execute, hop]
    exact .throw _
  | some op =>
    have hcode : op.code = i.code := Opcode.ofCode?_eq_some_iff.mp hop
    cases i with
    | address code level offset =>
      obtain rfl : op.code = code := hcode
      cases op with
      | lod => exact (agrees_load hcells level offset).silent
      | lda => exact (agrees_loadAddress hcells level offset).silent
      | sto => exact (agrees_store level offset).silent
      | cal => exact (agrees_openFrame hcells level offset).silent
      | ret => exact (agrees_closeFrame hcells level offset).silent
      | _ => exact .throw _
    | value code immediate =>
      obtain rfl : op.code = code := hcode
      have himmediate := immediate.toInt_lt
      cases op with
      | lit => exact (agrees_push hcells _).silent
      | ict => exact (agrees_moveTop hcells immediate).silent
      | jmp => exact (agrees_jump (by omega)).silent
      | jpc => exact (agrees_jumpIfZero immediate).silent
      | _ => exact .throw _
    | operation code =>
      rw [Instruction.execute_operation, execute_operation]
      cases Operation.ofCode? code with
      | some op => exact agrees_perform hcells op
      | none => exact .throw _

/-! ## The machine -/

theorem agrees_fetch {p : Program} (hp : p.size < 2 ^ 63) :
    (checking cells levels).Agrees (fun _ => True) (Exec.fetch p.get?) (fetch p.get?) := by
  rintro _ s ⟨hs, rfl⟩
  have hpc := hs.pc_lt
  unfold Exec.fetch fetch
  cases hi : p.get? s.pc with
  | none =>
    dsimp only
    rw [signed_of_bounds (by omega)]
    exact .inr ⟨rfl, ⟨hs.size_stack, hs.size_display, hs.top_le, hpc⟩, rfl⟩
  | some i =>
    obtain ⟨hlt, -⟩ := Array.getElem?_eq_some_iff.mp hi
    have hsize : s.pc < p.size := hlt
    dsimp only
    rw [unsigned_of_lt (by omega)]
    exact ⟨⟨⟨hs.size_stack, hs.size_display, hs.top_le, by dsimp only; omega⟩, rfl⟩, rfl, trivial⟩

theorem agrees_cycle {p : Program} (hp : p.size < 2 ^ 63) (hcells : cells < 2 ^ 60) :
    (checking cells levels).Agrees (fun _ => True) (Machine.cycle p) (cycle p) := by
  refine (agrees_fetch hp).bind fun i _ => (agrees_execute hcells i).bind fun out _ => ?_
  exact .pure ⟨rfl, trivial⟩

section Step

variable {ω τ : Type} [Sink ω] [Sink τ] {p : Program} {m : Machine ω τ}

theorem cycle_of_ok (hp : p.size < 2 ^ 63) (hcells : cells < 2 ^ 60)
    (hs : s.Within cells levels) {r : Instruction × Option String} {s' : State}
    (h : Machine.cycle p s = .ok r s') : cycle p s = .ok r s' ∧ s'.Within cells levels := by
  obtain ⟨t, hchecked, hs', rfl⟩ := (agrees_cycle hp hcells).of_ok ⟨hs, rfl⟩ h
  exact ⟨hchecked, hs'⟩

theorem cycle_of_error (hp : p.size < 2 ^ 63) (hcells : cells < 2 ^ 60)
    (hs : s.Within cells levels) {c : Cause} {s' : State} (h : Machine.cycle p s = .error c s') :
    cycle p s = .error (.fault c) s' ∧ s'.Within cells levels := by
  obtain ⟨t, hchecked, hs', rfl⟩ := (agrees_cycle hp hcells).of_error ⟨hs, rfl⟩ h id
  exact ⟨hchecked, hs'⟩

/-- **Steps.** A checked step does what the step does, never traps, and stays within the bounds. -/
theorem step_eq_ok (hp : p.size < 2 ^ 63) (hcells : cells < 2 ^ 60)
    (hm : m.state.Within cells levels) :
    step p m = .ok (m.step p) ∧ (m.step p).2.state.Within cells levels := by
  have hset (status : Status) {s : State} (hs : s.Within cells levels) :
      { s with status := status }.Within cells levels :=
    ⟨hs.size_stack, hs.size_display, hs.top_le, hs.pc_lt⟩
  have hcase := Machine.stepCase p m
  generalize m.step p = result at hcase
  unfold step
  cases hcase with
  | stopped hstop =>
    rw [if_neg hstop]
    exact ⟨rfl, hm⟩
  | failed hrun hc =>
    obtain ⟨hchecked, hs'⟩ := cycle_of_error hp hcells hm hc
    simp only [hrun, ↓reduceIte, hchecked]
    exact ⟨trivial, hset _ hs'⟩
  | silent hrun hc =>
    obtain ⟨hchecked, hs'⟩ := cycle_of_ok hp hcells hm hc
    simp only [hrun, ↓reduceIte, hchecked]
    exact ⟨trivial, hset _ hs'⟩
  | written hrun hc hw | refused hrun hc hw =>
    obtain ⟨hchecked, hs'⟩ := cycle_of_ok hp hcells hm hc
    simp only [hrun, ↓reduceIte, hchecked, hw]
    exact ⟨trivial, hset _ hs'⟩

end Step

/-- The header of the outermost frame is zero, which all cells are after a reset. -/
theorem reset_eq_ok (hs : s.Within cells levels) (hcells : 2 ≤ cells) (hlevels : 1 ≤ levels) :
    reset s = .ok () s.reset := by
  have hlevel : 0 < s.display.size := by rw [hs.size_display]; omega
  have hframe : frame 0 s.reset = .ok 0 s.reset := by simp [frame, State.reset, hlevel]
  have hwrite {index : Nat} (h : index < cells) : write index 0 s.reset = .ok () s.reset := by
    have hindex : index < s.stack.size := by rw [hs.size_stack]; exact h
    simp [write, State.reset, hindex]
  have hget : (get : Checked State) s.reset = .ok s.reset s.reset := rfl
  have hsigned : signed (s.reset.pc : Int) s.reset = .ok 0 s.reset := by
    show signed 0 s.reset = .ok 0 s.reset
    rw [signed_of_bounds (by decide)]
    rfl
  unfold reset
  rw [bind_of_ok hframe, bind_of_ok (hwrite (by omega)), bind_of_ok hget, bind_of_ok hsigned]
  exact hwrite (by omega)

theorem live_eq_ok (hs : s.Within cells levels) : live s = .ok s.live s := by
  have htop : s.top ≤ s.stack.size := by
    rw [hs.size_stack]
    exact hs.top_le
  exact if_pos htop

end Checked

/-! ## Sessions -/

/-- What holds of every state of a machine. A machine that has halted is back at position 0, where
a machine that is running stands only before its first step. -/
structure State.Sound (limits : Limits) (s : State) : Prop where
  within : s.Within limits.cells limits.levels
  pc_of_halted : s.status = .halted → s.pc = 0
  pc_of_running : s.status = .running → (s.pc = 0 ↔ s.steps = 0)

namespace State

theorem sound_entry (limits : Limits) : (entry limits).Sound limits where
  within := ⟨Array.size_replicate, Array.size_replicate, Nat.zero_le _, Nat.two_pow_pos 63⟩
  pc_of_halted _ := rfl
  pc_of_running _ := Iff.rfl

theorem reset_eq_entry {limits : Limits} {s : State} (h : s.Within limits.cells limits.levels) :
    s.reset = entry limits := by
  rw [reset, h.size_stack, h.size_display, entry]

end State

namespace Machine

variable {ω τ : Type} [Sink ω] [Sink τ] {p : Program} {limits : Limits}

theorem sound_step {m : Machine ω τ} (hp : p.size < 2 ^ 63) (hcells : limits.cells < 2 ^ 60)
    (hm : m.state.Sound limits) : (step p m).2.state.Sound limits := by
  have hwithin := (Checked.step_eq_ok hp hcells hm.within).2
  rcases step_cases p m with ⟨-, -, hstep⟩ | ⟨-, -, hfaulted⟩ | ⟨-, i, out, s, -, -, he, hstep⟩
  · rw [hstep]
    exact hm
  · exact ⟨hwithin, by simp [hfaulted], by simp [hfaulted]⟩
  · rw [hstep] at hwithin ⊢
    have hsteps : s.steps = m.state.steps + 1 := he.steps_eq
    refine ⟨hwithin, State.settled_halted_iff.mp, fun hrunning => ?_⟩
    have hpc : s.pc ≠ 0 := State.settled_running_iff.mp hrunning
    exact ⟨fun h => absurd h hpc, fun h => absurd (hsteps.symm.trans h) (Nat.succ_ne_zero _)⟩

/-- **Bounds.** After every session on a new machine the arrays have the sizes that the limits ask
for, the top and the program counter lie in their ranges, and the status fits the program counter.
Whatever is called then uses no index outside the stack and the display, and computes no number that
its word cannot hold. -/
theorem session_in_bounds (p : Program) (limits : Limits) (output : ω) (calls : List (Call τ))
    (replies : List Reply) (m : Machine ω τ) (hp : p.size < 2 ^ 63)
    (hlimits : limits.stackSize < 2 ^ 60)
    (h : session p (new limits output) calls = some (replies, m)) :
    m.state.stack.size = max limits.stackSize 2 ∧ m.state.display.size = max limits.maxLevel 1 ∧
      m.state.top ≤ m.state.stack.size ∧ m.state.pc < 2 ^ 63 ∧
      (m.state.status = .halted → m.state.pc = 0) ∧
      (m.state.status = .running → (m.state.pc = 0 ↔ m.state.steps = 0)) ∧
      Checked.step p m = .ok (step p m) ∧ Checked.reset m.state = .ok () m.state.reset ∧
      Checked.live m.state = .ok m.state.live m.state := by
  have hcells : limits.cells < 2 ^ 60 := by
    unfold Limits.cells
    omega
  have hreset (s : State) (hs : s.Sound limits) : s.reset.Sound limits := by
    rw [State.reset_eq_entry hs.within]
    exact State.sound_entry limits
  have hm : m.state.Sound limits := state_of_session (fun _ => sound_step hp hcells) hreset
    (State.sound_entry limits) h
  obtain ⟨hsize, hlevels, htop, hpc⟩ := hm.within
  refine ⟨hsize, hlevels, hsize ▸ htop, hpc, hm.pc_of_halted, hm.pc_of_running, ?_, ?_, ?_⟩
  · exact (Checked.step_eq_ok hp hcells hm.within).1
  · exact Checked.reset_eq_ok hm.within (Nat.le_max_right _ _) (Nat.le_max_right _ _)
  · exact Checked.live_eq_ok hm.within

/-- A procedure that does nothing but call itself. -/
def descent : Program :=
  .ofList [.value Opcode.jmp.code 1, .value Opcode.ict.code 2, .address Opcode.cal.code 0 1]

/-- A session with `descent` on seven cells. Its run ends with a fault in a frame of the third call,
where the step after it finds the machine. -/
theorem session_in_bounds_descent :
    let m : Machine Buffer Buffer := new { stackSize := 7 } Buffer.empty
    ∃ replies m', session descent m [.step, .reset, .trace Buffer.empty, .run 100, .step] =
        some (replies, m') ∧
      m'.state.status = .faulted ∧ m'.state.stack.size = 7 ∧ m'.state.top ≤ m'.state.stack.size ∧
      Checked.step descent m' = .ok (step descent m') := by
  intro m
  have hfaulted : (session descent m [.step, .reset, .trace Buffer.empty, .run 100, .step]).map
      (·.2.state.status) = some .faulted := by decide +kernel
  obtain ⟨⟨replies, m'⟩, hsession, hstatus⟩ := Option.map_eq_some_iff.mp hfaulted
  obtain ⟨hsize, -, htop, -, -, -, hstep, -, -⟩ := session_in_bounds descent { stackSize := 7 }
    Buffer.empty _ replies m' (by decide) (by decide) hsession
  exact ⟨replies, m', hsession, hstatus, hsize, htop, hstep⟩

end Machine

end PCode
