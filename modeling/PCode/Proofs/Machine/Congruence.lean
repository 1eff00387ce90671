import PCode.Proofs.Machine.Effect
import PCode.Proofs.Machine.Simulation

/-!
# Simulations that every instruction keeps

Instructions are made of a few elementary actions. Where a simulation compares an action with
itself, on states that differ in some way, it is therefore enough to look at these: `Congruent` says
that each of them keeps the simulation, and then every instruction does. A simulation may allow only
some words of the display to change; then it is kept by the instructions that change no others.

* `Instruction.ChangesFrame`: the instruction is one that can change the display word of a level.
* `Congruent.execute`: an instruction whose code and operands belong together keeps the simulation.
* `Instruction.execute_of_not_wellShaped`: any other instruction stops at once.
-/

namespace PCode

/-- The instruction is not one: its code or its operands are refused before it does anything. -/
def Cause.Rejects : Cause → Prop
  | unknownInstruction _ | malformedInstruction _ => True
  | _ => False

namespace Instruction

/-- The instruction is a return from a level, or a call that opens a frame there. -/
def ChangesFrame (k : Nat) : Instruction → Prop
  | address code level _ =>
    code = Opcode.ret.code ∧ level.toInt = k ∨ code = Opcode.cal.code ∧ level.toInt + 1 = k
  | _ => False

instance (k : Nat) : DecidablePred (ChangesFrame k)
  | address _ _ _ => inferInstanceAs (Decidable (_ ∨ _))
  | value _ _ => isFalse id
  | operation _ => isFalse id

end Instruction

/-- The action, compared with itself, ends alike, with a result that satisfies `P`. -/
abbrev Simulation.Keeps {α : Type} (sim : Simulation Cause) (P : α → Prop) (x : Exec α) : Prop :=
  sim.Agrees P x x

/-- The elementary actions keep the simulation. `Cell` and `Level` tell the indices of the stack and
of the display that are used, and `Frame` the indices of the display whose words may change. -/
structure Congruent (sim : Simulation Cause) (Cell Level Frame : Nat → Prop) : Prop where
  top_eq {s t : State} : sim.related s t → t.top = s.top
  pc_eq {s t : State} : sim.related s t → t.pc = s.pc
  room {s t : State} {n : Nat} : sim.related s t → n ≤ s.stack.size →
    n ≤ t.stack.size ∧ ∀ index < n, Cell index
  overflow {s t : State} : sim.related s t →
    sim.spared .stackOverflow ∨ t.stack.size = s.stack.size
  stops (c : Cause) : ¬c.Rejects → sim.spared c ∨ sim.stop c = c
  push (word : Int64) : sim.Keeps (fun _ => True) (Exec.push word)
  pop : sim.Keeps (fun _ => True) Exec.pop
  setTop (top : Int) : sim.Keeps (fun _ => True) (Exec.setTop top)
  cell (address : Int) : sim.Keeps Cell (Exec.cell address)
  read {index : Nat} : Cell index → sim.Keeps (fun _ => True) (Exec.read index)
  write {index : Nat} : Cell index → ∀ word, sim.Keeps (fun _ => True) (Exec.write index word)
  level (level : Int) : sim.Keeps Level (Exec.level level)
  frame {level : Nat} : Level level → sim.Keeps (fun _ => True) (Exec.frame level)
  setFrame {level : Nat} : Level level → Frame level →
    ∀ word, sim.Keeps (fun _ => True) (Exec.setFrame level word)
  jump (position : Int) : sim.Keeps (fun _ => True) (Exec.jump position)

namespace Congruent

variable {α β : Type} {sim : Simulation Cause} {Cell Level Frame : Nat → Prop}

/-! ## Stopping -/

theorem throw (h : Congruent sim Cell Level Frame) {Q : α → β → Prop} {c : Cause}
    (hc : ¬c.Rejects) :
    sim.Holds Q (MonadExcept.throw c : Exec α) (MonadExcept.throw c : Exec β) := by
  intro s t hst
  rcases h.stops c hc with hspared | hstop
  · exact Simulation.matches_of_spared hspared _
  · exact .inr ⟨hstop.symm, hst⟩

/-- Nothing follows a stop, so what would follow need not be compared. -/
theorem stop (h : Congruent sim Cell Level Frame) {γ δ : Type} {Q : α → β → Prop} {c : Cause}
    {f : γ → Exec α} {g : δ → Exec β} (hc : ¬c.Rejects) :
    sim.Holds Q (MonadExcept.throw c >>= f) (MonadExcept.throw c >>= g) :=
  Simulation.Holds.bind (P := fun _ _ => False) (h.throw hc) fun _ _ hfalse => hfalse.elim

theorem guard (h : Congruent sim Cell Level Frame) {c : Prop} [Decidable c] {P : α → Prop}
    {cause : Cause} {f : PUnit → Exec α} (hc : ¬cause.Rejects) (hf : ¬c → sim.Keeps P (f ⟨⟩)) :
    sim.Keeps P (if c then MonadExcept.throw cause >>= f else f ⟨⟩) :=
  Simulation.Holds.ite (fun _ => h.stop hc) hf

/-! ## Instructions -/

section Parts

variable (h : Congruent sim Cell Level Frame)

include h

theorem address (level offset : Int16) :
    sim.Keeps (fun _ => True) (Exec.address level offset) := by
  refine (h.level _).bind fun index hindex => (h.frame hindex).bind fun base _ => ?_
  exact Simulation.Holds.ite (fun _ => .pure ⟨rfl, trivial⟩) fun _ => h.throw id

theorem unary (f : Int64 → Int64) : sim.Keeps (fun _ => True) (Exec.unary f) :=
  h.pop.bind fun word _ => h.push (f word)

theorem binary (f : Int64 → Int64 → Int64) : sim.Keeps (fun _ => True) (Exec.binary f) :=
  h.pop.bind fun right _ => h.pop.bind fun left _ => h.push (f left right)

theorem divide : sim.Keeps (fun _ => True) Exec.divide := by
  refine h.pop.bind fun divisor _ => h.pop.bind fun dividend _ => ?_
  exact h.guard id fun _ => h.push (dividend / divisor)

theorem load (level offset : Int16) : sim.Keeps (fun _ => True) (Exec.load level offset) := by
  refine (h.address level offset).bind fun a _ => (h.cell a).bind fun index hindex => ?_
  exact (h.read hindex).bind fun word _ => h.push word

theorem loadAddress (level offset : Int16) :
    sim.Keeps (fun _ => True) (Exec.loadAddress level offset) :=
  (h.address level offset).bind fun a _ => h.push (Int64.ofInt a)

theorem store (level offset : Int16) : sim.Keeps (fun _ => True) (Exec.store level offset) := by
  refine h.pop.bind fun word _ => (h.address level offset).bind fun a _ => ?_
  exact (h.cell a).bind fun index hindex => h.write hindex word

theorem loadIndirect : sim.Keeps (fun _ => True) Exec.loadIndirect := by
  refine h.pop.bind fun a _ => (h.cell a.toInt).bind fun index hindex => ?_
  exact (h.read hindex).bind fun word _ => h.push word

theorem storeIndirect : sim.Keeps (fun _ => True) Exec.storeIndirect := by
  refine h.pop.bind fun word _ => h.pop.bind fun a _ => ?_
  exact (h.cell a.toInt).bind fun index hindex => h.write hindex word

theorem moveTop (distance : Int) : sim.Keeps (fun _ => True) (Exec.moveTop distance) := by
  refine Simulation.Holds.get.bind fun s t hst => ?_
  rw [h.top_eq hst]
  exact h.setTop _

theorem jumpIfZero (position : Int) : sim.Keeps (fun _ => True) (Exec.jumpIfZero position) := by
  refine h.pop.bind fun word _ => ?_
  exact Simulation.Holds.ite (fun _ => h.jump position) fun _ => .pure ⟨rfl, trivial⟩

/-- The index that a level has in the display is the level. -/
theorem level_index (level : Int) :
    sim.Keeps (fun index => Level index ∧ (index : Int) = level) (Exec.level level) := by
  refine (h.level level).and fun s index s' hok => ?_
  obtain ⟨⟨hlow, -⟩, rfl, -⟩ := Exec.level_ok_iff.mp hok
  exact Int.toNat_of_nonneg hlow

theorem openFrame {level : Int16} (hframe : ∀ k : Nat, level.toInt + 1 = k → Frame k)
    (position : Int16) : sim.Keeps (fun _ => True) (Exec.openFrame level position) := by
  refine (h.level_index _).bind fun callee ⟨hcallee, hlevel⟩ => ?_
  refine Simulation.Holds.get.bind fun s t hst => ?_
  dsimp only
  rw [h.top_eq hst]
  refine Simulation.Holds.get.bind fun s' t' hst' => ?_
  by_cases hfull : s'.stack.size < s.top + 2
  · rw [if_pos hfull]
    rcases h.overflow hst' with hspared | hsize
    · exact fun _ _ _ => Simulation.matches_of_spared hspared _
    · rw [if_pos (hsize.symm ▸ hfull)]
      exact h.stop id
  · obtain ⟨hroom, hcells⟩ := h.room hst' (Nat.not_lt.mp hfull)
    rw [if_neg hfull, if_neg (Nat.not_lt.mpr hroom)]
    refine (h.frame hcallee).bind fun saved _ => ?_
    refine (h.write (hcells _ (by omega)) saved).bind fun _ _ => ?_
    refine Simulation.Holds.get.bind fun s'' t'' hst'' => ?_
    rw [h.pc_eq hst'']
    refine (h.write (hcells _ (by omega)) _).bind fun _ _ => ?_
    exact (h.setFrame hcallee (hframe callee hlevel.symm) _).bind fun _ _ => h.jump _

theorem closeFrame {level : Int16} (hframe : ∀ k : Nat, level.toInt = k → Frame k)
    (arguments : Int16) : sim.Keeps (fun _ => True) (Exec.closeFrame level arguments) := by
  refine (h.level_index _).bind fun callee ⟨hcallee, hlevel⟩ => h.pop.bind fun word _ => ?_
  refine (h.frame hcallee).bind fun base _ => (h.cell _).bind fun index hindex => ?_
  refine (h.cell _).bind fun next hnext => (h.read hnext).bind fun position _ => ?_
  refine (h.setTop _).bind fun _ _ => (h.read hindex).bind fun saved _ => ?_
  refine (h.setFrame hcallee (hframe callee hlevel.symm) saved).bind fun _ _ => ?_
  refine (h.jump _).bind fun _ _ => ?_
  exact (h.setTop _).bind fun _ _ => h.push word

theorem perform (op : Operation) : sim.Keeps (fun _ => True) op.perform := by
  cases op with
  | neg | odd => exact (h.unary _).silent
  | add | sub | mul | eq | neq | ls | gr | lseq | greq => exact (h.binary _).silent
  | div => exact h.divide.silent
  | wrt => exact h.pop.bind fun _ _ => .pure ⟨rfl, trivial⟩
  | wrl => exact .pure ⟨rfl, trivial⟩
  | lid => exact h.loadIndirect.silent
  | sid => exact h.storeIndirect.silent

/-- **Instructions.** Where the code and the operands belong together, the instruction keeps what
the elementary actions keep, if it changes only display words that may change. -/
theorem execute {i : Instruction} (hi : i.WellShaped) (hframe : ∀ k, i.ChangesFrame k → Frame k) :
    sim.Keeps (fun _ => True) i.execute := by
  obtain ⟨op, hop, hshape⟩ := hi
  have hcode : op.code = i.code := Opcode.ofCode?_eq_some_iff.mp hop
  cases i with
  | address code level offset =>
    obtain rfl : op.code = code := hcode
    cases op with
    | lod => exact (h.load level offset).silent
    | lda => exact (h.loadAddress level offset).silent
    | sto => exact (h.store level offset).silent
    | cal => exact (h.openFrame (fun k hk => hframe k (.inr ⟨rfl, hk⟩)) offset).silent
    | ret => exact (h.closeFrame (fun k hk => hframe k (.inl ⟨rfl, hk⟩)) offset).silent
    | _ => cases hshape
  | value code immediate =>
    obtain rfl : op.code = code := hcode
    cases op with
    | lit => exact (h.push _).silent
    | ict => exact (h.moveTop _).silent
    | jmp => exact (h.jump _).silent
    | jpc => exact (h.jumpIfZero _).silent
    | _ => cases hshape
  | operation code =>
    rw [Instruction.execute_operation]
    cases Operation.ofCode? code with
    | some op => exact h.perform op
    | none => exact h.throw id

end Parts

end Congruent

namespace Instruction

variable {i : Instruction}

theorem execute_of_unknown (h : i.opcode? = none) :
    i.execute = throw (.unknownInstruction i.code) := by
  simp only [execute, h]

theorem execute_of_mismatch {op : Opcode} (hop : i.opcode? = some op) (hshape : op.shape ≠ i.shape) :
    i.execute = throw (.malformedInstruction i.code) := by
  have hcode : op.code = i.code := Opcode.ofCode?_eq_some_iff.mp hop
  cases i with
  | address code level offset =>
    obtain rfl : op.code = code := hcode
    cases op <;> first | rfl | exact absurd rfl hshape
  | value code immediate =>
    obtain rfl : op.code = code := hcode
    cases op <;> first | rfl | exact absurd rfl hshape
  | operation code =>
    obtain rfl : op = .opr := Option.some.inj (hop.symm.trans rfl)
    exact absurd rfl hshape

/-- An instruction whose code and operands do not belong together is refused in every state. -/
theorem execute_of_not_wellShaped (h : ¬i.WellShaped) :
    ∃ c, c.Rejects ∧ i.execute = throw c := by
  cases hop : i.opcode? with
  | none => exact ⟨.unknownInstruction i.code, trivial, execute_of_unknown hop⟩
  | some op =>
    have hshape : op.shape ≠ i.shape := fun hshape => h ⟨op, hop, hshape⟩
    exact ⟨.malformedInstruction i.code, trivial, execute_of_mismatch hop hshape⟩

end Instruction

end PCode
