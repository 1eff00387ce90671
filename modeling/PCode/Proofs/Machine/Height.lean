import Mathlib.Algebra.Ring.Int.Defs
import PCode.Proofs.Machine.Frames
import PCode.Proofs.Machine.Trace

/-!
# The height of the stack

How far an instruction moves the top of the stack can be told from the instruction alone. The state
decides whether it succeeds, but not how far it moves the top then. Only a return is different: it
leaves the top where the display says, whatever was on the stack.

* `Operation.heightChange`, `Instruction.heightChange`: how far the top moves.
* `height_step`, `height_of_return`: what one step does to the top.
* `height_is_static_sum`: over any number of steps without a return these distances add up.
-/

namespace PCode

/-! ## Distances -/

namespace Operation

/-- How far the operation moves the top. -/
def heightChange : Operation → Int
  | neg | odd | lid | wrl => 0
  | add | sub | mul | div | eq | neq | ls | gr | lseq | greq | wrt => -1
  | sid => -2

variable {op : Operation} {s s' : State} {out : Option String}

theorem heightChange_of_unary? {f : Int64 → Int64} (hf : op.unary? = some f) :
    op.heightChange = 0 := by
  cases op <;> first | rfl | cases hf

theorem heightChange_of_binary? {f : Int64 → Int64 → Int64} (hf : op.binary? = some f) :
    op.heightChange = -1 := by
  cases op <;> first | rfl | cases hf

theorem Effect.top_eq (h : op.Effect s out s') : (s'.top : Int) = s.top + op.heightChange := by
  cases h with
  | unary hf live room =>
    rw [heightChange_of_unary? hf]
    exact (Int.add_zero _).symm
  | binary hf live room =>
    rw [heightChange_of_binary? hf]
    dsimp only
    omega
  | _ =>
    simp only [heightChange]
    omega

end Operation

namespace Instruction

/-- How far the instruction moves the top. For a return this is not known from the instruction. -/
def heightChange (i : Instruction) : Int :=
  match i.opcode?, i with
  | some .lit, value _ _ => 1
  | some .lod, address _ _ _ => 1
  | some .lda, address _ _ _ => 1
  | some .sto, address _ _ _ => -1
  | some .cal, address _ _ _ => 0
  | some .ict, value _ distance => distance.toInt
  | some .jmp, value _ _ => 0
  | some .jpc, value _ _ => -1
  | some .opr, operation code => (Operation.ofCode? code).elim 0 Operation.heightChange
  | _, _ => 0

variable {i : Instruction} {s s' : State} {out : Option String}

theorem heightChange_operation (op : Operation) :
    (operation op.code).heightChange = op.heightChange := by
  show (Operation.ofCode? op.code).elim 0 Operation.heightChange = op.heightChange
  rw [Operation.ofCode?_code]
  rfl

theorem Effect.top_eq (h : i.Effect s out s') (hret : i.opcode? ≠ some .ret) :
    (s'.top : Int) = s.top + i.heightChange := by
  cases h with
  | lit | lod | lda => rfl
  | sto live | jpcZero live | jpcNonzero live =>
    show ((s.top - 1 : Nat) : Int) = s.top + -1
    omega
  | cal | jmp => exact (Int.add_zero _).symm
  | ret => exact absurd rfl hret
  | ict live room => exact Int.toNat_of_nonneg live
  | opr h =>
    rw [heightChange_operation]
    exact h.top_eq

/-- A return leaves the top just above its result, and the display tells where that is. -/
theorem Effect.top_of_return {level arguments : Int16}
    (h : (address Opcode.ret.code level arguments).Effect s out s') :
    s.HasLevel level.toInt ∧ (s'.top : Int) = s.base level - arguments.toInt + 1 := by
  cases h with
  | ret hl live header header' target room =>
    refine ⟨hl, ?_⟩
    have hcell : 0 ≤ s.base level - arguments.toInt := room.1
    show (((s.base level - arguments.toInt).toNat + 1 : Nat) : Int) = _
    omega

end Instruction

/-! ## Runs -/

namespace Machine

variable {ω τ : Type} [Sink ω] [Sink τ] {p : Program} {m : Machine ω τ} {i : Instruction}

theorem height_step (h : executed? p m = some i) (hret : i.opcode? ≠ some .ret) :
    ((step p m).2.state.top : Int) = m.state.top + i.heightChange := by
  obtain ⟨-, out, s, he, hstate⟩ := effect_of_executed? h
  rw [hstate]
  exact he.top_eq hret

theorem height_of_return {level arguments : Int16}
    (h : executed? p m = some (.address Opcode.ret.code level arguments)) :
    ∃ base, 0 ≤ level.toInt ∧ m.state.display[level.toInt.toNat]? = some base ∧
      ((step p m).2.state.top : Int) = base.toInt - arguments.toInt + 1 := by
  obtain ⟨-, out, s, he, hstate⟩ := effect_of_executed? h
  obtain ⟨hlevel, htop⟩ := he.top_of_return
  refine ⟨m.state.frame level.toInt, hlevel.1, State.getElem?_display hlevel, ?_⟩
  rw [hstate]
  exact htop

/-- The distances of the instructions that the first steps have executed with success, added up. -/
def heightSum (p : Program) (m : Machine ω τ) (n : Nat) : Int :=
  ((journal p m n).map fun (i, _) => i.heightChange).sum

theorem heightSum_succ {n : Nat} (h : executed? p (after p m n) = some i) :
    heightSum p m (n + 1) = heightSum p m n + i.heightChange := by
  unfold heightSum
  rw [journal, h]
  simp

/-- **The height of the stack.** Take any machine and any number of steps that all succeed. If none
of them is a return, the top is where it was at the start, moved by what the executed instructions
are worth. If there are returns, then each of them leaves the top just above its result, `arguments`
cells below the frame that the display has for its level. -/
theorem height_is_static_sum (p : Program) (m : Machine ω τ) (n : Nat)
    (hok : ∀ k < n, (executed? p (after p m k)).isSome) :
    ((∀ k < n, ∀ i ∈ executed? p (after p m k), i.opcode? ≠ some .ret) →
      ((after p m n).state.top : Int) = m.state.top + heightSum p m n) ∧
    ∀ k < n, ∀ level arguments,
      executed? p (after p m k) = some (.address Opcode.ret.code level arguments) →
      ∃ base, 0 ≤ level.toInt ∧ (after p m k).state.display[level.toInt.toNat]? = some base ∧
        ((after p m (k + 1)).state.top : Int) = base.toInt - arguments.toInt + 1 := by
  refine ⟨fun hret => ?_, fun k _ level arguments hx => height_of_return hx⟩
  induction n with
  | zero => exact (Int.add_zero _).symm
  | succ n ih =>
    have hbefore := ih (fun k hk => hok k (by omega)) fun k hk => hret k (by omega)
    obtain ⟨i, hi⟩ := Option.isSome_iff_exists.mp (hok n (by omega))
    show ((step p (after p m n)).2.state.top : Int) = _
    rw [height_step hi (hret n (by omega) i hi), hbefore, heightSum_succ hi, Int.add_assoc]

/-- The run of `recursion` through two calls and two jumps, up to its first return, and the return
from the frame at cell 6. -/
theorem height_is_static_sum_recursion :
    let m : Machine Buffer Buffer := new { stackSize := 16 } Buffer.empty
    (∀ k < 14, (executed? recursion (after recursion m k)).isSome) ∧
      heightSum recursion m 13 = 9 ∧ (after recursion m 13).state.top = 9 ∧
      executed? recursion (after recursion m 13) = some (.address Opcode.ret.code 1 1) ∧
      (after recursion m 13).state.display[1]? = some 6 ∧
      (after recursion m 14).state.top = 6 := by
  intro m
  have hok : ∀ k < 14, (executed? recursion (after recursion m k)).isSome := by decide +kernel
  have hret : ∀ k < 13, ∀ i ∈ executed? recursion (after recursion m k),
      i.opcode? ≠ some .ret := by decide +kernel
  have hsum : heightSum recursion m 13 = 9 := by decide +kernel
  have hlast : executed? recursion (after recursion m 13) =
      some (.address Opcode.ret.code 1 1) := by decide +kernel
  have hframe : (after recursion m 13).state.display[1]? = some 6 := by decide +kernel
  have htop := (height_is_static_sum recursion m 13 fun k hk => hok k (by omega)).1 hret
  obtain ⟨base, -, hbase, hreturn⟩ :=
    (height_is_static_sum recursion m 14 hok).2 13 (by decide) 1 1 hlast
  obtain rfl : base = 6 := Option.some.inj (hbase.symm.trans hframe)
  have hstart : m.state.top = 0 := rfl
  have hdistance : (6 : Int64).toInt - (1 : Int16).toInt + 1 = 6 := by decide
  have htop' : ((after recursion m 14).state.top : Int) = 6 := hreturn.trans hdistance
  exact ⟨hok, hsum, by omega, hlast, hframe, by omega⟩

end Machine

end PCode
