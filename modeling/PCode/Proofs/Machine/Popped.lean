import PCode.Proofs.Machine.Conditions

/-!
# What a step has popped before a fault

The conditions of a step are looked at one after the other, and in between an instruction pops its
operands. So for each condition there is a number of words that have been popped when it comes to
it. These numbers stand in lists beside the lists of conditions.

* `Program.popped`: the number that stands beside the first condition that does not hold.
* `Popping`: up to a certain condition an instruction does nothing but pop.
* `Instruction.popping_conditions`: this is all that most instructions do before a fault. Only calls
  and returns have more conditions, from where they have changed something else.
-/

namespace PCode

namespace Condition

variable {c d : Condition} {cs : List Condition} {ns : List Nat} {s : State}

theorem holds_level_iff {level : Int} :
    (Condition.level level s).holds ↔ s.HasLevel level :=
  decide_eq_true_iff

theorem holds_cell_iff {address : Int} : (Condition.cell address s).holds ↔ s.HasCell address :=
  decide_eq_true_iff

theorem firstFailing_cons_iff : firstFailing (d :: cs) = some c ↔
    (d.holds = false ∧ d = c) ∨ (d.holds = true ∧ firstFailing cs = some c) := by
  cases hd : d.holds <;> simp [firstFailing, hd]

/-- The number that stands beside the first condition that does not hold. If all conditions hold, it
is the number after those of the conditions. -/
def besideFirstFailing : List Condition → List Nat → Nat
  | c :: cs, n :: ns => if c.holds then besideFirstFailing cs ns else n
  | _, ns => ns.headD 0

theorem besideFirstFailing_eq_zero (h : ∀ n ∈ ns, n = 0) :
    besideFirstFailing cs ns = 0 := by
  fun_induction besideFirstFailing cs ns with
  | case1 c cs n ns hc ih => exact ih fun n hn => h n (List.mem_cons_of_mem _ hn)
  | case2 c cs n ns hc => exact h n List.mem_cons_self
  | case3 cs ns =>
    cases ns with
    | nil => rfl
    | cons n ns => exact h n List.mem_cons_self

theorem besideFirstFailing_of_all_hold (h : ∀ c ∈ cs, c.holds) :
    besideFirstFailing cs ns = (ns.drop cs.length).headD 0 := by
  fun_induction besideFirstFailing cs ns with
  | case1 c cs n ns hc ih => exact ih fun c hc => h c (List.mem_cons_of_mem _ hc)
  | case2 c cs n ns hc => exact absurd (h c List.mem_cons_self) hc
  | case3 cs ns hno =>
    cases cs with
    | nil => rfl
    | cons c cs =>
      cases ns with
      | nil => rfl
      | cons n ns => exact (hno c cs n ns rfl rfl).elim

end Condition

open Condition

/-! ## The numbers -/

/-- How many words the operation has popped when it comes to each of its conditions, and when it
writes. -/
def Operation.popsBefore : Operation → List Nat
  | neg | odd => [0]
  | add | sub | mul | eq | neq | ls | gr | lseq | greq | lid | wrt => [0, 1]
  | div | sid => [0, 1, 2]
  | wrl => [0]

/-- How many words the instruction has popped when it comes to each of its conditions, and when it
writes. Nothing is counted from where a call has opened its frame, or a return has closed its own.
-/
def Instruction.popsBefore (i : Instruction) : List Nat :=
  0 :: 0 ::
    match i.opcode?, i with
    | some .lit, value _ _ => [0]
    | some .lod, address _ _ _ => [0, 0, 0]
    | some .lda, address _ _ _ => [0, 0, 0]
    | some .sto, address _ _ _ => [0, 1, 1]
    | some .cal, address _ _ _ => [0, 0]
    | some .ret, address _ _ _ => [0, 0, 1, 1]
    | some .ict, value _ _ => [0, 0]
    | some .jmp, value _ _ => [0]
    | some .jpc, value _ _ => [0, 1]
    | some .opr, operation code => 0 :: (Operation.ofCode? code).elim [] Operation.popsBefore
    | _, _ => []

namespace Program

/-- How many words a step has popped when it comes to each of its conditions, and when it writes. -/
def popsBefore (p : Program) (s : State) : List Nat :=
  0 :: (p.get? s.pc).elim [] Instruction.popsBefore

/-- How many words a step that ends with a fault has popped before. -/
def popped (p : Program) (s : State) : Nat :=
  besideFirstFailing (p.conditions s) (p.popsBefore s)

end Program

/-! ## Instructions that pop -/

/-- The state with a number of words popped. -/
def State.dropped (s : State) (n : Nat) : State := { s with top := s.top - n }

/-- If the conditions before it hold, then at each condition beside which there is a number so many
words have been popped, and nothing else has been done. -/
inductive Popping (s : State) : List Condition → List Nat → Prop
  | nil {ns : List Nat} : Popping s [] ns
  | rest {cs : List Condition} : Popping s cs []
  | cons {c : Condition} {cs : List Condition} {n : Nat} {ns : List Nat}
      (hleft : c.left = s.dropped n) (hn : n ≤ s.top) (hrest : c.holds → Popping s cs ns) :
      Popping s (c :: cs) (n :: ns)

theorem Popping.before {s : State} {c : Condition} {cs : List Condition} {ns : List Nat}
    (hleft : c.left = s) (hrest : c.holds → Popping s cs ns) : Popping s (c :: cs) (0 :: ns) :=
  .cons hleft (Nat.zero_le _) hrest

/-- Either a condition with a number does not hold, and then what stands beside the first such is
what has been popped; or all of them hold, and the first that does not is among the others. -/
theorem Popping.of_firstFailing {s : State} {cs : List Condition} {ns : List Nat} {c : Condition}
    (h : Popping s cs ns) (hfirst : firstFailing cs = some c) :
    ((∃ d ∈ cs.take ns.length, d.holds = false) ∧
        c.left = s.dropped (besideFirstFailing cs ns) ∧ besideFirstFailing cs ns ≤ s.top) ∨
      (∀ d ∈ cs.take ns.length, d.holds) ∧ firstFailing (cs.drop ns.length) = some c := by
  induction h with
  | nil => cases hfirst
  | rest => exact .inr ⟨by simp, hfirst⟩
  | @cons d cs n ns hleft hn hrest ih =>
    rw [List.length_cons, List.take_succ_cons, List.drop_succ_cons, besideFirstFailing]
    rcases firstFailing_cons_iff.mp hfirst with ⟨hd, rfl⟩ | ⟨hd, hfirst⟩
    · rw [if_neg (by simp [hd])]
      exact .inl ⟨⟨d, List.mem_cons_self, hd⟩, hleft, hn⟩
    · rw [if_pos hd]
      rcases ih hd hfirst with ⟨⟨e, he, hfails⟩, hleft⟩ | ⟨hall, hrest⟩
      · exact .inl ⟨⟨e, List.mem_cons_of_mem _ he, hfails⟩, hleft⟩
      · exact .inr ⟨List.forall_mem_cons.mpr ⟨hd, hall⟩, hrest⟩

theorem Operation.popping_conditions (op : Operation) (s : State) :
    Popping s (op.conditions s) op.popsBefore := by
  cases op with
  | neg | odd | wrt => exact .before rfl fun _ => .nil
  | add | sub | mul | eq | neq | ls | gr | lseq | greq | lid =>
    exact .before rfl fun hlive => .cons rfl (of_decide_eq_true hlive) fun _ => .nil
  | div | sid =>
    refine .before rfl fun hlive => ?_
    refine .cons rfl (of_decide_eq_true hlive) fun hlive' => ?_
    have hsecond : 0 < s.top - 1 := of_decide_eq_true hlive'
    exact .cons rfl (by omega) fun _ => .nil
  | wrl => exact .nil

theorem Instruction.popping_conditions (i : Instruction) (s : State) :
    Popping s (i.conditions s) i.popsBefore := by
  refine .before rfl fun hknown => .before rfl fun hshape => ?_
  obtain ⟨op, hop⟩ := Option.isSome_iff_exists.mp hknown
  have hcode : op.code = i.code := Opcode.ofCode?_eq_some_iff.mp hop
  cases i with
  | address code level offset =>
    obtain rfl : op.code = code := hcode
    cases op with
    | lod | lda =>
      exact .before rfl fun _ => .before rfl fun _ => .before rfl fun _ => .nil
    | sto =>
      refine .before rfl fun hlive => ?_
      have hpopped : 0 < s.top := of_decide_eq_true hlive
      exact .cons rfl hpopped fun _ => .cons rfl hpopped fun _ => .nil
    | cal => exact .before rfl fun _ => .before rfl fun _ => .rest
    | ret =>
      refine .before rfl fun _ => .before rfl fun hlive => ?_
      have hpopped : 0 < s.top := of_decide_eq_true hlive
      exact .cons rfl hpopped fun _ => .cons rfl hpopped fun _ => .rest
    | _ => exact .nil
  | value code immediate =>
    obtain rfl : op.code = code := hcode
    cases op with
    | lit | jmp => exact .before rfl fun _ => .nil
    | ict => exact .before rfl fun _ => .before rfl fun _ => .nil
    | jpc =>
      exact .before rfl fun hlive => .cons rfl (of_decide_eq_true hlive) fun _ => .nil
    | _ => exact .nil
  | operation code =>
    show Popping s (⟨(Operation.ofCode? code).isSome, .unknownOperation code, s⟩ ::
        (Operation.ofCode? code).elim [] (Operation.conditions s))
      (0 :: (Operation.ofCode? code).elim [] Operation.popsBefore)
    refine .before rfl fun _ => ?_
    cases Operation.ofCode? code with
    | some op => exact op.popping_conditions s
    | none => exact .nil

section Steps

variable {p : Program} {s : State} {i : Instruction}

/-- Only calls and returns have conditions for which nothing is counted. -/
theorem Instruction.drop_conditions
    (hcal : ∀ level position, i ≠ address Opcode.cal.code level position)
    (hret : ∀ level arguments, i ≠ address Opcode.ret.code level arguments) :
    (i.conditions s).drop i.popsBefore.length = [] := by
  cases hop : i.opcode? with
  | none =>
    unfold conditions operandConditions popsBefore
    rw [hop]
    rfl
  | some op =>
    have hcode : op.code = i.code := Opcode.ofCode?_eq_some_iff.mp hop
    cases i with
    | address code level offset =>
      obtain rfl : op.code = code := hcode
      cases op with
      | cal => exact absurd rfl (hcal _ _)
      | ret => exact absurd rfl (hret _ _)
      | _ => rfl
    | value code immediate =>
      obtain rfl : op.code = code := hcode
      cases op <;> rfl
    | operation code =>
      show ((Operation.ofCode? code).elim [] (Operation.conditions s)).drop
        ((Operation.ofCode? code).elim [] Operation.popsBefore).length = []
      cases Operation.ofCode? code with
      | none => rfl
      | some op => cases op <;> rfl

/-- The conditions of a call up to where it has opened its frame. -/
theorem Instruction.counted_of_call {level position : Int16} :
    (∀ d ∈ ((address Opcode.cal.code level position).conditions s).take
        (address Opcode.cal.code level position).popsBefore.length, d.holds) ↔
      s.HasLevel (level.toInt + 1) ∧ s.top + 2 ≤ s.stack.size := by
  show (∀ d ∈ ([_, _, _, _] : List Condition), d.holds) ↔ _
  simp only [List.forall_mem_cons]
  constructor
  · rintro ⟨-, -, hlevel, hroom, -⟩
    exact ⟨holds_level_iff.mp hlevel, of_decide_eq_true hroom⟩
  · rintro ⟨hlevel, hroom⟩
    exact ⟨rfl, rfl, holds_level_iff.mpr hlevel, decide_eq_true hroom, nofun⟩

/-- The conditions of a return up to where it has found its frame. -/
theorem Instruction.counted_of_return {level arguments : Int16} :
    (∀ d ∈ ((address Opcode.ret.code level arguments).conditions s).take
        (address Opcode.ret.code level arguments).popsBefore.length, d.holds) ↔
      s.HasLevel level.toInt ∧ 0 < s.top ∧ s.HasCell (s.base level) ∧
        s.HasCell (s.base level + 1) := by
  show (∀ d ∈ ([_, _, _, _, _, _] : List Condition), d.holds) ↔ _
  simp only [List.forall_mem_cons]
  constructor
  · rintro ⟨-, -, hlevel, hlive, hbase, hnext, -⟩
    exact ⟨holds_level_iff.mp hlevel, of_decide_eq_true hlive, holds_cell_iff.mp hbase,
      holds_cell_iff.mp hnext⟩
  · rintro ⟨hlevel, hlive, hbase, hnext⟩
    exact ⟨rfl, rfl, holds_level_iff.mpr hlevel, decide_eq_true hlive, holds_cell_iff.mpr hbase,
      holds_cell_iff.mpr hnext, nofun⟩

theorem Program.conditions_of_some (hi : p.get? s.pc = some i) :
    p.conditions s = ⟨s.pc < p.size, .programCounterOutOfRange s.pc, { s with position := s.pc }⟩ ::
      i.conditions s.fetched := by
  simp only [Program.conditions, hi, Option.elim_some]

theorem Program.popped_of_some (hi : p.get? s.pc = some i) :
    p.popped s = besideFirstFailing (i.conditions s.fetched) i.popsBefore := by
  have hlt : s.pc < p.size := (Array.getElem?_eq_some_iff.mp hi).1
  simp only [Program.popped, Program.conditions_of_some hi, Program.popsBefore, hi,
    Option.elim_some, besideFirstFailing, decide_eq_true hlt, if_true]

end Steps

end PCode
