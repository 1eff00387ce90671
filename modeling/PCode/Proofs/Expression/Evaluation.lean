import PCode.Proofs.Expression.Meaning
import PCode.Proofs.Machine.Completion
import PCode.Proofs.Machine.Popped

/-!
# Running the code of an expression

`Machine.Pushed n v m m'` says that `m'` is `m` after `n` instructions that have put `v` on the
stack and left everything else that is live as it was. Code that pushes can be run inside other
code: what stands below is not touched, so an operator finds both its operands where their code left
them.

* `Machine.Passed.step`, `Machine.Keeps.push`: one instruction, and one that pushes.
* `Machine.pushed_of_evaluable`: the code of an expression that has a value pushes it.
* `Machine.fault_of_evaluable`: the code of one that has none stops at its first division by zero.
* `Machine.code_evaluates_expression`: both, for any machine whose program holds the code.
-/

namespace PCode

/-! ## Words and integers -/

theorem toInt_and_one (w : Int64) : (w &&& 1).toInt = w.toInt % 2 := by
  show (w.toBitVec &&& 1#64).toInt = w.toBitVec.toInt % 2
  have hand : w.toBitVec.toNat &&& (1 % 2 ^ 64) = w.toBitVec.toNat % 2 := Nat.and_one_is_mod _
  rw [BitVec.toInt_and, BitVec.toNat_ofNat, hand, BitVec.toInt_eq_toNat_bmod]
  simp only [Int.bmod_def]
  omega

theorem toInt_of_comparison (holds : Prop) [Decidable holds] :
    (if holds then 1 else 0 : Int64).toInt = BinaryOperator.truth holds := by
  by_cases h : holds <;> simp [BinaryOperator.truth, h]

theorem UnaryOperator.toInt_of_unary? {op : UnaryOperator} {f : Int64 → Int64}
    (hf : op.operation.unary? = some f) (w : Int64) : (f w).toInt = op.result w.toInt := by
  cases op with
  | neg =>
    cases hf
    exact Int64.toInt_neg w
  | odd =>
    cases hf
    exact toInt_and_one w

theorem BinaryOperator.result?_of_binary? {op : BinaryOperator} {f : Int64 → Int64 → Int64}
    (hf : op.operation.binary? = some f) (a b : Int64) :
    op.result? a.toInt b.toInt = some (f a b).toInt := by
  cases op with
  | add =>
    cases hf
    exact congrArg some (Int64.toInt_add a b).symm
  | sub =>
    cases hf
    exact congrArg some (Int64.toInt_sub a b).symm
  | mul =>
    cases hf
    exact congrArg some (Int64.toInt_mul a b).symm
  | div => cases hf
  | eq | neq =>
    cases hf
    simp only [result?, toInt_of_comparison, ne_eq, Int64.toInt_inj]
  | ls | gr =>
    cases hf
    simp only [result?, toInt_of_comparison, gt_iff_lt, Int64.lt_iff_toInt_lt]
  | lseq | greq =>
    cases hf
    simp only [result?, toInt_of_comparison, ge_iff_le, Int64.le_iff_toInt_le]

/-! ## Operators on the stack -/

section Operators

variable {s : State}

theorem UnaryOperator.exists_effect (op : UnaryOperator) (live : 0 < s.top)
    (room : s.top ≤ s.stack.size) :
    ∃ w : Int64, w.toInt = op.result (s.word (s.top - 1)).toInt ∧
      op.operation.Effect s none { s with stack := s.stack.setIfInBounds (s.top - 1) w } := by
  obtain ⟨f, hf⟩ : ∃ f, op.operation.unary? = some f := by cases op <;> exact ⟨_, rfl⟩
  exact ⟨f (s.word (s.top - 1)), toInt_of_unary? hf _, .unary hf live room⟩

/-- A quotient has a rule of its own, and its result may have to be wrapped too. -/
theorem BinaryOperator.exists_effect {op : BinaryOperator} {v : Int}
    (hv : op.result? (s.word (s.top - 2)).toInt (s.word (s.top - 1)).toInt = some v)
    (live : 1 < s.top) (room : s.top ≤ s.stack.size + 1) :
    ∃ w : Int64, w.toInt = v ∧ op.operation.Effect s none
      { s with stack := s.stack.setIfInBounds (s.top - 2) w, top := s.top - 1 } := by
  cases hb : op.operation.binary? with
  | some f =>
    rw [result?_of_binary? hb] at hv
    exact ⟨f (s.word (s.top - 2)) (s.word (s.top - 1)), Option.some.inj hv, .binary hb live room⟩
  | none =>
    obtain rfl : op = div := by
      cases op with
      | div => rfl
      | _ => cases hb
    have hne : (s.word (s.top - 1)).toInt ≠ 0 := by
      intro hzero
      rw [result?_eq_none_iff.mpr ⟨rfl, hzero⟩] at hv
      cases hv
    have hdivisor : s.word (s.top - 1) ≠ 0 := fun hzero => hne (by rw [hzero]; rfl)
    rw [result?, if_neg hne] at hv
    refine ⟨s.word (s.top - 2) / s.word (s.top - 1), ?_, .div live hdivisor room⟩
    exact (Int64.toInt_div _ _).trans (Option.some.inj hv)

end Operators

/-! ## Code in a program -/

/-- The program has the code from a position on. -/
def Program.HoldsAt (p : Program) (position : Nat) (code : List Instruction) : Prop :=
  ∀ k i, code[k]? = some i → p.get? (position + k) = some i

namespace Program.HoldsAt

variable {p : Program} {position : Nat} {code rest : List Instruction} {i : Instruction}

theorem left (h : p.HoldsAt position (code ++ rest)) : p.HoldsAt position code := by
  intro k i hi
  obtain ⟨hlt, -⟩ := List.getElem?_eq_some_iff.mp hi
  exact h k i (by rw [List.getElem?_append_left hlt]; exact hi)

theorem right (h : p.HoldsAt position (code ++ rest)) :
    p.HoldsAt (position + code.length) rest := by
  intro k i hi
  rw [Nat.add_assoc]
  refine h (code.length + k) i ?_
  rw [List.getElem?_append_right (Nat.le_add_right _ _), Nat.add_sub_cancel_left]
  exact hi

theorem ofList (before code rest : List Instruction) :
    (Program.ofList (before ++ code ++ rest)).HoldsAt before.length code := by
  intro k i hi
  obtain ⟨hlt, -⟩ := List.getElem?_eq_some_iff.mp hi
  show (before ++ code ++ rest).toArray[before.length + k]? = some i
  rw [List.getElem?_toArray, List.append_assoc,
    List.getElem?_append_right (Nat.le_add_right _ _), Nat.add_sub_cancel_left,
    List.getElem?_append_left hlt]
  exact hi

theorem head (h : p.HoldsAt position (i :: rest)) : p.get? position = some i := h 0 i rfl

end Program.HoldsAt

namespace State

variable {s s' : State} {level offset : Int16}

/-- The variable at a level and offset is a live cell. -/
def HasVariable (s : State) (level offset : Int16) : Prop :=
  s.HasLevel level.toInt ∧ 0 ≤ s.addressOf level offset ∧ s.addressOf level offset < s.top

instance : Decidable (s.HasVariable level offset) :=
  inferInstanceAs (Decidable ((0 ≤ level.toInt ∧ level.toInt < s.display.size) ∧
    0 ≤ s.addressOf level offset ∧ s.addressOf level offset < s.top))

theorem hasVariable_of_all {cells : List (Int16 × Int16)}
    (h : cells.all fun c => s.HasVariable c.1 c.2) : ∀ c ∈ cells, s.HasVariable c.1 c.2 :=
  fun c hc => of_decide_eq_true (List.all_eq_true.mp h c hc)

/-- The number in the variable at a level and offset. -/
def content (s : State) (level offset : Int16) : Int :=
  (s.word (s.addressOf level offset).toNat).toInt

theorem addressOf_of_display (h : s'.display = s.display) :
    s'.addressOf level offset = s.addressOf level offset := by
  simp only [addressOf, base, frame, h]

theorem word_set_self {index : Nat} {w : Int64} (h : index < s.stack.size)
    (hstack : s'.stack = s.stack.setIfInBounds index w) : s'.word index = w := by
  simp [word, hstack, h]

theorem word_set_of_ne {index k : Nat} {w : Int64} (hne : index ≠ k)
    (hstack : s'.stack = s.stack.setIfInBounds index w) : s'.word k = s.word k := by
  simp [word, hstack, hne]

end State

namespace Machine

variable {ω τ : Type} {p : Program} {m m₁ m₂ : Machine ω τ} {n n' : Nat}

/-! ## What lies below -/

/-- A number of instructions further on and still running, with the display and the output as they
were. -/
structure Passed (n : Nat) (m m' : Machine ω τ) : Prop where
  running : m'.state.status = .running
  pc_eq : m'.state.pc = m.state.pc + n
  display_eq : m'.state.display = m.state.display
  output_eq : m'.output = m.output

/-- And with the live cells as they were. The top may have moved. -/
structure Keeps (n : Nat) (m m' : Machine ω τ) : Prop extends Passed n m m' where
  word_of_lt : ∀ k < m.state.top, m'.state.word k = m.state.word k
  size_eq : m'.state.stack.size = m.state.stack.size

/-- And with one number more on the stack. -/
structure Pushed (n : Nat) (v : Int) (m m' : Machine ω τ) : Prop extends Keeps n m m' where
  top_eq : m'.state.top = m.state.top + 1
  word_eq : (m'.state.word m.state.top).toInt = v

theorem Keeps.refl (hrun : m.state.status = .running) : Keeps 0 m m :=
  ⟨⟨hrun, rfl, rfl, rfl⟩, fun _ _ => rfl, rfl⟩

theorem Keeps.trans (h : Keeps n m m₁) (h' : Keeps n' m₁ m₂) (htop : m.state.top ≤ m₁.state.top) :
    Keeps (n + n') m m₂ where
  running := h'.running
  pc_eq := by rw [h'.pc_eq, h.pc_eq, Nat.add_assoc]
  display_eq := h'.display_eq.trans h.display_eq
  output_eq := h'.output_eq.trans h.output_eq
  word_of_lt k hk := by rw [h'.word_of_lt k (by omega), h.word_of_lt k hk]
  size_eq := h'.size_eq.trans h.size_eq

/-! ## Code that can be run -/

/-- The program goes on with the code of the expression, whose variables are live and hold the given
numbers, and there is room for it on the stack. -/
structure Evaluable (p : Program) (content : Int16 → Int16 → Int) (s : State) (e : Expression) :
    Prop where
  code : p.HoldsAt s.pc e.code
  hasVariable {level offset : Int16} : (level, offset) ∈ e.cells → s.HasVariable level offset
  content_eq {level offset : Int16} :
    (level, offset) ∈ e.cells → s.content level offset = content level offset
  room : s.top + e.depth ≤ s.stack.size

namespace Evaluable

variable {content : Int16 → Int16 → Int} {s : State}

theorem top_lt {e : Expression} (h : Evaluable p content s e) : s.top < s.stack.size := by
  have := h.room
  have := e.depth_pos
  omega

/-- Once a number has been pushed, the variables are as they were and there is one cell less. -/
theorem of_pushed {e : Expression} {a : Int} (hpushed : Pushed n a m m₁)
    (hcode : p.HoldsAt (m.state.pc + n) e.code)
    (hvariable : ∀ {level offset}, (level, offset) ∈ e.cells → m.state.HasVariable level offset)
    (hcontent : ∀ {level offset}, (level, offset) ∈ e.cells →
      m.state.content level offset = content level offset)
    (hroom : m.state.top + 1 + e.depth ≤ m.state.stack.size) : Evaluable p content m₁.state e where
  code := by
    rw [hpushed.pc_eq]
    exact hcode
  hasVariable hc := by
    obtain ⟨⟨hlevel, hlevel'⟩, hlow, hhigh⟩ := hvariable hc
    refine ⟨⟨hlevel, by rw [hpushed.display_eq]; exact hlevel'⟩, ?_⟩
    rw [State.addressOf_of_display hpushed.display_eq, hpushed.top_eq]
    omega
  content_eq hc := by
    obtain ⟨-, hlow, hhigh⟩ := hvariable hc
    rw [← hcontent hc]
    unfold State.content
    rw [State.addressOf_of_display hpushed.display_eq, hpushed.word_of_lt _ (by omega)]
  room := by
    rw [hpushed.top_eq, hpushed.size_eq]
    exact hroom

theorem operand {op : UnaryOperator} {e : Expression}
    (h : Evaluable p content s (.unary op e)) : Evaluable p content s e :=
  ⟨h.code.left, h.hasVariable, h.content_eq, h.room⟩

variable {op : BinaryOperator} {l r : Expression}

theorem depth_le (h : Evaluable p content s (.binary op l r)) :
    s.top + l.depth ≤ s.stack.size ∧ s.top + 1 + r.depth ≤ s.stack.size := by
  have hroom : s.top + max l.depth (1 + r.depth) ≤ s.stack.size := h.room
  omega

theorem left (h : Evaluable p content s (.binary op l r)) : Evaluable p content s l where
  code := h.code.left.left
  hasVariable hc := h.hasVariable (List.mem_append_left _ hc)
  content_eq hc := h.content_eq (List.mem_append_left _ hc)
  room := h.depth_le.1

theorem right {a : Int} (h : Evaluable p content m.state (.binary op l r))
    (hleft : Pushed l.code.length a m m₁) : Evaluable p content m₁.state r :=
  .of_pushed hleft h.code.left.right (fun hc => h.hasVariable (List.mem_append_right _ hc))
    (fun hc => h.content_eq (List.mem_append_right _ hc)) h.depth_le.2

end Evaluable

/-! ## Steps -/

variable [Sink ω] [Sink τ]

theorem after_add (p : Program) (m : Machine ω τ) (n n' : Nat) :
    after p m (n + n') = after p (after p m n) n' := by
  induction n' with
  | zero => rfl
  | succ n' ih => exact congrArg (fun m => (step p m).2) ih

theorem step_of_effect {i : Instruction} {s' : State} (hrun : m.state.status = .running)
    (hi : p.get? m.state.pc = some i) (he : i.Effect m.state.fetched none s') :
    (step p m).2.state = s'.settled ∧ (step p m).2.output = m.output := by
  obtain ⟨s, output, trace⟩ := m
  rw [step_of_silent hrun (cycle_ok_iff.mpr ⟨hi, he⟩)]
  exact ⟨rfl, rfl⟩

/-- **One step.** An instruction that writes nothing, and changes nothing but the stack and the top
once it has been fetched. -/
theorem Passed.step {i : Instruction} {s' : State} {stack : Array Int64} {top : Nat}
    (h : Passed n m m₁) (hi : p.get? m₁.state.pc = some i)
    (he : i.Effect m₁.state.fetched none s')
    (hs : s' = { m₁.state.fetched with stack := stack, top := top }) :
    Passed (n + 1) m (step p m₁).2 ∧ (step p m₁).2.state.stack = stack ∧
      (step p m₁).2.state.top = top := by
  subst hs
  obtain ⟨hstate, houtput⟩ := step_of_effect h.running hi he
  refine ⟨⟨?_, ?_, ?_, houtput.trans h.output_eq⟩, by rw [hstate]; rfl, by rw [hstate]; rfl⟩
  · rw [hstate, State.settled_running_iff]
    exact Nat.succ_ne_zero _
  · rw [hstate]
    exact congrArg (· + 1) h.pc_eq
  · rw [hstate]
    exact h.display_eq

/-- **One push.** Whatever stands above the old top, an instruction that sets the cell there, and
the top to just above it, has pushed a word. -/
theorem Keeps.push {i : Instruction} {w : Int64} {s' : State} (h : Keeps n m m₁)
    (room : m.state.top < m.state.stack.size) (hi : p.get? m₁.state.pc = some i)
    (he : i.Effect m₁.state.fetched none s')
    (hs : s' = { m₁.state.fetched with
      stack := m₁.state.stack.setIfInBounds m.state.top w, top := m.state.top + 1 }) :
    Pushed (n + 1) w.toInt m (Machine.step p m₁).2 := by
  obtain ⟨hpassed, hstack, htop⟩ := h.toPassed.step hi he hs
  exact {
    toPassed := hpassed
    word_of_lt := fun k hk => by
      rw [State.word_set_of_ne (by omega) hstack, h.word_of_lt k hk]
    size_eq := by rw [hstack, Array.size_setIfInBounds, h.size_eq]
    top_eq := htop
    word_eq := by rw [State.word_set_self (by rw [h.size_eq]; exact room) hstack] }

theorem Pushed.unary {op : UnaryOperator} {a : Int} (h : Pushed n a m m₁)
    (room : m.state.top < m.state.stack.size)
    (hi : p.get? m₁.state.pc = some (.operation op.operation.code)) :
    Pushed (n + 1) (op.result a) m (step p m₁).2 := by
  have htop : m₁.state.fetched.top - 1 = m.state.top := by simp [h.top_eq]
  obtain ⟨w, hw, he⟩ := op.exists_effect (s := m₁.state.fetched)
    (by rw [State.fetched_top, h.top_eq]; omega)
    (by rw [State.fetched_top, State.fetched_stack, h.top_eq, h.size_eq]; omega)
  have hvalue : w.toInt = op.result a := by
    rw [hw, htop, ← h.word_eq]
    rfl
  rw [← hvalue]
  refine h.toKeeps.push room hi (.opr he) ?_
  rw [htop, ← h.top_eq]
  rfl

theorem Pushed.binary {op : BinaryOperator} {a b v : Int} (h : Pushed n a m m₁)
    (h' : Pushed n' b m₁ m₂) (room : m.state.top < m.state.stack.size)
    (hi : p.get? m₂.state.pc = some (.operation op.operation.code)) (hv : op.result? a b = some v) :
    Pushed (n + n' + 1) v m (step p m₂).2 := by
  have hkeeps : Keeps (n + n') m m₂ := h.toKeeps.trans h'.toKeeps (by rw [h.top_eq]; omega)
  have htop : m₂.state.fetched.top = m.state.top + 2 := by
    rw [State.fetched_top, h'.top_eq, h.top_eq]
  have hleft : (m₂.state.word m.state.top).toInt = a := by
    rw [h'.word_of_lt m.state.top (by rw [h.top_eq]; omega), h.word_eq]
  have hright : (m₂.state.word (m.state.top + 1)).toInt = b := by
    rw [← h.top_eq, h'.word_eq]
  have hresult : op.result? (m₂.state.fetched.word (m₂.state.fetched.top - 2)).toInt
      (m₂.state.fetched.word (m₂.state.fetched.top - 1)).toInt = some v := by
    rw [htop]
    exact (congrArg₂ op.result? hleft hright).trans hv
  obtain ⟨w, rfl, he⟩ := BinaryOperator.exists_effect hresult (by omega)
    (by rw [htop, State.fetched_stack, hkeeps.size_eq]; omega)
  refine hkeeps.push room hi (.opr he) ?_
  rw [htop]
  rfl

/-! ## Expressions that have a value -/

theorem pushed_of_literal {content : Int16 → Int16 → Int} {value : Int32}
    (hrun : m.state.status = .running) (h : Evaluable p content m.state (.literal value)) :
    Pushed 1 value.toInt m (step p m).2 := by
  have hpush := (Keeps.refl hrun).push h.top_lt h.code.head (.lit h.top_lt) rfl
  rwa [Int32.toInt_toInt64] at hpush

theorem pushed_of_cell {content : Int16 → Int16 → Int} {level offset : Int16}
    (hrun : m.state.status = .running) (hsize : m.state.stack.size < 2 ^ 63)
    (h : Evaluable p content m.state (.cell level offset)) :
    Pushed 1 (content level offset) m (step p m).2 := by
  obtain ⟨hlevel, hlow, hhigh⟩ := h.hasVariable List.mem_cons_self
  have hroom := h.top_lt
  have hfits : (int64? (m.state.addressOf level offset)).isSome :=
    (int64?_isSome_iff _).mpr (by omega)
  have hcell : m.state.HasCell (m.state.addressOf level offset) := ⟨hlow, by omega⟩
  rw [← h.content_eq List.mem_cons_self]
  exact (Keeps.refl hrun).push hroom h.code.head
    (.lod (s := m.state.fetched) hlevel hfits hcell hroom) rfl

/-- **Values.** The code of an expression that has a value pushes it. -/
theorem pushed_of_evaluable {content : Int16 → Int16 → Int} {e : Expression} {v : Int}
    (hrun : m.state.status = .running) (hsize : m.state.stack.size < 2 ^ 63)
    (h : Evaluable p content m.state e) (hv : e.value? content = some v) :
    Pushed e.code.length v m (after p m e.code.length) := by
  induction e generalizing m v with
  | literal value =>
    cases hv
    exact pushed_of_literal hrun h
  | cell level offset =>
    cases hv
    exact pushed_of_cell hrun hsize h
  | unary op e ih =>
    obtain ⟨a, ha, rfl⟩ := Option.map_eq_some_iff.mp hv
    have hpushed := ih hrun hsize h.operand ha
    have hi := h.code.right.head
    rw [← hpushed.pc_eq] at hi
    have hresult := hpushed.unary h.top_lt hi
    rwa [Expression.code, List.length_append]
  | binary op left right ihl ihr =>
    obtain ⟨a, ha, hrest⟩ := Option.bind_eq_some_iff.mp hv
    obtain ⟨b, hb, hresult⟩ := Option.bind_eq_some_iff.mp hrest
    have hleft := ihl hrun hsize h.left ha
    have hright := ihr hleft.running (by rw [hleft.size_eq]; exact hsize) (h.right hleft) hb
    have hi := h.code.right.head
    rw [List.length_append, ← Nat.add_assoc, ← hleft.pc_eq, ← hright.pc_eq] at hi
    have hpushed := hleft.binary hright h.top_lt hi hresult
    rw [← after_add] at hpushed
    rwa [Expression.code, List.length_append, List.length_append]

/-! ## Expressions that divide by zero -/

theorem step_of_zero_divisor (hrun : m.state.status = .running)
    (htop : m.state.top ≤ m.state.stack.size) (hsize : m.state.stack.size < 2 ^ 63)
    (hi : p.get? m.state.pc = some (.operation Operation.div.code)) (live : 1 < m.state.top)
    (hzero : (m.state.word (m.state.top - 1)).toInt = 0) :
    (step p m).1 = .error ⟨m.state.pc, .divisionByZero⟩ := by
  have hpc : m.state.pc < p.size := (Array.getElem?_eq_some_iff.mp hi).1
  have hword : m.state.word (m.state.top - 1) = 0 := Int64.toInt_inj.mp hzero
  have hfirst : Condition.firstFailing (p.conditions m.state) =
      some ⟨false, .divisionByZero, m.state.fetched.popped.popped⟩ := by
    rw [Program.conditions_of_some hi]
    -- The three conditions on the instruction itself hold by computation.
    refine Condition.firstFailing_cons_iff.mpr (.inr ⟨decide_eq_true hpc, ?_⟩)
    refine Condition.firstFailing_cons_iff.mpr (.inr ⟨rfl, ?_⟩)
    refine Condition.firstFailing_cons_iff.mpr (.inr ⟨rfl, ?_⟩)
    refine Condition.firstFailing_cons_iff.mpr (.inr ⟨rfl, ?_⟩)
    have hlive : 0 < m.state.fetched.top := by rw [State.fetched_top]; omega
    have hlive' : 0 < m.state.fetched.popped.top := by
      show 0 < m.state.top - 1
      omega
    have hfails : decide (m.state.fetched.word (m.state.fetched.top - 1) ≠ 0) = false :=
      decide_eq_false (not_not_intro hword)
    refine Condition.firstFailing_cons_iff.mpr (.inr ⟨decide_eq_true hlive, ?_⟩)
    refine Condition.firstFailing_cons_iff.mpr (.inr ⟨decide_eq_true hlive', ?_⟩)
    refine Condition.firstFailing_cons_iff.mpr (.inl ⟨hfails, ?_⟩)
    rw [hfails]
  exact step_of_firstFailing hrun htop hsize hfirst

/-- **Divisions by zero.** The code of an expression that has no value stops at the first one. -/
theorem fault_of_evaluable {content : Int16 → Int16 → Int} {e : Expression} {k : Nat}
    (hrun : m.state.status = .running) (hsize : m.state.stack.size < 2 ^ 63)
    (h : Evaluable p content m.state e) (hk : (e.zeroDivisions content).head? = some k) :
    (step p (after p m k)).1 = .error ⟨m.state.pc + k, .divisionByZero⟩ := by
  induction e generalizing m k with
  | literal | cell => cases hk
  | unary op e ih => exact ih hrun hsize h.operand hk
  | binary op l r ihl ihr =>
    rw [Expression.zeroDivisions, List.append_assoc] at hk
    cases hl : l.value? content with
    | none =>
      obtain ⟨d, ds, hds⟩ := List.exists_cons_of_ne_nil (Expression.value?_eq_none_iff.mp hl)
      rw [hds] at hk
      obtain rfl : d = k := Option.some.inj hk
      exact ihl hrun hsize h.left (by rw [hds]; rfl)
    | some a =>
      have hleft := pushed_of_evaluable hrun hsize h.left hl
      have hsize' : (after p m l.code.length).state.stack.size < 2 ^ 63 := by
        rw [hleft.size_eq]
        exact hsize
      rw [Expression.zeroDivisions_of_value hl, List.nil_append] at hk
      cases hr : r.value? content with
      | none =>
        obtain ⟨d, ds, hds⟩ := List.exists_cons_of_ne_nil (Expression.value?_eq_none_iff.mp hr)
        rw [hds] at hk
        obtain rfl : l.code.length + d = k := Option.some.inj hk
        have hfault := ihr hleft.running hsize' (h.right hleft) (by rw [hds]; rfl)
        rwa [← after_add, hleft.pc_eq, Nat.add_assoc] at hfault
      | some b =>
        have hright := pushed_of_evaluable hleft.running hsize' (h.right hleft) hr
        rw [Expression.zeroDivisions_of_value hr, hr, List.map_nil, List.nil_append] at hk
        split at hk
        next hdiv =>
          obtain ⟨rfl, hb⟩ := hdiv
          obtain rfl : b = 0 := Option.some.inj hb
          obtain rfl : l.code.length + r.code.length = k := Option.some.inj hk
          have hi := h.code.right.head
          rw [List.length_append, ← Nat.add_assoc, ← hleft.pc_eq, ← hright.pc_eq] at hi
          have hroom := h.depth_le.2
          have hdepth := r.depth_pos
          have hfault := step_of_zero_divisor hright.running
            (by rw [hright.top_eq, hright.size_eq, hleft.top_eq, hleft.size_eq]; omega)
            (by rw [hright.size_eq]; exact hsize') hi
            (by rw [hright.top_eq, hleft.top_eq]; omega)
            (by rw [hright.top_eq, Nat.add_sub_cancel]; exact hright.word_eq)
          rwa [hright.pc_eq, hleft.pc_eq, Nat.add_assoc, ← after_add] at hfault
        next => cases hk

/-! ## Any expression -/

/-- **Evaluation.** Take a machine that is running and goes on with the code of an expression, whose
variables are live, with room on the stack for what the code needs. If the expression has a value,
running the code pushes it and changes nothing below. If it has none, the code runs up to the first
division by zero and ends with a fault there. -/
theorem code_evaluates_expression (p : Program) (m : Machine ω τ) (e : Expression)
    (hrun : m.state.status = .running) (hsize : m.state.stack.size < 2 ^ 63)
    (hcode : p.HoldsAt m.state.pc e.code)
    (hcells : ∀ c ∈ e.cells, m.state.HasVariable c.1 c.2)
    (hroom : m.state.top + e.depth ≤ m.state.stack.size) :
    (∀ v, e.value? m.state.content = some v →
      Pushed e.code.length v m (after p m e.code.length)) ∧
    (e.value? m.state.content = none →
      ∃ k, (e.zeroDivisions m.state.content).head? = some k ∧
        e.code[k]? = some (.operation Operation.div.code) ∧
        (∀ j < k, (step p (after p m j)).1 = .ok .running) ∧
        (step p (after p m k)).1 = .error ⟨m.state.pc + k, .divisionByZero⟩) := by
  have h : Evaluable p m.state.content m.state e :=
    ⟨hcode, fun hc => hcells _ hc, fun _ => rfl, hroom⟩
  refine ⟨fun v hv => pushed_of_evaluable hrun hsize h hv, fun hnone => ?_⟩
  obtain ⟨k, ks, hks⟩ := List.exists_cons_of_ne_nil (Expression.value?_eq_none_iff.mp hnone)
  have hhead : (e.zeroDivisions m.state.content).head? = some k := by rw [hks]; rfl
  have hdiv := Expression.getElem?_of_mem_zeroDivisions (List.mem_of_mem_head? hhead)
  have hfault := fault_of_evaluable hrun hsize h hhead
  refine ⟨k, hhead, hdiv, fun j hj => ?_, hfault⟩
  exact result_of_running (running_of_le (running_of_error hfault) hj)

/-- The one quotient that has to be wrapped, and a division by zero inside a sum. -/
theorem code_evaluates_expression_edges :
    let m : Machine Buffer Buffer :=
      ⟨{ stack := #[0, 0, Int64.minValue, 7, 0, 0, 0, 0], display := #[0], top := 4, pc := 1 },
        Buffer.empty, none⟩
    let quotient : Expression := .binary .div (.cell 0 2) (.unary .neg (.literal 1))
    let sum : Expression := .binary .add (.literal 1)
      (.binary .div (.cell 0 2) (.binary .sub (.cell 0 3) (.literal 7)))
    let program (e : Expression) := Program.ofList ([.value Opcode.jmp.code 1] ++ e.code ++ [])
    Pushed 4 (-0x8000000000000000) m (after (program quotient) m 4) ∧
      sum.value? m.state.content = none ∧
      (step (program sum) (after (program sum) m 5)).1 = .error ⟨6, .divisionByZero⟩ := by
  intro m quotient sum program
  have hquotient := code_evaluates_expression (program quotient) m quotient rfl (by decide)
    (Program.HoldsAt.ofList _ _ _) (State.hasVariable_of_all (by decide +kernel)) (by decide)
  have hsum := code_evaluates_expression (program sum) m sum rfl (by decide)
    (Program.HoldsAt.ofList _ _ _) (State.hasVariable_of_all (by decide +kernel)) (by decide)
  have hnone : sum.value? m.state.content = none := by decide +kernel
  obtain ⟨k, hk, -, -, hfault⟩ := hsum.2 hnone
  have hfive : (sum.zeroDivisions m.state.content).head? = some 5 := by decide +kernel
  obtain rfl : 5 = k := Option.some.inj (hfive.symm.trans hk)
  exact ⟨hquotient.1 _ (by decide +kernel), hnone, hfault⟩

end Machine

end PCode
