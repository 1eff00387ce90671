import PCode.Proofs.Machine.Guarded
import PCode.Proofs.Machine.Run

/-!
# What a step can change

For each instruction there are a few cells that it can change, the cells of its *footprint*, whether
they are live or not. It changes at most one word of the display, writes at most one text, and goes
on at one position. All of this is known before the instruction is executed: it depends on the
instruction and on the state.

* `Instruction.footprint`, `Instruction.frameChange`, `Instruction.written`, `Instruction.next`: the
  cells, the word of the display, the text and the position.
* `Machine.step_within_footprint`: a step that succeeds changes nothing else.
-/

namespace PCode

/-! ## What there is to change -/

namespace Operation

/-- The addresses of the cells that the operation can change. -/
def footprint (s : State) : Operation → List Int
  | neg | odd | lid => [s.top - 1]
  | add | sub | mul | div | eq | neq | ls | gr | lseq | greq => [s.top - 2]
  | sid => [(s.word (s.top - 2)).toInt]
  | wrt | wrl => []

/-- The text that the operation writes. -/
def written (s : State) : Operation → Option String
  | wrt => some (toString (s.word (s.top - 1)).toInt ++ " ")
  | wrl => some "\n"
  | _ => none

end Operation

namespace Instruction

/-- The addresses of the cells that the instruction can change. -/
def footprint (i : Instruction) (s : State) : List Int :=
  match i.opcode?, i with
  | some .lit, value _ _ => [s.top]
  | some .lod, address _ _ _ => [s.top]
  | some .lda, address _ _ _ => [s.top]
  | some .sto, address _ level offset => [s.addressOf level offset]
  | some .cal, address _ _ _ => [s.top, s.top + 1]
  | some .ret, address _ level arguments => [s.base level - arguments.toInt]
  | some .opr, operation code => (Operation.ofCode? code).elim [] (Operation.footprint s)
  | _, _ => []

/-- The level whose display word the instruction changes, and what the word becomes. -/
def frameChange (i : Instruction) (s : State) : Option (Int × Int64) :=
  match i.opcode?, i with
  | some .cal, address _ level _ => some (level.toInt + 1, Int64.ofNat s.top)
  | some .ret, address _ level _ => some (level.toInt, s.word (s.base level).toNat)
  | _, _ => none

/-- The text that the instruction writes. -/
def written (i : Instruction) (s : State) : Option String :=
  match i with
  | operation code => (Operation.ofCode? code).bind (Operation.written s)
  | _ => none

/-- The position at which the program goes on. -/
def next (i : Instruction) (s : State) : Int :=
  match i.opcode?, i with
  | some .jmp, value _ position => position.toInt
  | some .jpc, value _ position =>
    if s.word (s.top - 1) = 0 then position.toInt else s.pc + 1
  | some .cal, address _ _ position => position.toInt
  | some .ret, address _ level _ => s.returnTo level
  | _, _ => s.pc + 1

end Instruction

/-! ## Operations -/

/-- A cell is kept when another one is changed. -/
theorem getElem?_set_of_not_mem {stack : Array Int64} {index k : Nat} {address : Int} {word : Int64}
    (ha : (index : Int) = address) (hk : (k : Int) ∉ [address]) :
    (stack.setIfInBounds index word)[k]? = stack[k]? := by
  have hne : index ≠ k := by
    intro heq
    simp only [List.mem_singleton] at hk
    omega
  exact Array.getElem?_setIfInBounds_ne hne

namespace Operation

variable {op : Operation} {s s' : State} {out : Option String} {k : Nat}

theorem footprint_of_unary? {f : Int64 → Int64} (hf : op.unary? = some f) :
    op.footprint s = [(s.top : Int) - 1] := by
  cases op <;> first | rfl | cases hf

theorem footprint_of_binary? {f : Int64 → Int64 → Int64} (hf : op.binary? = some f) :
    op.footprint s = [(s.top : Int) - 2] := by
  cases op <;> first | rfl | cases hf

theorem written_of_unary? {f : Int64 → Int64} (hf : op.unary? = some f) :
    op.written s = none := by
  cases op <;> first | rfl | cases hf

theorem written_of_binary? {f : Int64 → Int64 → Int64} (hf : op.binary? = some f) :
    op.written s = none := by
  cases op <;> first | rfl | cases hf

theorem Effect.getElem?_stack (h : op.Effect s out s') (hk : (k : Int) ∉ op.footprint s) :
    s'.stack[k]? = s.stack[k]? := by
  cases h with
  | unary hf live room =>
    rw [footprint_of_unary? hf] at hk
    exact getElem?_set_of_not_mem (by omega) hk
  | binary hf live room =>
    rw [footprint_of_binary? hf] at hk
    exact getElem?_set_of_not_mem (by omega) hk
  | div live divisor room => exact getElem?_set_of_not_mem (by omega) hk
  | lid live cell room => exact getElem?_set_of_not_mem (by omega) hk
  | sid live cell => exact getElem?_set_of_not_mem (Int.toNat_of_nonneg cell.1) hk
  | wrt | wrl => rfl

theorem Effect.out_eq (h : op.Effect s out s') : out = op.written s := by
  cases h with
  | unary hf => exact (written_of_unary? hf).symm
  | binary hf => exact (written_of_binary? hf).symm
  | _ => rfl

theorem Effect.pc_eq (h : op.Effect s out s') : s'.pc = s.pc := by
  cases h <;> rfl

theorem Effect.display_eq (h : op.Effect s out s') : s'.display = s.display := by
  cases h <;> rfl

end Operation

/-! ## Instructions -/

namespace Instruction

variable {i : Instruction} {s s' : State} {out : Option String} {k : Nat}

theorem footprint_operation (op : Operation) :
    (operation op.code).footprint s = op.footprint s := by
  show (Operation.ofCode? op.code).elim [] (Operation.footprint s) = op.footprint s
  rw [Operation.ofCode?_code]
  rfl

theorem written_operation (op : Operation) : (operation op.code).written s = op.written s := by
  show (Operation.ofCode? op.code).bind (Operation.written s) = op.written s
  rw [Operation.ofCode?_code]
  rfl

/-- The cells outside the footprint are kept, live or not. -/
theorem Effect.getElem?_stack (h : i.Effect s out s') (hk : (k : Int) ∉ i.footprint s) :
    s'.stack[k]? = s.stack[k]? := by
  cases h with
  | lit | lod | lda => exact getElem?_set_of_not_mem rfl hk
  | sto live hl fits cell => exact getElem?_set_of_not_mem (Int.toNat_of_nonneg cell.1) hk
  | cal hl room target =>
    obtain ⟨hbase, hnext⟩ := not_or.mp (mt List.mem_cons.mpr hk)
    have hnext' : ((s.top + 1 : Nat) : Int) = s.top + 1 := by omega
    rw [getElem?_set_of_not_mem hnext' hnext]
    exact getElem?_set_of_not_mem rfl (mt List.mem_singleton.mp hbase)
  | ret hl live header header' target room =>
    exact getElem?_set_of_not_mem (Int.toNat_of_nonneg room.1) hk
  | ict | jmp | jpcZero | jpcNonzero => rfl
  | opr h =>
    rw [footprint_operation] at hk
    exact h.getElem?_stack hk

/-- The display changes in the one word that the instruction changes. -/
theorem Effect.display_of_frameChange {level : Int} {word : Int64} (h : i.Effect s out s')
    (hchange : i.frameChange s = some (level, word)) :
    s.HasLevel level ∧ s'.display = s.display.setIfInBounds level.toNat word := by
  cases h with
  | cal hl room target =>
    cases hchange
    exact ⟨hl, rfl⟩
  | ret hl live header header' target room =>
    cases hchange
    exact ⟨hl, rfl⟩
  | _ => cases hchange

theorem Effect.display_of_no_frameChange (h : i.Effect s out s')
    (hchange : i.frameChange s = none) : s'.display = s.display := by
  cases h with
  | cal | ret => cases hchange
  | opr h => exact h.display_eq
  | _ => rfl

theorem Effect.out_eq (h : i.Effect s out s') : out = i.written s := by
  cases h with
  | opr h => rw [written_operation, h.out_eq]
  | _ => rfl

/-- The program counter of the state that the instruction is executed in has already moved on. -/
theorem Effect.pc_eq (h : i.Effect s.fetched out s') : (s'.pc : Int) = i.next s := by
  cases h with
  | cal hl room target => exact Int.toNat_of_nonneg target
  | ret hl live header header' target room => exact Int.toNat_of_nonneg target
  | jmp target => exact Int.toNat_of_nonneg target
  | jpcZero live zero target => exact (Int.toNat_of_nonneg target).trans (if_pos zero).symm
  | jpcNonzero live nonzero => exact (if_neg nonzero).symm
  | opr h => rw [h.pc_eq]; rfl
  | _ => rfl

end Instruction

/-! ## Steps -/

namespace Machine

variable {ω τ : Type} [Sink ω] [Sink τ] {p : Program} {m : Machine ω τ} {i : Instruction}

/-- What a step that succeeds does to the output sink: nothing, or it writes one text. -/
theorem output_of_executed? (h : executed? p m = some i) :
    (i.written m.state = none ∧ (step p m).2.output = m.output) ∨
      ∃ text, i.written m.state = some text ∧
        Sink.write text m.output = (.ok (), (step p m).2.output) := by
  have hcase := stepCase p m
  generalize hstep : step p m = result at hcase
  cases hcase with
  | stopped hstop => cases (executed?_of_stopped hstop).symm.trans h
  | failed | refused => cases (executed?_of_fail hstep).symm.trans h
  | silent hrun hc =>
    obtain ⟨hi, he⟩ := cycle_ok_iff.mp hc
    rw [executed?_of_finish hrun hstep, hi] at h
    cases h
    exact .inl ⟨he.out_eq.symm, rfl⟩
  | written hrun hc hw =>
    obtain ⟨hi, he⟩ := cycle_ok_iff.mp hc
    rw [executed?_of_finish hrun hstep, hi] at h
    cases h
    exact .inr ⟨_, he.out_eq.symm, hw⟩

/-- **The footprint of a step.** Take a step that succeeds, and an output sink that a successful
write appends to. The cells outside the footprint of the instruction stay as they are. The display
changes in the word that the instruction changes, to what it says, and in no other. The output grows
by the text that the instruction writes, and else stays as it is. And the program goes on at the
position that the instruction gives. -/
theorem step_within_footprint (p : Program) (m : Machine ω τ) (i : Instruction)
    (contents : ω → String)
    (hsink : ∀ text sink sink', Sink.write text sink = (.ok (), sink') →
      contents sink' = contents sink ++ text)
    (h : executed? p m = some i) :
    let m' := (step p m).2
    (∀ k : Nat, (k : Int) ∉ i.footprint m.state → m'.state.stack[k]? = m.state.stack[k]?) ∧
      (∀ level word, i.frameChange m.state = some (level, word) → m.state.HasLevel level ∧
        m'.state.display = m.state.display.setIfInBounds level.toNat word) ∧
      (i.frameChange m.state = none → m'.state.display = m.state.display) ∧
      (∀ text, i.written m.state = some text →
        contents m'.output = contents m.output ++ text) ∧
      (i.written m.state = none → m'.output = m.output) ∧
      (m'.state.pc : Int) = i.next m.state := by
  obtain ⟨-, out, s, he, hstate⟩ := effect_of_executed? h
  dsimp only
  rw [hstate]
  refine ⟨fun k hk => he.getElem?_stack hk, fun level word hc => he.display_of_frameChange hc,
    fun hc => he.display_of_no_frameChange hc, ?_, ?_, he.pc_eq⟩
  · intro text htext
    rcases output_of_executed? h with ⟨hnone, -⟩ | ⟨text', htext', hw⟩
    · cases hnone.symm.trans htext
    · cases htext'.symm.trans htext
      exact hsink _ _ _ hw
  · intro hnone
    rcases output_of_executed? h with ⟨-, hout⟩ | ⟨text', htext', -⟩
    · exact hout
    · cases hnone.symm.trans htext'

/-- A return without arguments, whose result goes to the cell where the frame has saved the display
word, and a number written behind what a sink with little room holds. -/
theorem step_within_footprint_header :
    let close := Program.ofList [.address Opcode.ret.code 0 0]
    let full : State := { stack := #[7, 3, 9, 4], display := #[0, 2], top := 3 }
    let write := Program.ofList [.operation Operation.wrt.code]
    let sink : Buffer := { text := "1 ", room := some 3 }
    let m : Machine Buffer Buffer := ⟨full, Buffer.empty, none⟩
    let m' : Machine Buffer Buffer := ⟨{ full with stack := #[7, 3, -9, 4] }, sink, none⟩
    executed? close m = some (.address Opcode.ret.code 0 0) ∧
      (step close m).2.state.stack[1]? = some 3 ∧ (step close m).2.state.stack[3]? = some 4 ∧
      (step close m).2.state.display = #[7, 2] ∧ (step close m).2.state.pc = 3 ∧
      executed? write m' = some (.operation Operation.wrt.code) ∧
      (step write m').2.state.stack[2]? = some (-9 : Int64) ∧
      (step write m').2.output.text = "1 -9 " := by
  intro close full write sink m m'
  have hclose : executed? close m = some (.address Opcode.ret.code 0 0) := by decide +kernel
  have hwrite : executed? write m' = some (.operation Operation.wrt.code) := by decide +kernel
  have hsink (text : String) (b b' : Buffer) (h : Sink.write text b = (.ok (), b')) :
      b'.text = b.text ++ text := Buffer.text_of_write h
  obtain ⟨hcells, hdisplay, -, -, -, hpc⟩ :=
    step_within_footprint close m _ Buffer.text hsink hclose
  obtain ⟨hcells', -, -, htext, -, -⟩ :=
    step_within_footprint write m' _ Buffer.text hsink hwrite
  have hreturn : ((step close m).2.state.pc : Int) = 3 := hpc
  exact ⟨hclose, hcells 1 (by decide +kernel), hcells 3 (by decide +kernel),
    (hdisplay 0 7 rfl).2, by omega, hwrite, hcells' 2 (by decide +kernel),
    htext "-9 " (by decide +kernel)⟩

end Machine

end PCode
