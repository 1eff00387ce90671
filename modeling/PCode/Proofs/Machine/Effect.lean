import PCode.Proofs.Machine.Action

/-!
# The effect of an instruction

`Instruction.Effect i s out s'` says that `i` can be executed in state `s`, that it leaves `s'` and
asks for `out` to be written. There is one rule for each opcode, and for `OPR` one for each kind of
operation. The program counter of `s` has already moved on to the next instruction.

* `Instruction.execute_ok_iff`: executing an instruction succeeds exactly as its rule says.
-/

namespace PCode

open Exec

/-! ## Operations -/

namespace Operation

/-- The function that the operation applies to the word on top. -/
def unary? : Operation → Option (Int64 → Int64)
  | neg => some (- ·)
  | odd => some (· &&& 1)
  | _ => none

/-- The function that the operation applies to the two words on top, other than a quotient. -/
def binary? : Operation → Option (Int64 → Int64 → Int64)
  | add => some (· + ·)
  | sub => some (· - ·)
  | mul => some (· * ·)
  | eq => some fun left right => if left = right then 1 else 0
  | neq => some fun left right => if left ≠ right then 1 else 0
  | ls => some fun left right => if left < right then 1 else 0
  | gr => some fun left right => if left > right then 1 else 0
  | lseq => some fun left right => if left ≤ right then 1 else 0
  | greq => some fun left right => if left ≥ right then 1 else 0
  | _ => none

/-- What an operation does to the state, and the text that it asks to be written. -/
inductive Effect : Operation → State → Option String → State → Prop
  | unary {op : Operation} {f : Int64 → Int64} {s : State} (hf : op.unary? = some f)
      (live : 0 < s.top) (room : s.top ≤ s.stack.size) :
      Effect op s none
        { s with stack := s.stack.setIfInBounds (s.top - 1) (f (s.word (s.top - 1))) }
  | binary {op : Operation} {f : Int64 → Int64 → Int64} {s : State} (hf : op.binary? = some f)
      (live : 1 < s.top) (room : s.top ≤ s.stack.size + 1) :
      Effect op s none
        { s with
          stack := s.stack.setIfInBounds (s.top - 2) (f (s.word (s.top - 2)) (s.word (s.top - 1)))
          top := s.top - 1 }
  | div {s : State} (live : 1 < s.top) (divisor : s.word (s.top - 1) ≠ 0)
      (room : s.top ≤ s.stack.size + 1) :
      Effect div s none
        { s with
          stack := s.stack.setIfInBounds (s.top - 2) (s.word (s.top - 2) / s.word (s.top - 1))
          top := s.top - 1 }
  | wrt {s : State} (live : 0 < s.top) :
      Effect wrt s (some (toString (s.word (s.top - 1)).toInt ++ " ")) { s with top := s.top - 1 }
  | wrl {s : State} : Effect wrl s (some "\n") s
  | lid {s : State} (live : 0 < s.top) (cell : s.HasCell (s.word (s.top - 1)).toInt)
      (room : s.top ≤ s.stack.size) :
      Effect lid s none
        { s with
          stack := s.stack.setIfInBounds (s.top - 1) (s.word (s.word (s.top - 1)).toInt.toNat) }
  | sid {s : State} (live : 1 < s.top) (cell : s.HasCell (s.word (s.top - 2)).toInt) :
      Effect sid s none
        { s with
          stack := s.stack.setIfInBounds (s.word (s.top - 2)).toInt.toNat (s.word (s.top - 1))
          top := s.top - 2 }

variable {op : Operation} {s s' : State} {out : Option String}

theorem perform_of_unary? {f : Int64 → Int64} (hf : op.unary? = some f) :
    op.perform = (do Exec.unary f; return none) := by
  cases op <;> simp only [unary?, Option.some.injEq, reduceCtorEq] at hf <;> rw [← hf] <;> rfl

theorem perform_of_binary? {f : Int64 → Int64 → Int64} (hf : op.binary? = some f) :
    op.perform = (do Exec.binary f; return none) := by
  cases op <;> simp only [binary?, Option.some.injEq, reduceCtorEq] at hf <;> rw [← hf] <;>
    simp [perform, comparison]

theorem perform_ok_iff : op.perform s = .ok out s' ↔ op.Effect s out s' := by
  constructor
  · intro h
    rcases hu : op.unary? with _ | f
    · rcases hb : op.binary? with _ | f
      · cases op with
        | div =>
          obtain ⟨rfl, hx⟩ := silent_ok_iff.mp h
          obtain ⟨live, divisor, room, rfl⟩ := divide_ok_iff.mp hx
          exact .div live divisor room
        | wrt =>
          obtain ⟨w, s₁, hpop, hpure⟩ := bind_ok_iff.mp h
          obtain ⟨live, rfl, rfl⟩ := pop_ok_iff.mp hpop
          obtain ⟨rfl, rfl⟩ := pure_ok_iff.mp hpure
          exact .wrt live
        | wrl =>
          obtain ⟨rfl, rfl⟩ := pure_ok_iff.mp h
          exact .wrl
        | lid =>
          obtain ⟨rfl, hx⟩ := silent_ok_iff.mp h
          obtain ⟨live, cell, room, rfl⟩ := loadIndirect_ok_iff.mp hx
          exact .lid live cell room
        | sid =>
          obtain ⟨rfl, hx⟩ := silent_ok_iff.mp h
          obtain ⟨live, cell, rfl⟩ := storeIndirect_ok_iff.mp hx
          exact .sid live cell
        | _ => simp [unary?, binary?] at hu hb
      · rw [perform_of_binary? hb] at h
        obtain ⟨rfl, hx⟩ := silent_ok_iff.mp h
        obtain ⟨live, room, rfl⟩ := binary_ok_iff.mp hx
        exact .binary hb live room
    · rw [perform_of_unary? hu] at h
      obtain ⟨rfl, hx⟩ := silent_ok_iff.mp h
      obtain ⟨live, room, rfl⟩ := unary_ok_iff.mp hx
      exact .unary hu live room
  · intro h
    cases h with
    | unary hf live room =>
      rw [perform_of_unary? hf]
      exact silent_ok_iff.mpr ⟨rfl, unary_ok_iff.mpr ⟨live, room, rfl⟩⟩
    | binary hf live room =>
      rw [perform_of_binary? hf]
      exact silent_ok_iff.mpr ⟨rfl, binary_ok_iff.mpr ⟨live, room, rfl⟩⟩
    | div live divisor room =>
      exact silent_ok_iff.mpr ⟨rfl, divide_ok_iff.mpr ⟨live, divisor, room, rfl⟩⟩
    | wrt live =>
      exact bind_ok_iff.mpr ⟨_, _, pop_ok_iff.mpr ⟨live, rfl, rfl⟩, pure_ok_iff.mpr ⟨rfl, rfl⟩⟩
    | wrl => exact pure_ok_iff.mpr ⟨rfl, rfl⟩
    | lid live cell room =>
      exact silent_ok_iff.mpr ⟨rfl, loadIndirect_ok_iff.mpr ⟨live, cell, room, rfl⟩⟩
    | sid live cell =>
      exact silent_ok_iff.mpr ⟨rfl, storeIndirect_ok_iff.mpr ⟨live, cell, rfl⟩⟩

end Operation

/-! ## Instructions -/

namespace Instruction

/-- What an instruction does to the state, and the text that it asks to be written. -/
inductive Effect : Instruction → State → Option String → State → Prop
  | lit {s : State} {immediate : Int32} (room : s.top < s.stack.size) :
      Effect (value Opcode.lit.code immediate) s none
        { s with stack := s.stack.setIfInBounds s.top immediate.toInt64, top := s.top + 1 }
  | lod {s : State} {level offset : Int16} (hl : s.HasLevel level.toInt)
      (fits : (int64? (s.addressOf level offset)).isSome)
      (cell : s.HasCell (s.addressOf level offset)) (room : s.top < s.stack.size) :
      Effect (address Opcode.lod.code level offset) s none
        { s with
          stack := s.stack.setIfInBounds s.top (s.word (s.addressOf level offset).toNat)
          top := s.top + 1 }
  | lda {s : State} {level offset : Int16} (hl : s.HasLevel level.toInt)
      (fits : (int64? (s.addressOf level offset)).isSome) (room : s.top < s.stack.size) :
      Effect (address Opcode.lda.code level offset) s none
        { s with
          stack := s.stack.setIfInBounds s.top (Int64.ofInt (s.addressOf level offset))
          top := s.top + 1 }
  | sto {s : State} {level offset : Int16} (live : 0 < s.top) (hl : s.HasLevel level.toInt)
      (fits : (int64? (s.addressOf level offset)).isSome)
      (cell : s.HasCell (s.addressOf level offset)) :
      Effect (address Opcode.sto.code level offset) s none
        { s with
          stack := s.stack.setIfInBounds (s.addressOf level offset).toNat (s.word (s.top - 1))
          top := s.top - 1 }
  | cal {s : State} {level position : Int16} (hl : s.HasLevel (level.toInt + 1))
      (room : s.top + 2 ≤ s.stack.size) (target : 0 ≤ position.toInt) :
      Effect (address Opcode.cal.code level position) s none
        { s with
          stack := (s.stack.setIfInBounds s.top (s.frame (level.toInt + 1))).setIfInBounds
            (s.top + 1) (Int64.ofNat s.pc)
          display := s.display.setIfInBounds (level.toInt + 1).toNat (Int64.ofNat s.top)
          pc := position.toInt.toNat }
  | ret {s : State} {level arguments : Int16} (hl : s.HasLevel level.toInt) (live : 0 < s.top)
      (header : s.HasCell (s.base level)) (header' : s.HasCell (s.base level + 1))
      (target : 0 ≤ (s.word ((s.base level).toNat + 1)).toInt)
      (room : s.HasCell (s.base level - arguments.toInt)) :
      Effect (address Opcode.ret.code level arguments) s none
        { s with
          stack := s.stack.setIfInBounds (s.base level - arguments.toInt).toNat (s.word (s.top - 1))
          display := s.display.setIfInBounds level.toInt.toNat (s.word (s.base level).toNat)
          top := (s.base level - arguments.toInt).toNat + 1
          pc := (s.word ((s.base level).toNat + 1)).toInt.toNat }
  | ict {s : State} {distance : Int32} (live : 0 ≤ s.top + distance.toInt)
      (room : s.top + distance.toInt ≤ s.stack.size) :
      Effect (value Opcode.ict.code distance) s none
        { s with top := (s.top + distance.toInt).toNat }
  | jmp {s : State} {position : Int32} (target : 0 ≤ position.toInt) :
      Effect (value Opcode.jmp.code position) s none { s with pc := position.toInt.toNat }
  | jpcZero {s : State} {position : Int32} (live : 0 < s.top) (zero : s.word (s.top - 1) = 0)
      (target : 0 ≤ position.toInt) :
      Effect (value Opcode.jpc.code position) s none
        { s with top := s.top - 1, pc := position.toInt.toNat }
  | jpcNonzero {s : State} {position : Int32} (live : 0 < s.top)
      (nonzero : s.word (s.top - 1) ≠ 0) :
      Effect (value Opcode.jpc.code position) s none { s with top := s.top - 1 }
  | opr {s s' : State} {op : Operation} {out : Option String} (h : op.Effect s out s') :
      Effect (operation op.code) s out s'

variable {i : Instruction} {s s' : State} {out : Option String}

theorem execute_operation (code : UInt8) :
    (operation code).execute =
      match Operation.ofCode? code with
      | some op => op.perform
      | none => throw (.unknownOperation code) := rfl

theorem Effect.of_execute (h : i.execute s = .ok out s') : i.Effect s out s' := by
  cases hop : i.opcode? with
  | none =>
    simp only [execute, hop] at h
    exact (throw_ok_iff.mp h).elim
  | some op =>
    have hcode : op.code = i.code := Opcode.ofCode?_eq_some_iff.mp hop
    cases i with
    | address code level offset =>
      obtain rfl : op.code = code := hcode
      cases op with
      | lod =>
        obtain ⟨rfl, hx⟩ := silent_ok_iff.mp h
        obtain ⟨hl, fits, cell, room, rfl⟩ := load_ok_iff.mp hx
        exact .lod hl fits cell room
      | lda =>
        obtain ⟨rfl, hx⟩ := silent_ok_iff.mp h
        obtain ⟨hl, fits, room, rfl⟩ := loadAddress_ok_iff.mp hx
        exact .lda hl fits room
      | sto =>
        obtain ⟨rfl, hx⟩ := silent_ok_iff.mp h
        obtain ⟨live, hl, fits, cell, rfl⟩ := store_ok_iff.mp hx
        exact .sto live hl fits cell
      | cal =>
        obtain ⟨rfl, hx⟩ := silent_ok_iff.mp h
        obtain ⟨hl, room, target, rfl⟩ := openFrame_ok_iff.mp hx
        exact .cal hl room target
      | ret =>
        obtain ⟨rfl, hx⟩ := silent_ok_iff.mp h
        obtain ⟨hl, live, header, header', target, room, rfl⟩ := closeFrame_ok_iff.mp hx
        exact .ret hl live header header' target room
      | _ => exact (throw_ok_iff.mp h).elim
    | value code immediate =>
      obtain rfl : op.code = code := hcode
      cases op with
      | lit =>
        obtain ⟨rfl, hx⟩ := silent_ok_iff.mp h
        obtain ⟨room, rfl⟩ := push_ok_iff.mp hx
        exact .lit room
      | ict =>
        obtain ⟨rfl, hx⟩ := silent_ok_iff.mp h
        obtain ⟨live, room, rfl⟩ := moveTop_ok_iff.mp hx
        exact .ict live room
      | jmp =>
        obtain ⟨rfl, hx⟩ := silent_ok_iff.mp h
        obtain ⟨target, rfl⟩ := jump_ok_iff.mp hx
        exact .jmp target
      | jpc =>
        obtain ⟨rfl, hx⟩ := silent_ok_iff.mp h
        obtain ⟨live, ⟨zero, target, rfl⟩ | ⟨nonzero, rfl⟩⟩ := jumpIfZero_ok_iff.mp hx
        · exact .jpcZero live zero target
        · exact .jpcNonzero live nonzero
      | _ => exact (throw_ok_iff.mp h).elim
    | operation code =>
      rw [execute_operation] at h
      cases hop : Operation.ofCode? code with
      | none =>
        rw [hop] at h
        exact (throw_ok_iff.mp h).elim
      | some op =>
        rw [hop] at h
        obtain rfl : op.code = code := Operation.ofCode?_eq_some_iff.mp hop
        exact .opr (Operation.perform_ok_iff.mp h)

theorem Effect.execute (h : i.Effect s out s') : i.execute s = .ok out s' := by
  cases h with
  | lit room => exact silent_ok_iff.mpr ⟨rfl, push_ok_iff.mpr ⟨room, rfl⟩⟩
  | lod hl fits cell room =>
    exact silent_ok_iff.mpr ⟨rfl, load_ok_iff.mpr ⟨hl, fits, cell, room, rfl⟩⟩
  | lda hl fits room =>
    exact silent_ok_iff.mpr ⟨rfl, loadAddress_ok_iff.mpr ⟨hl, fits, room, rfl⟩⟩
  | sto live hl fits cell =>
    exact silent_ok_iff.mpr ⟨rfl, store_ok_iff.mpr ⟨live, hl, fits, cell, rfl⟩⟩
  | cal hl room target =>
    exact silent_ok_iff.mpr ⟨rfl, openFrame_ok_iff.mpr ⟨hl, room, target, rfl⟩⟩
  | ret hl live header header' target room =>
    exact silent_ok_iff.mpr
      ⟨rfl, closeFrame_ok_iff.mpr ⟨hl, live, header, header', target, room, rfl⟩⟩
  | ict live room => exact silent_ok_iff.mpr ⟨rfl, moveTop_ok_iff.mpr ⟨live, room, rfl⟩⟩
  | jmp target => exact silent_ok_iff.mpr ⟨rfl, jump_ok_iff.mpr ⟨target, rfl⟩⟩
  | jpcZero live zero target =>
    exact silent_ok_iff.mpr ⟨rfl, jumpIfZero_ok_iff.mpr ⟨live, .inl ⟨zero, target, rfl⟩⟩⟩
  | jpcNonzero live nonzero =>
    exact silent_ok_iff.mpr ⟨rfl, jumpIfZero_ok_iff.mpr ⟨live, .inr ⟨nonzero, rfl⟩⟩⟩
  | opr h =>
    rw [execute_operation, Operation.ofCode?_code]
    exact Operation.perform_ok_iff.mpr h

/-- **Success of an instruction.** It is executed exactly as its rule says. -/
theorem execute_ok_iff : i.execute s = .ok out s' ↔ i.Effect s out s' :=
  ⟨Effect.of_execute, Effect.execute⟩

/-! ## What every instruction keeps -/

theorem Effect.size_stack (h : i.Effect s out s') : s'.stack.size = s.stack.size := by
  cases h with
  | opr h => cases h <;> simp
  | _ => simp

theorem Effect.size_display (h : i.Effect s out s') : s'.display.size = s.display.size := by
  cases h with
  | opr h => cases h <;> rfl
  | _ => simp

/-- Only fetching counts steps. -/
theorem Effect.steps_eq (h : i.Effect s out s') : s'.steps = s.steps := by
  cases h with
  | opr h => cases h <;> rfl
  | _ => rfl

/-- The top stays within the stack. -/
theorem Effect.top_le (h : i.Effect s out s') (htop : s.top ≤ s.stack.size) :
    s'.top ≤ s'.stack.size := by
  rw [h.size_stack]
  cases h with
  | opr h => cases h <;> (try dsimp only) <;> omega
  | ret hl live header header' target room =>
    have := room.2
    dsimp only
    omega
  | _ => dsimp only; omega

/-- Only calls and returns change the display. -/
theorem Effect.display_eq (h : i.Effect s out s')
    (hcal : ∀ level position, i ≠ address Opcode.cal.code level position)
    (hret : ∀ level arguments, i ≠ address Opcode.ret.code level arguments) :
    s'.display = s.display := by
  cases h with
  | opr h => cases h <;> rfl
  | cal => exact absurd rfl (hcal _ _)
  | ret => exact absurd rfl (hret _ _)
  | _ => rfl

end Instruction

end PCode
