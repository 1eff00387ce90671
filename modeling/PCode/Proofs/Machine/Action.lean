import PCode.Machine.Execute

/-!
# When the actions succeed

The `*_ok_iff` lemmas say when an elementary action succeeds, with which result and in which state.
A sequence of actions succeeds as its parts do (`bind_ok_iff`), so the success of an instruction is
found by rewriting with them and the definitions of the larger actions stay closed elsewhere.

* `openFrame_ok_iff`, `closeFrame_ok_iff`: the checks of a call and of a return, and the state that
  each of them leaves.
-/

namespace PCode

namespace State

/-- The display has a word for the level. -/
def HasLevel (s : State) (level : Int) : Prop := 0 ≤ level ∧ level < s.display.size

/-- The stack has a cell at the address. -/
def HasCell (s : State) (address : Int) : Prop := 0 ≤ address ∧ address < s.stack.size

/-- The word in a cell. -/
def word (s : State) (index : Nat) : Int64 := s.stack.getD index 0

/-- The display word of a level. -/
def frame (s : State) (level : Int) : Int64 := s.display.getD level.toNat 0

/-- The address of the frame that is open at a level. -/
def base (s : State) (level : Int16) : Int := (s.frame level.toInt).toInt

/-- The address at an offset from the frame of a level. It need not fit 64 bits. -/
def addressOf (s : State) (level offset : Int16) : Int := s.base level + offset.toInt

theorem getElem?_display {s : State} {level : Int} (h : s.HasLevel level) :
    s.display[level.toNat]? = some (s.frame level) := by
  have hlt : level.toNat < s.display.size := (Int.toNat_lt h.1).mpr h.2
  rw [Array.getElem?_eq_getElem hlt]
  simp [frame, Array.getD, hlt]

theorem getElem?_stack {s : State} {index : Nat} (h : index < s.stack.size) :
    s.stack[index]? = some (s.word index) := by
  rw [Array.getElem?_eq_getElem h]
  simp [word, Array.getD, h]

end State

namespace Exec

variable {α β : Type} {s s' : State} {u : Unit}

/-! ## Sequences -/

theorem bind_ok_iff {x : Exec α} {f : α → Exec β} {b : β} :
    (x >>= f) s = .ok b s' ↔ ∃ a s₁, x s = .ok a s₁ ∧ f a s₁ = .ok b s' := by
  show EStateM.bind x f s = _ ↔ _
  unfold EStateM.bind
  cases x s with
  | ok a s₁ =>
    constructor
    · intro h
      exact ⟨a, s₁, rfl, h⟩
    · rintro ⟨_, _, h, hf⟩
      cases h
      exact hf
  | error c s₁ => simp

theorem bind_error_iff {x : Exec α} {f : α → Exec β} {c : Cause} :
    (x >>= f) s = .error c s' ↔
      x s = .error c s' ∨ ∃ a s₁, x s = .ok a s₁ ∧ f a s₁ = .error c s' := by
  show EStateM.bind x f s = _ ↔ _
  unfold EStateM.bind
  cases x s with
  | ok a s₁ =>
    constructor
    · intro h
      exact .inr ⟨a, s₁, rfl, h⟩
    · rintro (h | ⟨_, _, h, hf⟩)
      · cases h
      · cases h
        exact hf
  | error c s₁ => simp

theorem pure_ok_iff {a b : α} : (pure a : Exec α) s = .ok b s' ↔ b = a ∧ s' = s := by
  show EStateM.Result.ok a s = _ ↔ _
  grind

theorem get_ok_iff {a : State} : (get : Exec State) s = .ok a s' ↔ a = s ∧ s' = s := by
  show EStateM.Result.ok s s = _ ↔ _
  grind

theorem throw_ok_iff {c : Cause} {a : α} : (throw c : Exec α) s = .ok a s' ↔ False := by
  show EStateM.Result.error c s = _ ↔ _
  simp

theorem ite_ok_iff {c : Prop} [Decidable c] {x y : Exec α} {a : α} :
    (if c then x else y) s = .ok a s' ↔ (c ∧ x s = .ok a s') ∨ (¬c ∧ y s = .ok a s') := by
  split <;> simp [*]

/-- An instruction that writes nothing. -/
theorem silent_ok_iff {x : Exec Unit} {out : Option String} :
    (do x; return none : Exec (Option String)) s = .ok out s' ↔ out = none ∧ x s = .ok () s' := by
  simp only [bind_ok_iff, pure_ok_iff]
  constructor
  · rintro ⟨_, s₁, hx, rfl, rfl⟩
    exact ⟨rfl, hx⟩
  · rintro ⟨rfl, hx⟩
    exact ⟨(), s', hx, rfl, rfl⟩

/-! ## Elementary actions -/

theorem push_ok_iff {w : Int64} : push w s = .ok u s' ↔
    s.top < s.stack.size ∧
      s' = { s with stack := s.stack.setIfInBounds s.top w, top := s.top + 1 } := by
  unfold push
  split <;> grind

theorem pop_ok_iff {w : Int64} : pop s = .ok w s' ↔
    0 < s.top ∧ w = s.word (s.top - 1) ∧ s' = { s with top := s.top - 1 } := by
  unfold pop State.word
  split <;> grind

theorem setTop_ok_iff {top : Int} : setTop top s = .ok u s' ↔
    0 ≤ top ∧ top ≤ s.stack.size ∧ s' = { s with top := top.toNat } := by
  unfold setTop
  split
  · grind
  · split <;> grind

theorem cell_ok_iff {address : Int} {index : Nat} : cell address s = .ok index s' ↔
    s.HasCell address ∧ index = address.toNat ∧ s' = s := by
  unfold cell State.HasCell
  split <;> grind

theorem read_ok_iff {index : Nat} {w : Int64} : read index s = .ok w s' ↔
    w = s.word index ∧ s' = s := by
  unfold read State.word
  grind

theorem write_ok_iff {index : Nat} {w : Int64} : write index w s = .ok u s' ↔
    s' = { s with stack := s.stack.setIfInBounds index w } := by
  unfold write
  grind

theorem level_ok_iff {level : Int} {index : Nat} : Exec.level level s = .ok index s' ↔
    s.HasLevel level ∧ index = level.toNat ∧ s' = s := by
  unfold Exec.level State.HasLevel
  split <;> grind

theorem frame_ok_iff {level : Nat} {w : Int64} : frame level s = .ok w s' ↔
    w = s.frame level ∧ s' = s := by
  unfold frame State.frame
  grind

theorem setFrame_ok_iff {level : Nat} {w : Int64} : setFrame level w s = .ok u s' ↔
    s' = { s with display := s.display.setIfInBounds level w } := by
  unfold setFrame
  grind

theorem jump_ok_iff {position : Int} : jump position s = .ok u s' ↔
    0 ≤ position ∧ s' = { s with pc := position.toNat } := by
  unfold jump
  split <;> grind

theorem address_ok_iff {level offset : Int16} {a : Int} : address level offset s = .ok a s' ↔
    s.HasLevel level.toInt ∧ (int64? (s.addressOf level offset)).isSome ∧
      a = s.addressOf level offset ∧ s' = s := by
  simp only [address, bind_ok_iff, level_ok_iff, frame_ok_iff, ite_ok_iff, pure_ok_iff,
    throw_ok_iff, and_assoc, exists_and_left, exists_eq_left, and_false, or_false]
  exact Iff.rfl

/-! ## Arithmetic -/

theorem unary_ok_iff {f : Int64 → Int64} : unary f s = .ok u s' ↔
    0 < s.top ∧ s.top ≤ s.stack.size ∧
      s' = { s with stack := s.stack.setIfInBounds (s.top - 1) (f (s.word (s.top - 1))) } := by
  simp only [unary, bind_ok_iff, pop_ok_iff, push_ok_iff, and_assoc, exists_and_left,
    exists_eq_left]
  grind

theorem binary_ok_iff {f : Int64 → Int64 → Int64} : binary f s = .ok u s' ↔
    1 < s.top ∧ s.top ≤ s.stack.size + 1 ∧
      s' = { s with
        stack := s.stack.setIfInBounds (s.top - 2) (f (s.word (s.top - 2)) (s.word (s.top - 1)))
        top := s.top - 1 } := by
  simp only [binary, bind_ok_iff, pop_ok_iff, push_ok_iff, and_assoc, exists_and_left,
    exists_eq_left]
  grind [State.word]

theorem divide_ok_iff : divide s = .ok u s' ↔
    1 < s.top ∧ s.word (s.top - 1) ≠ 0 ∧ s.top ≤ s.stack.size + 1 ∧
      s' = { s with
        stack := s.stack.setIfInBounds (s.top - 2) (s.word (s.top - 2) / s.word (s.top - 1))
        top := s.top - 1 } := by
  simp only [divide, bind_ok_iff, pop_ok_iff, push_ok_iff, ite_ok_iff, throw_ok_iff, and_assoc,
    exists_and_left, exists_eq_left, exists_const, false_and, exists_false, and_false, false_or]
  grind [State.word]

/-! ## Memory -/

theorem load_ok_iff {level offset : Int16} : load level offset s = .ok u s' ↔
    s.HasLevel level.toInt ∧ (int64? (s.addressOf level offset)).isSome ∧
      s.HasCell (s.addressOf level offset) ∧ s.top < s.stack.size ∧
      s' = { s with
        stack := s.stack.setIfInBounds s.top (s.word (s.addressOf level offset).toNat)
        top := s.top + 1 } := by
  simp only [load, bind_ok_iff, address_ok_iff, cell_ok_iff, read_ok_iff, push_ok_iff, and_assoc,
    exists_and_left, exists_eq_left]

theorem loadAddress_ok_iff {level offset : Int16} : loadAddress level offset s = .ok u s' ↔
    s.HasLevel level.toInt ∧ (int64? (s.addressOf level offset)).isSome ∧
      s.top < s.stack.size ∧
      s' = { s with
        stack := s.stack.setIfInBounds s.top (Int64.ofInt (s.addressOf level offset))
        top := s.top + 1 } := by
  simp only [loadAddress, bind_ok_iff, address_ok_iff, push_ok_iff, and_assoc, exists_and_left,
    exists_eq_left]

theorem store_ok_iff {level offset : Int16} : store level offset s = .ok u s' ↔
    0 < s.top ∧ s.HasLevel level.toInt ∧ (int64? (s.addressOf level offset)).isSome ∧
      s.HasCell (s.addressOf level offset) ∧
      s' = { s with
        stack := s.stack.setIfInBounds (s.addressOf level offset).toNat (s.word (s.top - 1))
        top := s.top - 1 } := by
  simp only [store, bind_ok_iff, pop_ok_iff, address_ok_iff, cell_ok_iff, write_ok_iff, and_assoc,
    exists_and_left, exists_eq_left]
  exact Iff.rfl

theorem loadIndirect_ok_iff : loadIndirect s = .ok u s' ↔
    0 < s.top ∧ s.HasCell (s.word (s.top - 1)).toInt ∧ s.top ≤ s.stack.size ∧
      s' = { s with
        stack := s.stack.setIfInBounds (s.top - 1)
          (s.word (s.word (s.top - 1)).toInt.toNat) } := by
  simp only [loadIndirect, bind_ok_iff, pop_ok_iff, cell_ok_iff, read_ok_iff, push_ok_iff,
    and_assoc, exists_and_left, exists_eq_left]
  grind [State.word, State.HasCell]

theorem storeIndirect_ok_iff : storeIndirect s = .ok u s' ↔
    1 < s.top ∧ s.HasCell (s.word (s.top - 2)).toInt ∧
      s' = { s with
        stack := s.stack.setIfInBounds (s.word (s.top - 2)).toInt.toNat (s.word (s.top - 1))
        top := s.top - 2 } := by
  simp only [storeIndirect, bind_ok_iff, pop_ok_iff, cell_ok_iff, write_ok_iff, and_assoc,
    exists_and_left, exists_eq_left]
  constructor
  · rintro ⟨-, htop, hc, rfl⟩
    exact ⟨by omega, hc, rfl⟩
  · rintro ⟨htop, hc, rfl⟩
    exact ⟨by omega, by omega, hc, rfl⟩

theorem moveTop_ok_iff {distance : Int} : moveTop distance s = .ok u s' ↔
    0 ≤ s.top + distance ∧ s.top + distance ≤ s.stack.size ∧
      s' = { s with top := (s.top + distance).toNat } := by
  simp only [moveTop, bind_ok_iff, get_ok_iff, setTop_ok_iff, and_assoc, exists_and_left,
    exists_eq_left]

/-! ## Control -/

theorem jumpIfZero_ok_iff {position : Int} : jumpIfZero position s = .ok u s' ↔
    0 < s.top ∧
      (s.word (s.top - 1) = 0 ∧ 0 ≤ position ∧
          s' = { s with top := s.top - 1, pc := position.toNat } ∨
        s.word (s.top - 1) ≠ 0 ∧ s' = { s with top := s.top - 1 }) := by
  simp only [jumpIfZero, bind_ok_iff, pop_ok_iff, ite_ok_iff, jump_ok_iff, pure_ok_iff, and_assoc,
    exists_and_left, exists_eq_left]
  grind

/-- **A call.** The word that the display held for the callee's level and the position after the
call go to the two cells above the top; the display gets the top. -/
theorem openFrame_ok_iff {level position : Int16} : openFrame level position s = .ok u s' ↔
    s.HasLevel (level.toInt + 1) ∧ s.top + 2 ≤ s.stack.size ∧ 0 ≤ position.toInt ∧
      s' = { s with
        stack := (s.stack.setIfInBounds s.top (s.frame (level.toInt + 1))).setIfInBounds
          (s.top + 1) (Int64.ofNat s.pc)
        display := s.display.setIfInBounds (level.toInt + 1).toNat (Int64.ofNat s.top)
        pc := position.toInt.toNat } := by
  simp only [openFrame, bind_ok_iff, level_ok_iff, get_ok_iff, ite_ok_iff, throw_ok_iff,
    frame_ok_iff, write_ok_iff, setFrame_ok_iff, jump_ok_iff, and_assoc, exists_and_left,
    exists_eq_left, exists_const, false_and, exists_false, and_false, false_or, Nat.not_lt]
  exact Iff.rfl

/-- **A return.** The two header cells of the frame give the display word back and the position to
go on at; the word on top goes below them, where the first argument was. -/
theorem closeFrame_ok_iff {level arguments : Int16} : closeFrame level arguments s = .ok u s' ↔
    s.HasLevel level.toInt ∧ 0 < s.top ∧ s.HasCell (s.base level) ∧ s.HasCell (s.base level + 1) ∧
      0 ≤ (s.word ((s.base level).toNat + 1)).toInt ∧
      s.HasCell (s.base level - arguments.toInt) ∧
      s' = { s with
        stack := s.stack.setIfInBounds (s.base level - arguments.toInt).toNat (s.word (s.top - 1))
        display := s.display.setIfInBounds level.toInt.toNat (s.word (s.base level).toNat)
        top := (s.base level - arguments.toInt).toNat + 1
        pc := (s.word ((s.base level).toNat + 1)).toInt.toNat } := by
  simp only [closeFrame, bind_ok_iff, level_ok_iff, pop_ok_iff, frame_ok_iff, cell_ok_iff,
    read_ok_iff, setTop_ok_iff, setFrame_ok_iff, jump_ok_iff, push_ok_iff, and_assoc,
    exists_and_left, exists_eq_left, exists_const]
  -- Every condition is about the state before, with the base as a natural number.
  simp only [State.HasCell, State.word, State.base, State.frame, Int.toNat_natCast]
  generalize (s.display.getD level.toInt.toNat 0).toInt = base
  constructor
  · rintro ⟨hl, htop, ⟨hb, hb'⟩, hr, -, -, hp, hn, -, hroom, rfl⟩
    obtain ⟨b, rfl⟩ := Int.eq_ofNat_of_zero_le hb
    simp only [Int.toNat_natCast, Int.toNat_natCast_add_one] at *
    exact ⟨hl, htop, ⟨hb, hb'⟩, hr, hp, ⟨hn, by omega⟩, trivial⟩
  · rintro ⟨hl, htop, ⟨hb, hb'⟩, hr, hp, ⟨hn, hroom⟩, rfl⟩
    obtain ⟨b, rfl⟩ := Int.eq_ofNat_of_zero_le hb
    simp only [Int.toNat_natCast, Int.toNat_natCast_add_one] at *
    exact ⟨hl, htop, ⟨hb, hb'⟩, hr, hb, by omega, hp, hn, by omega, by omega, trivial⟩

end Exec

end PCode
