import Mathlib.Algebra.Group.Int.Defs
import Mathlib.Algebra.Group.Nat.Defs
import PCode.Proofs.Machine.Action

/-!
# Actions that go by conditions

An action works through a list of conditions. It succeeds if all of them hold, and else stops at the
first that does not: with the cause that belongs to this condition, and in a state that shows how
far the action has come. `Exec.Guarded` says this of an action, in a given state. The conditions are
about integers, so no sum in them wraps.

* `Guarded.append`, `Guarded.bind`, `Guarded.pass`: the conditions of a sequence are those of its
  parts, one after the other.
* `guarded_cellAt`: that a sum of a base and an offset fits a word need not be a condition of its
  own where a cell is asked for.
* `guarded_openFrame`, `guarded_closeFrame`: the conditions of a call and of a return.
-/

namespace PCode

/-- Something that has to hold for an instruction to go on. -/
structure Condition where
  /-- It holds. -/
  holds : Bool
  /-- Why the instruction stops if it does not. -/
  cause : Cause
  /-- The state that the instruction then leaves. -/
  left : State

namespace Condition

/-- There is a word on the stack. -/
def live (s : State) : Condition := ⟨0 < s.top, .stackUnderflow, s⟩

/-- There is room for one more word on the stack. -/
def room (s : State) : Condition := ⟨s.top < s.stack.size, .stackOverflow, s⟩

/-- The top does not move below the stack. -/
def notBelow (top : Int) (s : State) : Condition := ⟨0 ≤ top, .stackUnderflow, s⟩

/-- The top does not move above the stack. -/
def notAbove (top : Int) (s : State) : Condition := ⟨top ≤ s.stack.size, .stackOverflow, s⟩

/-- The display has a word for the level. -/
def level (level : Int) (s : State) : Condition :=
  ⟨0 ≤ level ∧ level < s.display.size, .levelOutOfRange level, s⟩

/-- The stack has a cell at the address. -/
def cell (address : Int) (s : State) : Condition :=
  ⟨0 ≤ address ∧ address < s.stack.size, .addressOutOfRange address, s⟩

/-- The stack has a cell at the sum of a base and an offset. The sum may be one that fits no word,
and is then reported as the nearest number that does. -/
def cellAt (sum : Int) (s : State) : Condition :=
  ⟨0 ≤ sum ∧ sum < s.stack.size, .addressOutOfRange (clamp64 sum), s⟩

/-- The sum of a base and an offset fits a word. -/
def fits (sum : Int) (s : State) : Condition :=
  ⟨-2 ^ 63 ≤ sum ∧ sum < 2 ^ 63, .addressOutOfRange (clamp64 sum), s⟩

/-- The position to go on at is not negative. -/
def target (position : Int) (s : State) : Condition :=
  ⟨0 ≤ position, .programCounterOutOfRange position, s⟩

/-- The first of the conditions that does not hold. -/
def firstFailing (conditions : List Condition) : Option Condition := conditions.find? (!·.holds)

/-- The cause to stop with, and the state that is left. -/
def stop? (conditions : List Condition) : Option (Cause × State) :=
  (firstFailing conditions).map fun condition => (condition.cause, condition.left)

@[simp] theorem stop?_nil : stop? [] = none := rfl

theorem stop?_cons (c : Condition) (cs : List Condition) :
    stop? (c :: cs) = if c.holds then stop? cs else some (c.cause, c.left) := by
  unfold stop? firstFailing
  cases hc : c.holds <;> simp [hc]

theorem stop?_of_holds {c : Condition} (h : c.holds = true) (cs : List Condition) :
    stop? (c :: cs) = stop? cs := by
  rw [stop?_cons, if_pos h]

theorem stop?_of_fails {c : Condition} (h : c.holds = false) (cs : List Condition) :
    stop? (c :: cs) = some (c.cause, c.left) := by
  rw [stop?_cons, if_neg (Bool.eq_false_iff.mp h)]

theorem stop?_append (cs ds : List Condition) : stop? (cs ++ ds) = (stop? cs).or (stop? ds) := by
  induction cs with
  | nil => rfl
  | cons c cs ih =>
    rw [List.cons_append, stop?_cons, stop?_cons, ih]
    split <;> rfl

/-- A number that a cell has as its address fits a word, and one that does not fit is no address. -/
theorem stop?_fits_cell {sum : Int} {s : State} (hsize : s.stack.size < 2 ^ 63)
    (cs : List Condition) :
    stop? (fits sum s :: cell sum s :: cs) = stop? (cellAt sum s :: cs) := by
  by_cases hcell : 0 ≤ sum ∧ sum < s.stack.size
  · have hfits : -2 ^ 63 ≤ sum ∧ sum < 2 ^ 63 := by omega
    rw [stop?_of_holds (decide_eq_true hfits), stop?_of_holds (decide_eq_true hcell),
      stop?_of_holds (decide_eq_true hcell)]
  · rw [stop?_of_fails (c := cellAt sum s) (decide_eq_false hcell)]
    by_cases hfits : -2 ^ 63 ≤ sum ∧ sum < 2 ^ 63
    · have hclamp : clamp64 sum = sum := by
        unfold clamp64
        omega
      rw [stop?_of_holds (decide_eq_true hfits), stop?_of_fails (decide_eq_false hcell), cellAt,
        hclamp]
      rfl
    · rw [stop?_of_fails (decide_eq_false hfits)]
      rfl

theorem firstFailing_eq_none_iff {conditions : List Condition} :
    firstFailing conditions = none ↔ ∀ c ∈ conditions, c.holds := by
  simp [firstFailing]

end Condition

open Condition

/-! ## Halfway -/

namespace State

/-- The state without the word on top. -/
def popped (s : State) : State := { s with top := s.top - 1 }

/-- The state in which a call jumps: the header of the frame one level inside the given one is
written, and the display refers to it. -/
def opened (s : State) (level : Int) : State :=
  { s with
    stack := (s.stack.setIfInBounds s.top (s.frame (level + 1))).setIfInBounds (s.top + 1)
      (Int64.ofNat s.pc)
    display := s.display.setIfInBounds (level + 1).toNat (Int64.ofNat s.top) }

/-- The position that the frame of a level returns to. -/
def returnTo (s : State) (level : Int16) : Int := (s.word ((s.base level).toNat + 1)).toInt

/-- The state in which a return jumps: the top is at the frame, and the display holds again what the
frame has saved. -/
def closed (s : State) (level : Int16) : State :=
  { s with
    top := (s.base level).toNat
    display := s.display.setIfInBounds level.toInt.toNat (s.word (s.base level).toNat) }

/-- The state in which a return drops the arguments. -/
def returned (s : State) (level : Int16) : State :=
  { s.closed level with pc := (s.returnTo level).toNat }

end State

/-! ## Actions -/

namespace Exec

variable {α β : Type} {s : State} {c d : Condition} {cs ds : List Condition}

/-- The cause that an action has stopped with, and the state that it has left. -/
def stop? : EStateM.Result Cause State α → Option (Cause × State)
  | .ok _ _ => none
  | .error cause left => some (cause, left)

/-- The action stops at the first of the conditions that does not hold, and nowhere else. -/
def Guarded (x : Exec α) (s : State) (conditions : List Condition) : Prop :=
  stop? (x s) = Condition.stop? conditions

namespace Guarded

/-- Two actions one after the other go by their conditions one after the other. -/
theorem append {x : Exec α} {f : α → Exec β} (hx : Guarded x s cs)
    (hf : ∀ a s', x s = .ok a s' → Guarded (f a) s' ds) : Guarded (x >>= f) s (cs ++ ds) := by
  unfold Guarded at hx ⊢
  rw [stop?_append, ← hx]
  show stop? (EStateM.bind x f s) = _
  unfold EStateM.bind
  cases h : x s with
  | ok a s' => exact hf a s' h
  | error cause left => rfl

theorem bind {x : Exec α} {f : α → Exec β} (hx : Guarded x s [c])
    (hf : ∀ a s', x s = .ok a s' → Guarded (f a) s' cs) : Guarded (x >>= f) s (c :: cs) :=
  append hx hf

theorem bind₂ {x : Exec α} {f : α → Exec β} (hx : Guarded x s [c, d])
    (hf : ∀ a s', x s = .ok a s' → Guarded (f a) s' cs) : Guarded (x >>= f) s (c :: d :: cs) :=
  append hx hf

/-- An action that succeeds adds no condition. -/
theorem pass {x : Exec α} {f : α → Exec β} {a : α} {s' : State} (hx : x s = .ok a s')
    (hf : Guarded (f a) s' cs) : Guarded (x >>= f) s cs := by
  unfold Guarded
  show stop? (EStateM.bind x f s) = _
  unfold EStateM.bind
  rw [hx]
  exact hf

theorem of_ok {x : Exec α} {a : α} {s' : State} (h : x s = .ok a s') : Guarded x s [] := by
  unfold Guarded
  rw [h]
  rfl

/-- An action that looks at one condition and does nothing before. -/
theorem of_ite {P : Prop} [Decidable P] {x : Exec α} {a : α} {s' left : State} {cause : Cause}
    (h : x s = if P then .ok a s' else .error cause left) : Guarded x s [⟨P, cause, left⟩] := by
  unfold Guarded
  rw [h]
  by_cases hP : P
  · rw [if_pos hP, stop?_of_holds (decide_eq_true hP)]
    rfl
  · rw [if_neg hP, stop?_of_fails (decide_eq_false hP)]
    rfl

theorem throw (cause : Cause) (rest : List Condition) :
    Guarded (MonadExcept.throw cause : Exec α) s (⟨false, cause, s⟩ :: rest) := rfl

/-- A condition that holds can be left out. -/
theorem cons {x : Exec α} (hc : c.holds) (h : Guarded x s cs) : Guarded x s (c :: cs) := by
  unfold Guarded
  rw [stop?_cons, if_pos hc]
  exact h

theorem map {x : Exec α} (h : Guarded x s cs) (f : α → β) :
    Guarded (x >>= fun a => pure (f a)) s cs := by
  have hmap := h.append fun a s' _ => of_ok (x := (pure (f a) : Exec β)) rfl
  rwa [List.append_nil] at hmap

theorem silent {x : Exec Unit} (h : Guarded x s cs) :
    Guarded (do x; return none : Exec (Option String)) s cs :=
  h.map fun _ => none

/-- How the action stops. -/
theorem error_of_firstFailing {x : Exec α} (h : Guarded x s cs)
    (hfirst : firstFailing cs = some c) : x s = .error c.cause c.left := by
  unfold Guarded Condition.stop? at h
  rw [hfirst] at h
  cases hx : x s with
  | ok a s' =>
    rw [hx] at h
    cases h
  | error cause left =>
    rw [hx] at h
    cases h
    rfl

theorem ok_of_firstFailing {x : Exec α} (h : Guarded x s cs) (hfirst : firstFailing cs = none) :
    ∃ a s', x s = .ok a s' := by
  unfold Guarded Condition.stop? at h
  rw [hfirst] at h
  cases hx : x s with
  | ok a s' => exact ⟨a, s', rfl⟩
  | error cause left =>
    rw [hx] at h
    cases h

end Guarded

/-! ### Elementary actions -/

theorem guarded_push (word : Int64) : Guarded (push word) s [Condition.room s] := .of_ite rfl

theorem guarded_push_of_room (word : Int64) (h : s.top < s.stack.size) : Guarded (push word) s [] :=
  .of_ok (a := ()) (push_ok_iff.mpr ⟨h, rfl⟩)

theorem guarded_pop : Guarded pop s [live s] := by
  unfold Guarded pop
  rw [stop?_cons]
  cases h : s.top <;> simp [live, h, stop?]

theorem guarded_setTop (top : Int) : Guarded (setTop top) s [notBelow top s, notAbove top s] := by
  unfold Guarded setTop
  by_cases hbelow : top < 0
  · rw [if_pos hbelow, stop?_of_fails (decide_eq_false (Int.not_le.mpr hbelow))]
    rfl
  · rw [if_neg hbelow, stop?_of_holds (decide_eq_true (Int.not_lt.mp hbelow))]
    by_cases habove : s.stack.size < top
    · rw [if_pos habove, stop?_of_fails (decide_eq_false (Int.not_le.mpr habove))]
      rfl
    · rw [if_neg habove, stop?_of_holds (decide_eq_true (Int.not_lt.mp habove))]
      rfl

theorem guarded_cell (address : Int) : Guarded (cell address) s [Condition.cell address s] :=
  .of_ite rfl

theorem guarded_level (level : Int) : Guarded (Exec.level level) s [Condition.level level s] :=
  .of_ite rfl

theorem guarded_jump (position : Int) : Guarded (jump position) s [target position s] := by
  have hjump : jump position s =
      if 0 ≤ position then .ok () { s with pc := position.toNat }
      else .error (.programCounterOutOfRange position) s := by
    unfold jump
    simp only [← Int.not_le, ite_not]
  exact .of_ite hjump

/-! ### Arithmetic -/

theorem guarded_unary (f : Int64 → Int64) (htop : s.top ≤ s.stack.size) :
    Guarded (unary f) s [live s] := by
  refine guarded_pop.bind fun word s' h => ?_
  obtain ⟨hlive, rfl, rfl⟩ := pop_ok_iff.mp h
  exact guarded_push_of_room _ (by dsimp only; omega)

theorem guarded_binary (f : Int64 → Int64 → Int64) (htop : s.top ≤ s.stack.size) :
    Guarded (binary f) s [live s, live s.popped] := by
  refine guarded_pop.bind fun right s' h => ?_
  obtain ⟨hlive, rfl, rfl⟩ := pop_ok_iff.mp h
  refine guarded_pop.bind fun left s' h => ?_
  obtain ⟨hlive', rfl, rfl⟩ := pop_ok_iff.mp h
  exact guarded_push_of_room _ (by dsimp only at hlive' ⊢; omega)

theorem guarded_divide (htop : s.top ≤ s.stack.size) :
    Guarded divide s [live s, live s.popped,
      ⟨s.word (s.top - 1) ≠ 0, .divisionByZero, s.popped.popped⟩] := by
  refine guarded_pop.bind fun divisor s' h => ?_
  obtain ⟨hlive, rfl, rfl⟩ := pop_ok_iff.mp h
  refine guarded_pop.bind fun dividend s' h => ?_
  obtain ⟨hlive', rfl, rfl⟩ := pop_ok_iff.mp h
  by_cases hzero : s.word (s.top - 1) = 0
  · rw [if_pos hzero, decide_eq_false (not_not_intro hzero)]
    rfl
  · rw [if_neg hzero]
    refine .cons (decide_eq_true hzero) ?_
    exact guarded_push_of_room _ (by dsimp only at hlive' ⊢; omega)

/-! ### Memory -/

theorem guarded_address (level offset : Int16) : Guarded (address level offset) s
    [Condition.level level.toInt s, fits (s.addressOf level offset) s] := by
  refine (guarded_level level.toInt).bind fun index s' h => ?_
  obtain ⟨hlevel, rfl, rfl⟩ := level_ok_iff.mp h
  refine .pass rfl ?_
  show Guarded (if (int64? (s'.addressOf level offset)).isSome then
    pure (s'.addressOf level offset) else
    throw (.addressOutOfRange (clamp64 (s'.addressOf level offset)))) s' _
  have hfits := int64?_isSome_iff (s'.addressOf level offset)
  by_cases h : (int64? (s'.addressOf level offset)).isSome
  · have hrange := hfits.mp h
    rw [if_pos h]
    exact .cons (decide_eq_true (by omega)) (.of_ok rfl)
  · have hrange := mt hfits.mpr h
    rw [if_neg h, fits, decide_eq_false (by omega)]
    rfl

/-- What goes on at the cell of a level and an offset. The sum is looked at twice, first whether it
fits a word and then whether there is a cell, which is the stronger condition. -/
theorem guarded_cellAt {level offset : Int16} {f : Nat → Exec α} (hsize : s.stack.size < 2 ^ 63)
    (hf : Guarded (f (s.addressOf level offset).toNat) s cs) :
    Guarded (address level offset >>= fun a => cell a >>= f) s
      (Condition.level level.toInt s :: cellAt (s.addressOf level offset) s :: cs) := by
  have hguarded : Guarded (address level offset >>= fun a => cell a >>= f) s
      (Condition.level level.toInt s :: fits (s.addressOf level offset) s ::
        Condition.cell (s.addressOf level offset) s :: cs) := by
    refine (guarded_address level offset).bind₂ fun a s' h => ?_
    obtain ⟨-, -, rfl, rfl⟩ := address_ok_iff.mp h
    refine (guarded_cell _).bind fun index s' h => ?_
    obtain ⟨-, rfl, rfl⟩ := cell_ok_iff.mp h
    exact hf
  refine hguarded.trans ?_
  rw [stop?_cons, stop?_fits_cell hsize, ← stop?_cons]

theorem guarded_load (level offset : Int16) (hsize : s.stack.size < 2 ^ 63) :
    Guarded (load level offset) s [Condition.level level.toInt s,
      cellAt (s.addressOf level offset) s, room s] := by
  refine guarded_cellAt hsize ?_
  exact .pass rfl (guarded_push _)

theorem guarded_loadAddress (level offset : Int16) :
    Guarded (loadAddress level offset) s [Condition.level level.toInt s,
      fits (s.addressOf level offset) s, room s] := by
  refine (guarded_address level offset).bind₂ fun a s' h => ?_
  obtain ⟨-, -, rfl, rfl⟩ := address_ok_iff.mp h
  exact guarded_push _

theorem guarded_store (level offset : Int16) (hsize : s.stack.size < 2 ^ 63) :
    Guarded (store level offset) s [live s, Condition.level level.toInt s.popped,
      cellAt (s.addressOf level offset) s.popped] := by
  refine guarded_pop.bind fun word s' h => ?_
  obtain ⟨-, rfl, rfl⟩ := pop_ok_iff.mp h
  exact guarded_cellAt (s := s.popped) hsize (.of_ok rfl)

theorem guarded_loadIndirect (htop : s.top ≤ s.stack.size) : Guarded loadIndirect s
    [live s, Condition.cell (s.word (s.top - 1)).toInt s.popped] := by
  refine guarded_pop.bind fun a s' h => ?_
  obtain ⟨hlive, rfl, rfl⟩ := pop_ok_iff.mp h
  refine (guarded_cell _).bind fun index s' h => ?_
  obtain ⟨-, rfl, rfl⟩ := cell_ok_iff.mp h
  refine .pass rfl ?_
  exact guarded_push_of_room _ (by dsimp only; omega)

theorem guarded_storeIndirect : Guarded storeIndirect s [live s, live s.popped,
    Condition.cell (s.word (s.top - 2)).toInt s.popped.popped] := by
  refine guarded_pop.bind fun word s' h => ?_
  obtain ⟨-, rfl, rfl⟩ := pop_ok_iff.mp h
  refine guarded_pop.bind fun a s' h => ?_
  obtain ⟨-, rfl, rfl⟩ := pop_ok_iff.mp h
  refine (guarded_cell _).bind fun index s' h => ?_
  exact .of_ok rfl

theorem guarded_moveTop (distance : Int) : Guarded (moveTop distance) s
    [notBelow (s.top + distance) s, notAbove (s.top + distance) s] :=
  .pass rfl (guarded_setTop _)

/-! ### Control -/

theorem guarded_jumpIfZero (position : Int) : Guarded (jumpIfZero position) s
    [live s, ⟨s.word (s.top - 1) = 0 → 0 ≤ position, .programCounterOutOfRange position,
      s.popped⟩] := by
  refine guarded_pop.bind fun word s' h => ?_
  obtain ⟨-, rfl, rfl⟩ := pop_ok_iff.mp h
  by_cases hzero : s.word (s.top - 1) = 0
  · rw [if_pos hzero]
    have hiff : (s.word (s.top - 1) = 0 → 0 ≤ position) ↔ 0 ≤ position := imp_iff_right hzero
    rw [decide_eq_decide.mpr hiff]
    exact guarded_jump position
  · rw [if_neg hzero]
    exact .cons (decide_eq_true fun h => absurd h hzero) (.of_ok rfl)

theorem guarded_openFrame (level position : Int16) : Guarded (openFrame level position) s
    [Condition.level (level.toInt + 1) s, ⟨s.top + 2 ≤ s.stack.size, .stackOverflow, s⟩,
      target position.toInt (s.opened level.toInt)] := by
  refine (guarded_level _).bind fun callee s' h => ?_
  obtain ⟨-, rfl, rfl⟩ := level_ok_iff.mp h
  refine .pass rfl (.pass rfl ?_)
  by_cases hroom : s'.top + 2 ≤ s'.stack.size
  · rw [if_neg (Nat.not_lt.mpr hroom)]
    refine .cons (decide_eq_true hroom) (.pass rfl ?_)
    refine .pass rfl (.pass rfl ?_)
    refine .pass rfl (.pass rfl ?_)
    exact guarded_jump _
  · rw [if_pos (Nat.not_le.mp hroom), decide_eq_false hroom]
    rfl

theorem guarded_closeFrame (level arguments : Int16) : Guarded (closeFrame level arguments) s
    [Condition.level level.toInt s, live s, Condition.cell (s.base level) s.popped,
      Condition.cell (s.base level + 1) s.popped,
      target (s.returnTo level) (s.closed level),
      notBelow (s.base level - arguments.toInt) (s.returned level),
      notAbove (s.base level - arguments.toInt) (s.returned level),
      room { s.returned level with top := (s.base level - arguments.toInt).toNat }] := by
  refine (guarded_level _).bind fun callee s' h => ?_
  obtain ⟨-, rfl, hs⟩ := level_ok_iff.mp h
  subst s'
  refine guarded_pop.bind fun word s' h => ?_
  obtain ⟨-, rfl, rfl⟩ := pop_ok_iff.mp h
  refine .pass (a := s.frame level.toInt) rfl ?_
  refine (guarded_cell (s.base level)).bind fun base s' h => ?_
  obtain ⟨hbase, rfl, rfl⟩ := cell_ok_iff.mp h
  have hbase' : ((s.base level).toNat : Int) = s.base level := Int.toNat_of_nonneg hbase.1
  rw [hbase']
  refine (guarded_cell (s.base level + 1)).bind fun index s' h => ?_
  obtain ⟨hnext, rfl, rfl⟩ := cell_ok_iff.mp h
  have hindex : (s.base level + 1).toNat = (s.base level).toNat + 1 :=
    Int.toNat_add hbase.1 Int.one_nonneg
  rw [hindex]
  refine .pass rfl ?_
  refine .pass (a := ()) (setTop_ok_iff.mpr ⟨hbase.1, Int.le_of_lt hbase.2, rfl⟩) ?_
  refine .pass rfl (.pass rfl ?_)
  refine (guarded_jump (s.returnTo level)).bind fun _ s' h => ?_
  obtain ⟨-, rfl⟩ := jump_ok_iff.mp h
  refine (guarded_setTop _).bind₂ fun _ s' h => ?_
  obtain ⟨-, -, rfl⟩ := setTop_ok_iff.mp h
  exact guarded_push _

end Exec

end PCode
