import Mathlib.Algebra.Group.Nat.Defs
import PCode.Proofs.Machine.Run

/-!
# The display and the open frames

The frames that a run has opened and not yet closed form a stack: a call puts one on it and a return
takes one off. The machine has no such stack. It has one display word for each level, and it keeps
the word that a call replaces in a cell that the program can overwrite.

A return is *in order* if it names the level of the innermost open frame and finds the header of
that frame as the call wrote it. As long as returns are in order, nothing is lost:

* `displayOf levels frames`: the display that a stack of frames stands for; the word of a level is
  the base of the innermost open frame of the level, and zero if there is none.
* `display_refines_openFrames`: after every step the display is the one that the open frames stand
  for, and every return brings back the display that its call found.
-/

namespace PCode

/-! ## Stacks of frames -/

/-- A frame that has been opened and not yet closed. -/
structure OpenFrame where
  /-- The lexical level of the frame. -/
  level : Nat
  /-- The address of the frame. -/
  base : Nat
  /-- The position to return to. -/
  returnPosition : Nat
  /-- The display word that opening the frame replaced. -/
  saved : Int64
  /-- The whole display just before the frame was opened. -/
  display : Array Int64

namespace OpenFrame

/-- The frame that is open at the start. -/
def outermost (s : State) : OpenFrame where
  level := 0
  base := 0
  returnPosition := 0
  saved := 0
  display := s.display

/-- The frame that a call from a level opens, given the state before the call. -/
def ofCall (s : State) (level : Int16) : OpenFrame where
  level := (level.toInt + 1).toNat
  base := s.top
  returnPosition := s.pc + 1
  saved := s.frame (level.toInt + 1)
  display := s.display

/-- The two cells of the frame's header still hold what opening the frame wrote there. -/
def Intact (f : OpenFrame) (s : State) : Prop :=
  s.word f.base = f.saved ∧ s.word (f.base + 1) = Int64.ofNat f.returnPosition

instance (f : OpenFrame) (s : State) : Decidable (f.Intact s) :=
  inferInstanceAs (Decidable (_ ∧ _))

end OpenFrame

/-- The base of the innermost frame of a level, and zero if there is none. -/
def frameWord (frames : List OpenFrame) (level : Nat) : Int64 :=
  match frames.find? (·.level == level) with
  | some f => Int64.ofNat f.base
  | none => 0

/-- The display that a stack of frames stands for. -/
def displayOf (levels : Nat) (frames : List OpenFrame) : Array Int64 :=
  Array.ofFn fun level : Fin levels => frameWord frames level

@[simp] theorem frameWord_nil (level : Nat) : frameWord [] level = 0 := rfl

theorem frameWord_cons (f : OpenFrame) (frames : List OpenFrame) (level : Nat) :
    frameWord (f :: frames) level =
      if f.level = level then Int64.ofNat f.base else frameWord frames level := by
  unfold frameWord
  rw [List.find?_cons]
  by_cases h : f.level = level
  · simp [h]
  · have hne : (f.level == level) = false := beq_false_of_ne h
    simp [h, hne]

@[simp] theorem size_displayOf (levels : Nat) (frames : List OpenFrame) :
    (displayOf levels frames).size = levels := by
  simp [displayOf]

theorem getD_displayOf {levels level : Nat} (h : level < levels) (frames : List OpenFrame) :
    (displayOf levels frames).getD level 0 = frameWord frames level := by
  simp [displayOf, Array.getD, h]

theorem displayOf_nil (levels : Nat) : displayOf levels [] = Array.replicate levels 0 := by
  apply Array.ext <;> simp [displayOf]

/-- Opening a frame sets the word of its level to its base. -/
theorem displayOf_cons (levels : Nat) (f : OpenFrame) (frames : List OpenFrame) :
    displayOf levels (f :: frames) =
      (displayOf levels frames).setIfInBounds f.level (Int64.ofNat f.base) := by
  apply Array.ext
  · simp
  · intro k h₁ h₂
    rw [Array.getElem_setIfInBounds (by simpa using h₁)]
    simp [displayOf, frameWord_cons]

/-- Setting the word of the innermost frame's level to what it was before closes the frame. -/
theorem setIfInBounds_displayOf_cons {levels : Nat} {f : OpenFrame} (frames : List OpenFrame)
    (hf : f.level < levels) :
    (displayOf levels (f :: frames)).setIfInBounds f.level (frameWord frames f.level) =
      displayOf levels frames := by
  rw [displayOf_cons, Array.setIfInBounds_setIfInBounds, ← getD_displayOf hf]
  apply Array.ext
  · simp
  · intro k h₁ h₂
    rw [Array.getElem_setIfInBounds h₂]
    split
    · subst_vars
      simp [Array.getD, hf]
    · rfl

/-! ## Frames along a run -/

namespace Instruction

/-- The open frames after the instruction has been executed in a state: a call opens one, a return
closes the innermost one. -/
def track (i : Instruction) (s : State) (frames : List OpenFrame) : List OpenFrame :=
  match i with
  | address code level _ =>
    if code = Opcode.cal.code then .ofCall s level :: frames
    else if code = Opcode.ret.code then frames.tail
    else frames
  | _ => frames

/-- The instruction is no return, or it names the level of the innermost open frame and finds the
header of that frame intact. -/
def InOrder (i : Instruction) (s : State) (frames : List OpenFrame) : Prop :=
  match i with
  | address code level _ =>
    code = Opcode.ret.code → ∃ f ∈ frames.head?, level.toInt = f.level ∧ f.Intact s
  | _ => True

instance (i : Instruction) (s : State) (frames : List OpenFrame) : Decidable (i.InOrder s frames) :=
  match i with
  | address _ _ _ => inferInstanceAs (Decidable (_ → _))
  | value _ _ => isTrue trivial
  | operation _ => isTrue trivial

end Instruction

namespace Machine

variable {ω τ : Type} [Sink ω] [Sink τ]

/-- The frames that are open after a number of calls of `step`. -/
def openFrames (p : Program) (m : Machine ω τ) : Nat → List OpenFrame
  | 0 => [.outermost m.state]
  | n + 1 =>
    match executed? p (after p m n) with
    | some i => i.track (after p m n).state (openFrames p m n)
    | none => openFrames p m n

/-- What the call of `step` with a given number executes is in order. -/
def InOrderAt (p : Program) (m : Machine ω τ) (n : Nat) : Prop :=
  ∀ i ∈ executed? p (after p m n), i.InOrder (after p m n).state (openFrames p m n)

instance (p : Program) (m : Machine ω τ) (n : Nat) : Decidable (InOrderAt p m n) :=
  inferInstanceAs (Decidable (∀ i ∈ executed? p (after p m n), _))

end Machine

/-! ## The invariant -/

/-- How an open frame lies on those that were open before it. -/
structure OpenFrame.Above (p : Program) (limits : Limits) (rest : List OpenFrame)
    (f : OpenFrame) : Prop where
  level_lt : f.level < limits.levels
  base_le : f.base + 2 ≤ limits.cells
  returnPosition_le : f.returnPosition ≤ p.size
  returnPosition_eq_zero_iff : f.returnPosition = 0 ↔ rest = []
  saved_eq : f.saved = frameWord rest f.level
  display_eq : f.display = displayOf limits.levels rest

/-- Every frame lies well on those below it. -/
def Nested (p : Program) (limits : Limits) : List OpenFrame → Prop
  | [] => True
  | f :: rest => f.Above p limits rest ∧ Nested p limits rest

/-- The state goes with the open frames. -/
structure State.Framed (p : Program) (limits : Limits) (frames : List OpenFrame)
    (s : State) : Prop where
  size_stack : s.stack.size = limits.cells
  top_le : s.top ≤ limits.cells
  display_eq : s.display = displayOf limits.levels frames
  nested : Nested p limits frames
  ne_nil : s.status = .running → frames ≠ []

section Step

variable {p : Program} {limits : Limits} {frames : List OpenFrame} {s s' : State}
  {i : Instruction} {out : Option String}

theorem State.Framed.entry (p : Program) (limits : Limits) :
    (State.entry limits).Framed p limits [.outermost (State.entry limits)] := by
  have hlevels : 0 < limits.levels := by unfold Limits.levels; omega
  have hcells : 2 ≤ limits.cells := by unfold Limits.cells; omega
  have hdisplay : (State.entry limits).display = displayOf limits.levels [] :=
    (displayOf_nil _).symm
  refine ⟨by simp [State.entry], Nat.zero_le _, ?_, ⟨⟨hlevels, hcells, Nat.zero_le _, ?_, rfl,
    hdisplay⟩, trivial⟩, fun _ => List.cons_ne_nil _ _⟩
  · rw [hdisplay, displayOf_cons, displayOf_nil]
    exact Array.setIfInBounds_replicate_self.symm
  · simp [OpenFrame.outermost]

/-- A word that was made of a natural number below `2 ^ 64` is negative or that number. -/
theorem toInt_ofNat_of_nonneg {n : Nat} (hn : n < 2 ^ 64) (h : 0 ≤ (Int64.ofNat n).toInt) :
    (Int64.ofNat n).toInt = n := by
  rw [Int64.toInt_ofNat', Int64.size, Int.bmod_def] at h ⊢
  split at h <;> omega

theorem State.Framed.call (hs : s.Framed p limits frames) (hne : frames ≠ []) (hpc : s.pc < p.size)
    {level position : Int16}
    (h : (Instruction.address Opcode.cal.code level position).Effect s.fetched out s') :
    s'.settled.Framed p limits (.ofCall s level :: frames) := by
  have hsize : s.stack.size = limits.cells := hs.size_stack
  have hlevels : s.display.size = limits.levels := by rw [hs.display_eq, size_displayOf]
  cases h with
  | cal hl room target =>
    obtain ⟨hlo, hhi⟩ := hl
    simp only [State.fetched_display, State.fetched_stack, State.fetched_top] at hhi room
    have hlt : (level.toInt + 1).toNat < limits.levels := by omega
    have hroom : s.top + 2 ≤ limits.cells := by omega
    refine ⟨by simpa using hsize, hs.top_le, ?_, ⟨⟨hlt, hroom, hpc, ?_, ?_, hs.display_eq⟩,
      hs.nested⟩, fun _ => List.cons_ne_nil _ _⟩
    · rw [displayOf_cons, ← hs.display_eq]
      rfl
    · simp [OpenFrame.ofCall, hne]
    · show s.frame (level.toInt + 1) = frameWord frames (level.toInt + 1).toNat
      rw [← getD_displayOf hlt, ← hs.display_eq]
      rfl

/-- What closing a frame with a number of arguments does to the state: the program goes on where
the frame was opened, the display is what it was then, and the word on top is in the cell where the
first argument was, with nothing above it. -/
structure OpenFrame.ClosedBy (f : OpenFrame) (arguments : Int16) (s s' : State) : Prop where
  pc_eq : s'.pc = f.returnPosition
  display_eq : s'.display = f.display
  value : ∃ (slot : Nat) (w : Int64), (slot : Int) = f.base - arguments.toInt ∧
    s'.top = slot + 1 ∧ 0 < s.top ∧ s.stack[s.top - 1]? = some w ∧ s'.stack[slot]? = some w

theorem State.Framed.return {f : OpenFrame} {rest : List OpenFrame}
    (hs : s.Framed p limits (f :: rest)) (hp : p.size < 2 ^ 64) (hcells : limits.cells < 2 ^ 64)
    {level arguments : Int16} (hlevel : level.toInt = f.level) (hintact : f.Intact s)
    (h : (Instruction.address Opcode.ret.code level arguments).Effect s.fetched out s') :
    s'.settled.Framed p limits rest ∧ f.ClosedBy arguments s s'.settled := by
  obtain ⟨habove, hnested⟩ := hs.nested
  have hframe : s.frame level.toInt = Int64.ofNat f.base := by
    rw [State.frame, hs.display_eq, hlevel, Int.toNat_natCast, getD_displayOf habove.level_lt,
      frameWord_cons, if_pos rfl]
  cases h with
  | ret hl live header header' target room =>
    have hbase : s.base level = f.base := by
      have hnonneg : 0 ≤ s.base level := header.1
      rw [State.base, hframe] at hnonneg ⊢
      exact toInt_ofNat_of_nonneg (by have := habove.base_le; omega) hnonneg
    have hpc : (s.word ((s.base level).toNat + 1)).toInt = f.returnPosition := by
      have hnonneg : 0 ≤ (s.word ((s.base level).toNat + 1)).toInt := target
      rw [hbase, Int.toNat_natCast, hintact.2] at hnonneg ⊢
      exact toInt_ofNat_of_nonneg (by have := habove.returnPosition_le; omega) hnonneg
    have hdisplay : s.display.setIfInBounds level.toInt.toNat (s.word (s.base level).toNat) =
        displayOf limits.levels rest := by
      rw [hbase, Int.toNat_natCast, hintact.1, habove.saved_eq, hs.display_eq, hlevel,
        Int.toNat_natCast, setIfInBounds_displayOf_cons rest habove.level_lt]
    have hpc' : (s.word ((s.base level).toNat + 1)).toInt.toNat = f.returnPosition := by
      rw [hpc, Int.toNat_natCast]
    obtain ⟨slot, hslot⟩ : ∃ slot : Nat, s.base level - arguments.toInt = slot :=
      Int.eq_ofNat_of_zero_le room.1
    have hslot' : (s.base level - arguments.toInt).toNat = slot := by rw [hslot, Int.toNat_natCast]
    have hroom : slot < s.stack.size := by
      have : s.base level - arguments.toInt < s.stack.size := room.2
      omega
    have hlive : 0 < s.top := live
    have htop : s.top - 1 < s.stack.size := by
      have := hs.top_le
      have := hs.size_stack
      omega
    refine ⟨⟨by simpa using hs.size_stack, ?_, hdisplay, hnested, ?_⟩,
      hpc', hdisplay.trans habove.display_eq.symm, slot, s.word (s.top - 1), ?_, ?_, hlive, ?_, ?_⟩
    · show (s.base level - arguments.toInt).toNat + 1 ≤ limits.cells
      rw [hslot', ← hs.size_stack]
      exact hroom
    · -- A return to position 0 halts, and only the outermost frame has one.
      intro hrun hnil
      have hzero := habove.returnPosition_eq_zero_iff.mpr hnil
      exact State.settled_running_iff.mp hrun (hpc'.trans hzero)
    · rw [← hslot, hbase]
    · exact congrArg (· + 1) hslot'
    · simp [State.word, Array.getD, htop]
    · show (s.stack.setIfInBounds (s.base level - arguments.toInt).toNat
        (s.word (s.top - 1)))[slot]? = some (s.word (s.top - 1))
      rw [hslot']
      simp [hroom]

theorem State.Framed.other (hs : s.Framed p limits frames) (hne : frames ≠ [])
    (h : i.Effect s.fetched out s')
    (hcal : ∀ level position, i ≠ .address Opcode.cal.code level position)
    (hret : ∀ level arguments, i ≠ .address Opcode.ret.code level arguments) :
    s'.settled.Framed p limits frames := by
  have hsize : s'.stack.size = limits.cells := h.size_stack.trans hs.size_stack
  refine ⟨hsize, ?_, (h.display_eq hcal hret).trans hs.display_eq, hs.nested, fun _ => hne⟩
  rw [← hsize]
  apply h.top_le
  rw [State.fetched_stack, hs.size_stack]
  exact hs.top_le

end Step

/-! ## Runs -/

namespace Machine

variable {ω τ : Type} [Sink ω] [Sink τ] {p : Program} {limits : Limits} {m : Machine ω τ} {n : Nat}

theorem openFrames_succ_of_none (h : executed? p (after p m n) = none) :
    openFrames p m (n + 1) = openFrames p m n := by
  simp only [openFrames, h]

theorem openFrames_succ_of_some {i : Instruction} (h : executed? p (after p m n) = some i) :
    openFrames p m (n + 1) = i.track (after p m n).state (openFrames p m n) := by
  simp only [openFrames, h]

/-- A frame was opened by the call that was executed as the step with a given number. -/
def OpenedAt (p : Program) (m : Machine ω τ) (n : Nat) (f : OpenFrame) : Prop :=
  ∃ level position, executed? p (after p m n) = some (.address Opcode.cal.code level position) ∧
    f = .ofCall (after p m n).state level

/-- Every open frame is the outermost one or was opened by a call. -/
theorem openedAt_of_mem {f : OpenFrame} (h : f ∈ openFrames p m n) :
    f = .outermost m.state ∨ ∃ k < n, OpenedAt p m k f := by
  induction n with
  | zero => exact .inl (List.mem_singleton.mp h)
  | succ n ih =>
    have old (hf : f ∈ openFrames p m n) :
        f = .outermost m.state ∨ ∃ k < n + 1, OpenedAt p m k f := by
      obtain hout | ⟨k, hk, hopen⟩ := ih hf
      · exact .inl hout
      · exact .inr ⟨k, by omega, hopen⟩
    cases hx : executed? p (after p m n) with
    | none => exact old (openFrames_succ_of_none hx ▸ h)
    | some i =>
      rw [openFrames_succ_of_some hx] at h
      unfold Instruction.track at h
      split at h
      · split at h
        · subst_vars
          obtain rfl | hf := List.mem_cons.mp h
          · exact .inr ⟨n, by omega, _, _, hx, rfl⟩
          · exact old hf
        · split at h
          · exact old (List.mem_of_mem_tail h)
          · exact old h
      · exact old h

/-- The step lemma: what a running machine executes in order keeps the state with the frames. -/
theorem framed_step {frames : List OpenFrame} {s s' : State} {i : Instruction}
    {out : Option String} (hp : p.size < 2 ^ 64) (hcells : limits.cells < 2 ^ 64)
    (hs : s.Framed p limits frames) (hrun : s.status = .running) (hi : p.get? s.pc = some i)
    (he : i.Effect s.fetched out s') (horder : i.InOrder s frames) :
    s'.settled.Framed p limits (i.track s frames) := by
  have hne := hs.ne_nil hrun
  have hpc : s.pc < p.size := by
    obtain ⟨hlt, -⟩ := Array.getElem?_eq_some_iff.mp hi
    exact hlt
  cases i with
  | address code level offset =>
    by_cases hcal : code = Opcode.cal.code
    · subst hcal
      exact hs.call hne hpc he
    · by_cases hret : code = Opcode.ret.code
      · subst hret
        obtain ⟨f, hf, hlevel, hintact⟩ := horder rfl
        obtain ⟨rest, rfl⟩ := List.head?_eq_some_iff.mp hf
        exact (hs.return hp hcells hlevel hintact he).1
      · have htrack : (Instruction.address code level offset).track s frames = frames := by
          simp only [Instruction.track, hcal, hret, ↓reduceIte]
        rw [htrack]
        refine hs.other hne he (fun _ _ h => hcal ?_) (fun _ _ h => hret ?_) <;>
          exact (Instruction.address.inj h).1
  | value code immediate => exact hs.other hne he nofun nofun
  | operation op => exact hs.other hne he nofun nofun

/-- The run lemma: as long as returns are in order, every state goes with the open frames. -/
theorem framed_after (hp : p.size < 2 ^ 64) (hcells : limits.cells < 2 ^ 64)
    (hm : m.state = State.entry limits) (horder : ∀ k < n, InOrderAt p m k)
    (hok : (after p m n).state.status ≠ .faulted) :
    (after p m n).state.Framed p limits (openFrames p m n) := by
  induction n with
  | zero =>
    show m.state.Framed p limits [.outermost m.state]
    rw [hm]
    exact .entry p limits
  | succ n ih =>
    have hprev := ih fun k hk => horder k (by omega)
    rcases step_cases p (after p m n) with
      ⟨-, hx, hstep⟩ | ⟨-, -, hfault⟩ | ⟨hrun, i, out, s, hx, hi, he, hstep⟩
    · have hsame : after p m (n + 1) = after p m n := hstep
      rw [hsame] at hok ⊢
      rw [openFrames_succ_of_none hx]
      exact hprev hok
    · exact absurd hfault hok
    · have hnow : (after p m (n + 1)).state = s.settled := hstep
      rw [hnow, openFrames_succ_of_some hx]
      exact framed_step hp hcells (hprev (by rw [hrun]; exact Status.noConfusion)) hrun hi he
        (horder n (by omega) i hx)

/-- **The display refines the open frames.** Take any run from the start in which every return is in
order. In every state of it that is not faulted, the display is the one that the open frames stand
for. Every return closes the innermost frame `f` and leaves the state that `ClosedBy` describes. If
a call opened `f`, the run goes on, with the display that this call found; if `f` is the outermost
frame, the machine halts. Sizes are those of a machine with 64-bit addresses. -/
theorem display_refines_openFrames (p : Program) (limits : Limits) (m : Machine ω τ) (n : Nat)
    (hp : p.size < 2 ^ 64) (hl : limits.stackSize < 2 ^ 64) (hm : m.state = State.entry limits)
    (horder : ∀ k < n, InOrderAt p m k) :
    (∀ k ≤ n, (after p m k).state.status ≠ .faulted →
      (after p m k).state.display = displayOf limits.levels (openFrames p m k)) ∧
    ∀ k < n, ∀ level arguments,
      executed? p (after p m k) = some (.address Opcode.ret.code level arguments) →
      ∃ f rest, openFrames p m k = f :: rest ∧ openFrames p m (k + 1) = rest ∧
        f.ClosedBy arguments (after p m k).state (after p m (k + 1)).state ∧
        ((rest ≠ [] ∧ (∃ j < k, OpenedAt p m j f) ∧
            (after p m (k + 1)).state.status = .running) ∨
          (rest = [] ∧ f = .outermost m.state ∧ (after p m (k + 1)).state.status = .halted)) := by
  have hcells : limits.cells < 2 ^ 64 := by unfold Limits.cells; omega
  have framed {k : Nat} (hk : k ≤ n) (hok : (after p m k).state.status ≠ .faulted) :
      (after p m k).state.Framed p limits (openFrames p m k) :=
    framed_after hp hcells hm (fun j hj => horder j (by omega)) hok
  refine ⟨fun k hk hok => (framed hk hok).display_eq, fun k hk level arguments hx => ?_⟩
  obtain ⟨hrun, out, s, he, hstep⟩ := effect_of_executed? hx
  have hs := framed (Nat.le_of_lt hk) (by rw [hrun]; exact Status.noConfusion)
  obtain ⟨f, hf, hlevel, hintact⟩ := horder k hk _ hx rfl
  obtain ⟨rest, hframes⟩ := List.head?_eq_some_iff.mp hf
  have hnext : openFrames p m (k + 1) = rest := by
    rw [openFrames_succ_of_some hx, hframes]; rfl
  have hafter : (after p m (k + 1)).state = s.settled := hstep
  rw [hframes] at hs
  obtain ⟨-, hclosed⟩ := hs.return hp hcells hlevel hintact he
  have hzero : f.returnPosition = 0 ↔ rest = [] := hs.nested.1.returnPosition_eq_zero_iff
  have hpc : s.pc = f.returnPosition := hclosed.pc_eq
  refine ⟨f, rest, hframes, hnext, hafter ▸ hclosed, ?_⟩
  rw [hafter, State.settled_running_iff, State.settled_halted_iff, hpc]
  -- The return position tells the outermost frame from those that calls have opened.
  rcases openedAt_of_mem (hframes ▸ List.mem_cons_self) with rfl | ⟨j, hj, hopen⟩
  · exact .inr ⟨hzero.mp rfl, rfl, rfl⟩
  · have hne : rest ≠ [] := by
      obtain ⟨_, _, -, rfl⟩ := hopen
      exact fun hnil => Nat.succ_ne_zero _ (hzero.mpr hnil)
    exact .inl ⟨hne, ⟨j, hj, hopen⟩, fun h => hne (hzero.mp h)⟩

/-- A procedure of level 1 with one argument that calls itself once, called by the main program. -/
def recursion : Program :=
  .ofList [.value Opcode.jmp.code 10,
    .value Opcode.ict.code 2, .address Opcode.lod.code 1 (-1), .value Opcode.jpc.code 7,
    .value Opcode.lit.code 0, .address Opcode.cal.code 0 1, .address Opcode.ret.code 1 1,
    .value Opcode.lit.code 5, .address Opcode.ret.code 1 1, .value Opcode.jmp.code 0,
    .value Opcode.ict.code 2, .value Opcode.lit.code 1, .address Opcode.cal.code 0 1,
    .address Opcode.ret.code 0 0]

/-- The run of `recursion` after 9 steps, with two frames of level 1 open, and its return from the
inner one as step 13. -/
theorem display_refines_openFrames_recursion :
    let m : Machine Buffer Buffer := new { stackSize := 16 } Buffer.empty
    (∀ k < 16, InOrderAt recursion m k) ∧
      (openFrames recursion m 9).map OpenFrame.level = [1, 1, 0] ∧
      (after recursion m 9).state.display = displayOf 5 (openFrames recursion m 9) ∧
      ∃ f rest, openFrames recursion m 13 = f :: rest ∧ (∃ j < 13, OpenedAt recursion m j f) ∧
        f.ClosedBy 1 (after recursion m 13).state (after recursion m 14).state := by
  intro m
  have horder : ∀ k < 16, InOrderAt recursion m k := by decide +kernel
  obtain ⟨hdisplay, hreturn⟩ := display_refines_openFrames recursion { stackSize := 16 } m 16
    (by decide) (by decide) rfl horder
  refine ⟨horder, by decide +kernel, hdisplay 9 (by decide) (by decide +kernel), ?_⟩
  obtain ⟨f, rest, hframes, hrest, hclosed, ⟨-, hopen, -⟩ | ⟨hnil, -, -⟩⟩ :=
    hreturn 13 (by decide) 1 1 (by decide +kernel)
  · exact ⟨f, rest, hframes, hopen, hclosed⟩
  · have hlength : (openFrames recursion m 14).length = 2 := by decide +kernel
    rw [hrest, hnil] at hlength
    cases hlength

end Machine

end PCode
