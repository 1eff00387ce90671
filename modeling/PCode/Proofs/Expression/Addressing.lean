import PCode.Proofs.Expression.Evaluation

/-!
# Direct and indirect addressing

A variable can be read and set directly, by an instruction that carries its level and offset, or
through its address, which is pushed like any other number. For a store the address lies below the
value, so the code of the value runs one cell higher up.

* `Machine.loaded_of_indirectLoad`: a load through an address, as long as the address itself is not
  put into the cell that it is the address of.
* `Machine.stored_of_directStore`, `Machine.stored_of_indirectStore`: what either store leaves.
* `Machine.indirect_addressing_agrees`: either way of reading or setting a variable does the same.
-/

namespace PCode

/-! ## The code -/

/-- Reads a variable. -/
def directLoad (level offset : Int16) : List Instruction :=
  [.address Opcode.lod.code level offset]

/-- Reads a variable through its address. -/
def indirectLoad (level offset : Int16) : List Instruction :=
  [.address Opcode.lda.code level offset, .operation Operation.lid.code]

/-- Sets a variable to the value of an expression. -/
def directStore (level offset : Int16) (e : Expression) : List Instruction :=
  e.code ++ [.address Opcode.sto.code level offset]

/-- Sets a variable to the value of an expression through its address. -/
def indirectStore (level offset : Int16) (e : Expression) : List Instruction :=
  [.address Opcode.lda.code level offset] ++ e.code ++ [.operation Operation.sid.code]

namespace State

variable {s s' : State} {address : Int}

theorem fits_of_hasCell (hcell : s.HasCell address) (hsize : s.stack.size < 2 ^ 63) :
    (int64? address).isSome := by
  obtain ⟨hlow, hhigh⟩ := hcell
  exact (int64?_isSome_iff address).mpr (by omega)

theorem toInt_of_hasCell (hcell : s.HasCell address) (hsize : s.stack.size < 2 ^ 63) :
    (Int64.ofInt address).toInt = address := by
  obtain ⟨hlow, hhigh⟩ := hcell
  exact Int64.toInt_ofInt_of_le (by omega) (by omega)

theorem getElem?_live (s : State) (k : Nat) :
    s.live[k]? = if k < s.top ∧ k < s.stack.size then some (s.word k) else none := by
  unfold live word
  rw [Array.take_eq_extract, Array.getElem?_extract, Nat.sub_zero, Nat.zero_add]
  by_cases hk : k < s.top ∧ k < s.stack.size
  · rw [if_pos hk, if_pos (by omega)]
    simp [hk.2]
  · rw [if_neg hk, if_neg (by omega)]

/-- Setting a cell where the live cells are as they were sets it among them. -/
theorem live_of_set {s₁ : State} {index : Nat} {w : Int64} (hindex : index < s.top)
    (htop : s.top ≤ s.stack.size) (hsize : s₁.stack.size = s.stack.size)
    (hwords : ∀ k < s.top, s₁.word k = s.word k)
    (hstack : s'.stack = s₁.stack.setIfInBounds index w) (htop' : s'.top = s.top) :
    s'.live = s.live.setIfInBounds index w := by
  have hsize' : s'.stack.size = s.stack.size := by rw [hstack, Array.size_setIfInBounds, hsize]
  have hlive : s.live.size = s.top := by simp [live]; omega
  apply Array.ext_getElem?
  intro k
  rw [Array.getElem?_setIfInBounds, getElem?_live, getElem?_live, htop', hsize', hlive]
  by_cases hk : index = k
  · subst hk
    rw [word_set_self (by omega) hstack]
    simp [hindex]
    omega
  · rw [if_neg hk, word_set_of_ne hk hstack]
    split
    next hlt => rw [hwords k hlt.1]
    next => rfl

end State

namespace Machine

variable {ω τ : Type} [Sink ω] [Sink τ] {p : Program} {m m₁ : Machine ω τ} {n : Nat}
  {level offset : Int16}

/-! ## Loads -/

/-- A number of instructions further on, with the word of a cell pushed and the rest of the stack as
it was, also above the top. -/
structure Loaded (n : Nat) (index : Nat) (m m' : Machine ω τ) : Prop extends Passed n m m' where
  stack_eq : m'.state.stack = m.state.stack.setIfInBounds m.state.top (m.state.word index)
  top_eq : m'.state.top = m.state.top + 1

theorem loaded_of_directLoad (hrun : m.state.status = .running)
    (hsize : m.state.stack.size < 2 ^ 63) (hlevel : m.state.HasLevel level.toInt)
    (hcell : m.state.HasCell (m.state.addressOf level offset))
    (room : m.state.top < m.state.stack.size)
    (hcode : p.HoldsAt m.state.pc (directLoad level offset)) :
    Loaded 1 (m.state.addressOf level offset).toNat m (step p m).2 := by
  obtain ⟨hpassed, hstack, htop⟩ := (Keeps.refl hrun).toPassed.step hcode.head
    (.lod (s := m.state.fetched) hlevel (State.fits_of_hasCell hcell hsize) hcell room) rfl
  exact ⟨hpassed, hstack, htop⟩

/-- A push of the address of a cell. -/
theorem pushed_of_loadAddress (hrun : m.state.status = .running)
    (hsize : m.state.stack.size < 2 ^ 63) (hlevel : m.state.HasLevel level.toInt)
    (hcell : m.state.HasCell (m.state.addressOf level offset))
    (room : m.state.top < m.state.stack.size)
    (hi : p.get? m.state.pc = some (.address Opcode.lda.code level offset)) :
    Pushed 1 (m.state.addressOf level offset) m (step p m).2 := by
  have hpushed := (Keeps.refl hrun).push room hi
    (.lda (s := m.state.fetched) hlevel (State.fits_of_hasCell hcell hsize) room) rfl
  exact State.toInt_of_hasCell hcell hsize ▸ hpushed

/-- The address is first put into the cell at the top, so that must not be the cell to be read. -/
theorem loaded_of_indirectLoad (hrun : m.state.status = .running)
    (hsize : m.state.stack.size < 2 ^ 63) (hlevel : m.state.HasLevel level.toInt)
    (hcell : m.state.HasCell (m.state.addressOf level offset))
    (hne : m.state.addressOf level offset ≠ m.state.top)
    (room : m.state.top < m.state.stack.size)
    (hcode : p.HoldsAt m.state.pc (indirectLoad level offset)) :
    Loaded 2 (m.state.addressOf level offset).toNat m (after p m 2) := by
  have hi : p.get? m.state.pc = some (.address Opcode.lda.code level offset) := hcode.head
  have hlid : p.get? (m.state.pc + 1) = some (.operation Operation.lid.code) := hcode 1 _ rfl
  have hpushed := pushed_of_loadAddress hrun hsize hlevel hcell room hi
  obtain ⟨hstate, -⟩ := step_of_effect hrun hi
    (.lda (s := m.state.fetched) hlevel (State.fits_of_hasCell hcell hsize) room)
  generalize hm₁ : (step p m).2 = m₁ at hpushed hstate
  have hstack : m₁.state.stack = m.state.stack.setIfInBounds m.state.top
      (Int64.ofInt (m.state.addressOf level offset)) := by
    rw [hstate]
    rfl
  have htop : m₁.state.fetched.top - 1 = m.state.top := by simp [hpushed.top_eq]
  have hword : (m₁.state.fetched.word (m₁.state.fetched.top - 1)).toInt =
      m.state.addressOf level offset := by
    rw [htop]
    exact hpushed.word_eq
  -- The push has changed the top cell only, so the cell to be read is as it was.
  have hread : m₁.state.fetched.word (m.state.addressOf level offset).toNat =
      m.state.word (m.state.addressOf level offset).toNat :=
    State.word_set_of_ne (by obtain ⟨hlow, -⟩ := hcell; omega) hstack
  have heffect : Operation.lid.Effect m₁.state.fetched none { m₁.state.fetched with
      stack := m₁.state.fetched.stack.setIfInBounds (m₁.state.fetched.top - 1)
        (m₁.state.fetched.word
          (m₁.state.fetched.word (m₁.state.fetched.top - 1)).toInt.toNat) } := by
    refine .lid (by rw [State.fetched_top, hpushed.top_eq]; omega) ?_
      (by rw [State.fetched_top, State.fetched_stack, hpushed.top_eq, hpushed.size_eq]; omega)
    rw [hword]
    exact ⟨hcell.1, by rw [State.fetched_stack, hpushed.size_eq]; exact hcell.2⟩
  rw [← hpushed.pc_eq] at hlid
  obtain ⟨hpassed, hstack', htop'⟩ := hpushed.toPassed.step hlid (.opr heffect) rfl
  rw [hword, hread, htop, State.fetched_stack, hstack, Array.setIfInBounds_setIfInBounds] at hstack'
  have hafter : after p m 2 = (step p m₁).2 := by rw [← hm₁]; rfl
  rw [hafter]
  exact ⟨hpassed, hstack', htop'.trans hpushed.top_eq⟩

/-! ## Stores -/

/-- A number of instructions further on, with one live cell set and the others as they were. -/
structure Stored (n : Nat) (index : Nat) (v : Int) (m m' : Machine ω τ) : Prop
    extends Passed n m m' where
  top_eq : m'.state.top = m.state.top
  live_eq : m'.state.live = m.state.live.setIfInBounds index (Int64.ofInt v)

/-- **One store.** Whatever stands above the old top, an instruction that goes back to it and sets a
live cell has stored a word. -/
theorem Keeps.store {i : Instruction} {w : Int64} {index : Nat} {s' : State} (h : Keeps n m m₁)
    (hindex : index < m.state.top) (htop : m.state.top ≤ m.state.stack.size)
    (hi : p.get? m₁.state.pc = some i) (he : i.Effect m₁.state.fetched none s')
    (hs : s' = { m₁.state.fetched with
      stack := m₁.state.stack.setIfInBounds index w, top := m.state.top }) :
    Stored (n + 1) index w.toInt m (step p m₁).2 := by
  obtain ⟨hpassed, hstack, htop'⟩ := h.toPassed.step hi he hs
  refine ⟨hpassed, htop', ?_⟩
  rw [Int64.ofInt_toInt]
  exact State.live_of_set hindex htop h.size_eq h.word_of_lt hstack htop'

section Stores

variable {e : Expression} {v : Int}

theorem stored_of_directStore (hrun : m.state.status = .running)
    (hsize : m.state.stack.size < 2 ^ 63) (hvariable : m.state.HasVariable level offset)
    (hcells : ∀ c ∈ e.cells, m.state.HasVariable c.1 c.2)
    (hroom : m.state.top + e.depth ≤ m.state.stack.size)
    (hv : e.value? m.state.content = some v)
    (hcode : p.HoldsAt m.state.pc (directStore level offset e)) :
    Stored (e.code.length + 1) (m.state.addressOf level offset).toNat v m
      (after p m (e.code.length + 1)) := by
  obtain ⟨hlevel, hlow, hhigh⟩ := hvariable
  have hevaluable : Evaluable p m.state.content m.state e :=
    ⟨hcode.left, fun hc => hcells _ hc, fun _ => rfl, hroom⟩
  have hpushed := pushed_of_evaluable hrun hsize hevaluable hv
  have hroom' := hevaluable.top_lt
  have hi := hcode.right.head
  rw [← hpushed.pc_eq] at hi
  show Stored _ _ _ m (step p (after p m e.code.length)).2
  generalize after p m e.code.length = m₁ at hpushed hi
  have haddress : m₁.state.fetched.addressOf level offset = m.state.addressOf level offset :=
    State.addressOf_of_display hpushed.display_eq
  have hcell : m₁.state.fetched.HasCell (m₁.state.fetched.addressOf level offset) := by
    rw [haddress]
    exact ⟨hlow, by rw [State.fetched_stack, hpushed.size_eq]; omega⟩
  have hsize' : m₁.state.fetched.stack.size < 2 ^ 63 := by
    rw [State.fetched_stack, hpushed.size_eq]
    exact hsize
  have htop : m₁.state.fetched.top - 1 = m.state.top := by simp [hpushed.top_eq]
  rw [← hpushed.word_eq]
  refine hpushed.toKeeps.store (by omega) (by omega) hi
    (.sto (by rw [State.fetched_top, hpushed.top_eq]; omega)
      ⟨hlevel.1, by rw [State.fetched_display, hpushed.display_eq]; exact hlevel.2⟩
      (State.fits_of_hasCell hcell hsize') hcell) ?_
  rw [haddress, htop]
  rfl

theorem stored_of_indirectStore (hrun : m.state.status = .running)
    (hsize : m.state.stack.size < 2 ^ 63) (hvariable : m.state.HasVariable level offset)
    (hcells : ∀ c ∈ e.cells, m.state.HasVariable c.1 c.2)
    (hroom : m.state.top + 1 + e.depth ≤ m.state.stack.size)
    (hv : e.value? m.state.content = some v)
    (hcode : p.HoldsAt m.state.pc (indirectStore level offset e)) :
    Stored (e.code.length + 2) (m.state.addressOf level offset).toNat v m
      (after p m (e.code.length + 2)) := by
  obtain ⟨hlevel, hlow, hhigh⟩ := hvariable
  have hcell : m.state.HasCell (m.state.addressOf level offset) := ⟨hlow, by omega⟩
  have hpushed := pushed_of_loadAddress hrun hsize hlevel hcell (by omega) hcode.left.head
  have hevaluable : Evaluable p m.state.content (step p m).2.state e :=
    .of_pushed hpushed hcode.left.right (fun hc => hcells _ hc) (fun _ => rfl) hroom
  have hpushed' := pushed_of_evaluable hpushed.running (by rw [hpushed.size_eq]; exact hsize)
    hevaluable hv
  have hkeeps := hpushed.toKeeps.trans hpushed'.toKeeps (by rw [hpushed.top_eq]; omega)
  have hi := hcode.right.head
  rw [List.length_append, List.length_singleton, ← hkeeps.pc_eq] at hi
  have hafter : after p m (e.code.length + 2) =
      (step p (after p (step p m).2 e.code.length)).2 := by
    rw [after_step]
    rfl
  rw [hafter]
  generalize after p (step p m).2 e.code.length = m₂ at hpushed' hkeeps hi
  -- The address has stayed where it was pushed, below the value.
  have htop : m₂.state.fetched.top = m.state.top + 2 := by
    rw [State.fetched_top, hpushed'.top_eq, hpushed.top_eq]
  have haddress : (m₂.state.fetched.word (m₂.state.fetched.top - 2)).toInt =
      m.state.addressOf level offset := by
    rw [htop, ← hpushed.word_eq]
    exact congrArg Int64.toInt (hpushed'.word_of_lt m.state.top (by rw [hpushed.top_eq]; omega))
  have hvalue : (m₂.state.fetched.word (m₂.state.fetched.top - 1)).toInt = v := by
    rw [htop, ← hpushed'.word_eq, hpushed.top_eq]
    rfl
  have hcell' : m₂.state.fetched.HasCell
      (m₂.state.fetched.word (m₂.state.fetched.top - 2)).toInt := by
    rw [haddress]
    exact ⟨hlow, by rw [State.fetched_stack, hkeeps.size_eq]; omega⟩
  have hcount : e.code.length + 2 = 1 + e.code.length + 1 := by omega
  rw [hcount, ← hvalue]
  refine hkeeps.store (by omega) (by omega) hi (.opr (.sid (by omega) hcell')) ?_
  rw [haddress, htop]
  rfl

end Stores

/-! ## Either way -/

/-- The same live cells, display and output. -/
structure Agree (m m' : Machine ω τ) : Prop where
  top_eq : m.state.top = m'.state.top
  live_eq : m.state.live = m'.state.live
  display_eq : m.state.display = m'.state.display
  output_eq : m.output = m'.output

/-- **Addressing.** Take a machine that is running and a variable that has a cell. If that is not
the cell at the top, and the stack is not full, then a load through the address leaves the same
stack as a direct one, above the top too. If it is a live cell, and an expression over live
variables has a value, then a store through the address leaves the same live cells as a direct one,
where only the cell of the variable has changed. There has to be room for the address below what the
code of the expression needs. -/
theorem indirect_addressing_agrees (p q : Program) (m : Machine ω τ) (level offset : Int16)
    (hrun : m.state.status = .running) (hsize : m.state.stack.size < 2 ^ 63)
    (hlevel : m.state.HasLevel level.toInt)
    (hcell : m.state.HasCell (m.state.addressOf level offset)) :
    (m.state.addressOf level offset ≠ m.state.top → m.state.top < m.state.stack.size →
      p.HoldsAt m.state.pc (indirectLoad level offset) →
      q.HoldsAt m.state.pc (directLoad level offset) →
      Loaded 2 (m.state.addressOf level offset).toNat m (after p m 2) ∧
        Loaded 1 (m.state.addressOf level offset).toNat m (after q m 1) ∧
        (after p m 2).state.stack = (after q m 1).state.stack ∧
        Agree (after p m 2) (after q m 1)) ∧
    ∀ (e : Expression) (v : Int), e.value? m.state.content = some v →
      (∀ c ∈ e.cells, m.state.HasVariable c.1 c.2) →
      m.state.addressOf level offset < m.state.top →
      m.state.top + 1 + e.depth ≤ m.state.stack.size →
      p.HoldsAt m.state.pc (indirectStore level offset e) →
      q.HoldsAt m.state.pc (directStore level offset e) →
      Stored (e.code.length + 2) (m.state.addressOf level offset).toNat v m
          (after p m (e.code.length + 2)) ∧
        Stored (e.code.length + 1) (m.state.addressOf level offset).toNat v m
          (after q m (e.code.length + 1)) ∧
        Agree (after p m (e.code.length + 2)) (after q m (e.code.length + 1)) := by
  constructor
  · intro hne room hindirect hdirect
    have hp := loaded_of_indirectLoad hrun hsize hlevel hcell hne room hindirect
    have hq := loaded_of_directLoad hrun hsize hlevel hcell room hdirect
    have hstack := hp.stack_eq.trans hq.stack_eq.symm
    have htop := hp.top_eq.trans hq.top_eq.symm
    refine ⟨hp, hq, hstack, htop, ?_, hp.display_eq.trans hq.display_eq.symm,
      hp.output_eq.trans hq.output_eq.symm⟩
    exact congrArg₂ Array.take hstack htop
  · intro e v hv hcells hlive hroom hindirect hdirect
    have hvariable : m.state.HasVariable level offset := ⟨hlevel, hcell.1, hlive⟩
    have hp := stored_of_indirectStore hrun hsize hvariable hcells hroom hv hindirect
    have hq := stored_of_directStore hrun hsize hvariable hcells (by omega) hv hdirect
    exact ⟨hp, hq, hp.top_eq.trans hq.top_eq.symm, hp.live_eq.trans hq.live_eq.symm,
      hp.display_eq.trans hq.display_eq.symm, hp.output_eq.trans hq.output_eq.symm⟩

/-- At the top itself the two differ: the address is read back in place of the word `4`. -/
example :
    let m : Machine Buffer Buffer :=
      ⟨{ stack := #[0, 0, 7, 4, 0], display := #[0], top := 3, pc := 1 }, Buffer.empty, none⟩
    let program (code : List Instruction) :=
      Program.ofList ([.value Opcode.jmp.code 1] ++ code ++ [])
    (after (program (indirectLoad 0 3)) m 2).state.live = #[0, 0, 7, 3] ∧
      (after (program (directLoad 0 3)) m 1).state.live = #[0, 0, 7, 4] := by
  decide +kernel

/-- A load from a cell above the top, and `x := 10 - x` with just enough room. -/
theorem indirect_addressing_agrees_above_top :
    let m : Machine Buffer Buffer :=
      ⟨{ stack := #[0, 0, 7, 4, 0, 9], display := #[0], top := 3, pc := 1 }, Buffer.empty, none⟩
    let program (code : List Instruction) :=
      Program.ofList ([.value Opcode.jmp.code 1] ++ code ++ [])
    let difference : Expression := .binary .sub (.literal 10) (.cell 0 2)
    Loaded 2 5 m (after (program (indirectLoad 0 5)) m 2) ∧
      Agree (after (program (indirectLoad 0 5)) m 2) (after (program (directLoad 0 5)) m 1) ∧
      Stored 5 2 3 m (after (program (indirectStore 0 2 difference)) m 5) ∧
      Agree (after (program (indirectStore 0 2 difference)) m 5)
        (after (program (directStore 0 2 difference)) m 4) := by
  intro m program difference
  have hlevel : m.state.HasLevel (0 : Int16).toInt := ⟨by decide, by decide⟩
  have hload := indirect_addressing_agrees (program (indirectLoad 0 5)) (program (directLoad 0 5))
    m 0 5 rfl (by decide) hlevel ⟨by decide +kernel, by decide +kernel⟩
  have hstore := indirect_addressing_agrees (program (indirectStore 0 2 difference))
    (program (directStore 0 2 difference)) m 0 2 rfl (by decide) hlevel
    ⟨by decide +kernel, by decide +kernel⟩
  obtain ⟨hloaded, -, -, hagree⟩ := hload.1 (by decide +kernel) (by decide)
    (Program.HoldsAt.ofList _ _ _) (Program.HoldsAt.ofList _ _ _)
  obtain ⟨hstored, -, hagree'⟩ := hstore.2 difference 3 (by decide +kernel)
    (State.hasVariable_of_all (by decide +kernel)) (by decide +kernel) (by decide)
    (Program.HoldsAt.ofList _ _ _) (Program.HoldsAt.ofList _ _ _)
  exact ⟨hloaded, hagree, hstored, hagree'⟩

end Machine

end PCode
