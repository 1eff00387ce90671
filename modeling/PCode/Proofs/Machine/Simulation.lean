import PCode.Machine.Access

/-!
# Simulations between actions

Some facts about an action say how it goes on a state of another machine, or how another action goes
that does the same with more care. Both compare two runs. A `Simulation` fixes what is compared: how
the two states belong together, before and after, and what the second action stops with when the
first stops with a cause. After some causes nothing is asked any more; they are *spared*.

`sim.Holds Q x y` says that from states that belong together `x` and `y` end alike, in states that
belong together, and with results that satisfy `Q`.

* `Holds.bind`: a sequence is compared part by part. So a comparison is proved once for each
  elementary action, and a larger action follows by the order of its parts.
* `Agrees.of_ok`, `Agrees.of_error`: how the second action ends, once it is known how the first did.
-/

namespace PCode

/-- What is compared of two actions, of which the second may stop with more than a cause. -/
structure Simulation (ε : Type) where
  /-- The two states belong together. -/
  related : State → State → Prop
  /-- Nothing is asked after the first action has stopped with this cause. -/
  spared : Cause → Prop
  /-- What the second action stops with when the first stops with a cause. -/
  stop : Cause → ε

namespace Simulation

variable {ε α β γ δ : Type} {sim : Simulation ε}

/-- The two actions have ended alike. -/
def Matches (sim : Simulation ε) (Q : α → β → Prop) :
    EStateM.Result Cause State α → EStateM.Result ε State β → Prop
  | .ok a s, .ok b t => sim.related s t ∧ Q a b
  | .error c s, .error e t => sim.spared c ∨ e = sim.stop c ∧ sim.related s t
  | .error c _, .ok _ _ => sim.spared c
  | .ok _ _, .error _ _ => False

/-- From states that belong together the two actions end alike. -/
def Holds (sim : Simulation ε) (Q : α → β → Prop) (x : Exec α) (y : EStateM ε State β) : Prop :=
  ∀ s t, sim.related s t → sim.Matches Q (x s) (y t)

/-- The two actions end alike and give the same result, which satisfies `P`. -/
def Agrees (sim : Simulation ε) (P : α → Prop) (x : Exec α) (y : EStateM ε State α) : Prop :=
  sim.Holds (fun a b => b = a ∧ P a) x y

theorem matches_of_spared {Q : α → β → Prop} {c : Cause} {s : State}
    (h : sim.spared c) (r : EStateM.Result ε State β) : sim.Matches Q (.error c s) r := by
  cases r with
  | ok b t => exact h
  | error e t => exact .inl h

/-! ## Rules -/

theorem Holds.pure {Q : α → β → Prop} {a : α} {b : β} (h : Q a b) :
    sim.Holds Q (Pure.pure a) (Pure.pure b) :=
  fun _ _ hst => ⟨hst, h⟩

theorem Holds.throw {Q : α → β → Prop} (c : Cause) :
    sim.Holds Q (MonadExcept.throw c) (MonadExcept.throw (sim.stop c)) :=
  fun _ _ hst => .inr ⟨rfl, hst⟩

theorem Holds.get : sim.Holds sim.related MonadState.get MonadState.get :=
  fun _ _ hst => ⟨hst, hst⟩

theorem Holds.ite {c : Prop} [Decidable c] {Q : α → β → Prop} {x x' : Exec α}
    {y y' : EStateM ε State β} (h : c → sim.Holds Q x y) (h' : ¬c → sim.Holds Q x' y') :
    sim.Holds Q (if c then x else x') (if c then y else y') := by
  by_cases hc : c
  · rw [if_pos hc, if_pos hc]
    exact h hc
  · rw [if_neg hc, if_neg hc]
    exact h' hc

/-- **Sequences.** Two sequences end alike if their first parts do, and their second parts do for
results of the first parts that belong together. -/
theorem Holds.bind {P : α → β → Prop} {Q : γ → δ → Prop} {x : Exec α} {y : EStateM ε State β}
    {f : α → Exec γ} {g : β → EStateM ε State δ} (hx : sim.Holds P x y)
    (hf : ∀ a b, P a b → sim.Holds Q (f a) (g b)) : sim.Holds Q (x >>= f) (y >>= g) := by
  intro s t hst
  have h := hx s t hst
  show sim.Matches Q (EStateM.bind x f s) (EStateM.bind y g t)
  unfold EStateM.bind
  cases hxs : x s with
  | ok a s' =>
    cases hyt : y t with
    | ok b t' =>
      rw [hxs, hyt] at h
      obtain ⟨hst', hab⟩ := h
      exact hf a b hab s' t' hst'
    | error e t' =>
      rw [hxs, hyt] at h
      exact h.elim
  | error c s' =>
    cases hyt : y t with
    | ok b t' =>
      rw [hxs, hyt] at h
      exact matches_of_spared h _
    | error e t' =>
      rw [hxs, hyt] at h
      exact h

/-- A check, and what follows it if it is passed. -/
theorem Holds.guard {c : Prop} [Decidable c] {Q : γ → δ → Prop} {cause : Cause}
    {f : PUnit → Exec γ} {g : PUnit → EStateM ε State δ} (h : ¬c → sim.Holds Q (f ⟨⟩) (g ⟨⟩)) :
    sim.Holds Q (if c then MonadExcept.throw cause >>= f else f ⟨⟩)
      (if c then MonadExcept.throw (sim.stop cause) >>= g else g ⟨⟩) :=
  .ite (fun _ _ _ hst => .inr ⟨rfl, hst⟩) h

/-- Sequences whose first parts give the same result. -/
theorem Agrees.bind {P : α → Prop} {Q : γ → δ → Prop} {x : Exec α} {y : EStateM ε State α}
    {f : α → Exec γ} {g : α → EStateM ε State δ} (hx : sim.Agrees P x y)
    (hf : ∀ a, P a → sim.Holds Q (f a) (g a)) : sim.Holds Q (x >>= f) (y >>= g) :=
  Holds.bind hx fun a _ ⟨hb, ha⟩ => hb ▸ hf a ha

/-- What is so of every result of the first action may be added to what is said of the result. -/
theorem Agrees.and {P P' : α → Prop} {x : Exec α} {y : EStateM ε State α} (h : sim.Agrees P x y)
    (hx : ∀ s a s', x s = .ok a s' → P' a) : sim.Agrees (fun a => P a ∧ P' a) x y := by
  intro s t hst
  have hmatches := h s t hst
  cases hxs : x s with
  | ok a s' =>
    rw [hxs] at hmatches
    cases hyt : y t with
    | ok b t' =>
      rw [hyt] at hmatches
      obtain ⟨hst', hb, ha⟩ := hmatches
      exact ⟨hst', hb, ha, hx s a s' hxs⟩
    | error e t' =>
      rw [hyt] at hmatches
      exact hmatches.elim
  | error c s' =>
    -- What is said of the result does not matter here.
    rw [hxs] at hmatches
    cases hyt : y t with
    | ok | error =>
      rw [hyt] at hmatches
      exact hmatches

/-- Actions after which there is nothing to write. -/
theorem Agrees.silent {x : Exec Unit} {y : EStateM ε State Unit}
    (h : sim.Agrees (fun _ => True) x y) :
    sim.Agrees (fun _ => True) (do x; return none : Exec (Option String)) (do y; return none) :=
  h.bind fun _ _ => .pure ⟨rfl, trivial⟩

/-! ## What a comparison says -/

theorem Agrees.of_ok {P : α → Prop} {x : Exec α} {y : EStateM ε State α} {s t s' : State} {a : α}
    (h : sim.Agrees P x y) (hst : sim.related s t) (hx : x s = .ok a s') :
    ∃ t', y t = .ok a t' ∧ sim.related s' t' := by
  have hmatches := h s t hst
  rw [hx] at hmatches
  cases hy : y t with
  | ok b t' =>
    rw [hy] at hmatches
    obtain ⟨hst', rfl, -⟩ := hmatches
    exact ⟨t', rfl, hst'⟩
  | error e t' =>
    rw [hy] at hmatches
    exact hmatches.elim

theorem Agrees.of_error {P : α → Prop} {x : Exec α} {y : EStateM ε State α} {s t s' : State}
    {c : Cause} (h : sim.Agrees P x y) (hst : sim.related s t) (hx : x s = .error c s')
    (hc : ¬sim.spared c) : ∃ t', y t = .error (sim.stop c) t' ∧ sim.related s' t' := by
  have hmatches := h s t hst
  rw [hx] at hmatches
  cases hy : y t with
  | ok b t' =>
    rw [hy] at hmatches
    exact absurd hmatches hc
  | error e t' =>
    rw [hy] at hmatches
    obtain ⟨rfl, hst'⟩ := hmatches.resolve_left hc
    exact ⟨t', rfl, hst'⟩

end Simulation

end PCode
