/-!
# Numbered traversals

Both a binary program and an assembly text are read item by item, and the first item that fails
decides the error, with its number. `numbered` is that traversal; the items are counted from a given
number.

* `numbered_eq_ok_iff`: it succeeds exactly as the traversal without numbers does.
* `numbered_eq_error_iff`: it fails with the number of the first item that fails. `mapM_eq_error_iff`
  is the same without numbers.
* `numbered_append`, `numbered_add`: items one after the other, and counted from a later number.
* `exists_numbered_eq_error_iff`: the number alone, as a `FirstFailure` of what makes an item fine.
-/

namespace PCode

variable {α β ε ε' : Type}

/-- Treats the items in order, counted from `start`, and stops at the first that fails. -/
def numbered (start : Nat) (f : α → Except ε β) (tag : Nat → ε → ε') (items : List α) :
    Except ε' (List β) :=
  (items.zipIdx start).mapM fun (a, number) => (f a).mapError (tag number)

variable {start : Nat} {f : α → Except ε β} {tag : Nat → ε → ε'} {items : List α}

/-! ## Results -/

theorem bind_eq_ok_iff {x : Except ε α} {b : β} :
    (x >>= f) = .ok b ↔ ∃ a, x = .ok a ∧ f a = .ok b := by
  cases x <;> simp [bind, Except.bind]

theorem bind_eq_error_iff {x : Except ε α} {e : ε} :
    (x >>= f) = .error e ↔ x = .error e ∨ ∃ a, x = .ok a ∧ f a = .error e := by
  cases x <;> simp [bind, Except.bind]

theorem map_eq_ok_iff {x : Except ε α} {g : α → β} {b : β} :
    x.map g = .ok b ↔ ∃ a, x = .ok a ∧ b = g a := by
  cases x <;> simp [Except.map, eq_comm]

theorem map_eq_error_iff {x : Except ε α} {g : α → β} {e : ε} :
    x.map g = .error e ↔ x = .error e := by
  cases x <;> simp [Except.map]

theorem pure_eq_ok_iff {a b : α} : (pure a : Except ε α) = .ok b ↔ b = a := by
  simp [pure, Except.pure, eq_comm]

theorem mapM_cons_eq_ok_iff {a : α} {bs : List β} :
    (a :: items).mapM f = .ok bs ↔
      ∃ b rest, f a = .ok b ∧ items.mapM f = .ok rest ∧ bs = b :: rest := by
  simp only [List.mapM_cons, bind_eq_ok_iff, pure_eq_ok_iff, exists_and_left]

theorem mapM_cons_eq_error_iff {a : α} {e : ε} :
    (a :: items).mapM f = .error e ↔
      f a = .error e ∨ ∃ b, f a = .ok b ∧ items.mapM f = .error e := by
  simp only [List.mapM_cons, bind_eq_error_iff]
  simp [pure, Except.pure]

/-- A traversal succeeds if every item does. -/
theorem exists_mapM_eq_ok_iff :
    (∃ bs, items.mapM f = .ok bs) ↔ ∀ a ∈ items, ∃ b, f a = .ok b := by
  induction items with
  | nil => simp [pure, Except.pure]
  | cons a items ih =>
    simp only [mapM_cons_eq_ok_iff, List.forall_mem_cons, ← ih]
    constructor
    · rintro ⟨_, b, rest, hb, hrest, rfl⟩
      exact ⟨⟨b, hb⟩, rest, hrest⟩
    · rintro ⟨⟨b, hb⟩, rest, hrest⟩
      exact ⟨b :: rest, b, rest, hb, hrest, rfl⟩

/-- A traversal fails if some item does. -/
theorem exists_mapM_eq_error_iff :
    (∃ e, items.mapM f = .error e) ↔ ∃ a ∈ items, ¬ ∃ b, f a = .ok b := by
  have hok : (∃ e, items.mapM f = .error e) ↔ ¬ ∃ bs, items.mapM f = .ok bs := by
    cases items.mapM f <;> simp
  rw [hok, exists_mapM_eq_ok_iff]
  simp only [Classical.not_forall, exists_prop]

theorem exists_of_mem_mapM {bs : List β} {b : β} (h : items.mapM f = .ok bs) (hb : b ∈ bs) :
    ∃ a ∈ items, f a = .ok b := by
  induction items generalizing bs with
  | nil =>
    obtain rfl := pure_eq_ok_iff.mp h
    cases hb
  | cons a items ih =>
    obtain ⟨c, rest, hc, hrest, rfl⟩ := mapM_cons_eq_ok_iff.mp h
    rcases List.mem_cons.mp hb with rfl | hb
    · exact ⟨a, List.mem_cons_self, hc⟩
    · obtain ⟨a', ha', hb'⟩ := ih hrest hb
      exact ⟨a', List.mem_cons_of_mem a ha', hb'⟩

/-! ## Numbers -/

theorem mapError_eq_ok_iff {g : ε → ε'} {x : Except ε β} {b : β} :
    x.mapError g = .ok b ↔ x = .ok b := by
  cases x with
  | error e => exact ⟨nofun, nofun⟩
  | ok a =>
    show Except.ok a = Except.ok b ↔ _
    simp

theorem mapError_eq_error_iff {g : ε → ε'} {x : Except ε β} {e' : ε'} :
    x.mapError g = .error e' ↔ ∃ e, x = .error e ∧ e' = g e := by
  cases x with
  | error e =>
    show Except.error (g e) = Except.error e' ↔ _
    simp [eq_comm]
  | ok a => exact ⟨nofun, nofun⟩

theorem mapError_bind {g : ε → ε'} {x : Except ε α} {k : α → Except ε β} :
    (x >>= k).mapError g = x.mapError g >>= fun a => (k a).mapError g := by
  cases x <;> rfl

theorem numbered_eq_ok_iff {bs : List β} :
    numbered start f tag items = .ok bs ↔ items.mapM f = .ok bs := by
  induction items generalizing start bs with
  | nil => simp [numbered, pure, Except.pure]
  | cons a items ih =>
    unfold numbered at ih ⊢
    simp only [List.zipIdx_cons, mapM_cons_eq_ok_iff, mapError_eq_ok_iff, ih]

/-- **The first failure.** A traversal fails if there is an item that does, all before it being
fine, and the error has the number of that item. -/
theorem numbered_eq_error_iff {e' : ε'} :
    numbered start f tag items = .error e' ↔
      ∃ before a after e, items = before ++ a :: after ∧ (∀ x ∈ before, ∃ b, f x = .ok b) ∧
        f a = .error e ∧ e' = tag (start + before.length) e := by
  induction items generalizing start with
  | nil => simp [numbered, pure, Except.pure]
  | cons a items ih =>
    unfold numbered at ih ⊢
    simp only [List.zipIdx_cons, mapM_cons_eq_error_iff, mapError_eq_ok_iff,
      mapError_eq_error_iff, ih]
    constructor
    · rintro (⟨e, ha, rfl⟩ | ⟨b, hb, before, c, after, e, rfl, hbefore, hc, rfl⟩)
      · exact ⟨[], a, items, e, rfl, by simp, ha, rfl⟩
      · refine ⟨a :: before, c, after, e, rfl, ?_, hc, ?_⟩
        · exact List.forall_mem_cons.mpr ⟨⟨b, hb⟩, hbefore⟩
        · rw [List.length_cons, Nat.add_assoc, Nat.add_comm 1]
    · rintro ⟨before, c, after, e, hsplit, hbefore, hc, rfl⟩
      cases before with
      | nil =>
        obtain ⟨rfl, rfl⟩ := List.cons.inj hsplit
        exact .inl ⟨e, hc, rfl⟩
      | cons x before =>
        obtain ⟨rfl, rfl⟩ := List.cons.inj hsplit
        obtain ⟨⟨b, hb⟩, hrest⟩ := List.forall_mem_cons.mp hbefore
        refine .inr ⟨b, hb, before, c, after, e, rfl, hrest, hc, ?_⟩
        rw [List.length_cons, Nat.add_assoc, Nat.add_comm 1]

theorem numbered_cons (a : α) (items : List α) :
    numbered start f tag (a :: items) = (do
      let b ← (f a).mapError (tag start)
      let bs ← numbered (start + 1) f tag items
      return b :: bs) := by
  simp only [numbered, List.zipIdx_cons, List.mapM_cons]

/-- A traversal that does not use the numbers is one without them. -/
theorem numbered_untagged : numbered start f (fun _ e => e) items = items.mapM f := by
  induction items generalizing start with
  | nil => rfl
  | cons a items ih =>
    rw [numbered_cons, ih, List.mapM_cons]
    cases f a <;> rfl

theorem mapM_eq_error_iff {e : ε} :
    items.mapM f = .error e ↔
      ∃ before a after, items = before ++ a :: after ∧ (∀ x ∈ before, ∃ b, f x = .ok b) ∧
        f a = .error e := by
  have hnumbered : numbered 0 f (fun _ e => e) items = items.mapM f := numbered_untagged
  rw [← hnumbered, numbered_eq_error_iff]
  simp

theorem numbered_map {γ : Type} (g : γ → α) (items : List γ) :
    numbered start f tag (items.map g) = numbered start (fun c => f (g c)) tag items := by
  induction items generalizing start with
  | nil => rfl
  | cons c items ih => rw [List.map_cons, numbered_cons, numbered_cons, ih]

/-- The second part of the items is treated after the first, and counted on. -/
theorem numbered_append (xs ys : List α) :
    numbered start f tag (xs ++ ys) = (do
      let bs ← numbered start f tag xs
      let cs ← numbered (start + xs.length) f tag ys
      return bs ++ cs) := by
  induction xs generalizing start with
  | nil =>
    show numbered start f tag ys = (numbered start f tag ys >>= fun cs => pure cs)
    rw [bind_pure]
  | cons a xs ih =>
    rw [List.cons_append, numbered_cons, numbered_cons, ih, List.length_cons, Nat.add_right_comm,
      Nat.add_assoc]
    cases (f a).mapError (tag start) with
    | error e => rfl
    | ok b =>
      cases numbered (start + 1) f tag xs with
      | error e => rfl
      | ok bs => cases numbered (start + (xs.length + 1)) f tag ys <;> rfl

/-- A last item that is fine only adds its result. -/
theorem numbered_append_singleton {a : α} {b : β} (h : f a = .ok b) :
    numbered start f tag (items ++ [a]) = (numbered start f tag items).map (· ++ [b]) := by
  rw [numbered_append, numbered_cons, h]
  cases numbered start f tag items <;> rfl

/-- Counting from a later number only moves the number in the error. -/
theorem numbered_add {n : Nat} {shift : ε' → ε'} (h : ∀ k e, tag (k + n) e = shift (tag k e)) :
    numbered (start + n) f tag items = (numbered start f tag items).mapError shift := by
  induction items generalizing start with
  | nil => rfl
  | cons a items ih =>
    rw [numbered_cons, numbered_cons, Nat.add_right_comm, ih]
    cases f a with
    | error e => exact congrArg Except.error (h start e)
    | ok b => cases numbered (start + 1) f tag items <;> rfl

/-- A change of errors that keeps their numbers can be made item by item. -/
theorem numbered_mapError {g : ε → ε} {h : ε' → ε'} (htag : ∀ n e, h (tag n e) = tag n (g e)) :
    (numbered start f tag items).mapError h =
      numbered start (fun a => (f a).mapError g) tag items := by
  induction items generalizing start with
  | nil => rfl
  | cons a items ih =>
    rw [numbered_cons, numbered_cons, ← ih]
    cases f a with
    | error e => exact congrArg Except.error (htag start e)
    | ok b => cases numbered (start + 1) f tag items <;> rfl

/-! ## The number of the first failure -/

/-- `n` items are fine, and the one after them is not. -/
def FirstFailure (fine : α → Prop) (items : List α) (n : Nat) : Prop :=
  ∃ before a after, items = before ++ a :: after ∧ (∀ x ∈ before, fine x) ∧ ¬ fine a ∧
    before.length = n

theorem mapM_eq_ok_iff_forall {fine : α → Prop} {g : α → β}
    (hf : ∀ a b, f a = .ok b ↔ b = g a ∧ fine a) {bs : List β} :
    items.mapM f = .ok bs ↔ bs = items.map g ∧ ∀ a ∈ items, fine a := by
  induction items generalizing bs with
  | nil => simp [pure_eq_ok_iff]
  | cons a items ih =>
    simp only [mapM_cons_eq_ok_iff, hf, ih, List.map_cons, List.forall_mem_cons]
    constructor
    · rintro ⟨_, _, ⟨rfl, ha⟩, ⟨rfl, hitems⟩, rfl⟩
      exact ⟨rfl, ha, hitems⟩
    · rintro ⟨rfl, ha, hitems⟩
      exact ⟨_, _, ⟨rfl, ha⟩, ⟨rfl, hitems⟩, rfl⟩

theorem exists_numbered_eq_error_iff {fine : α → Prop} (hf : ∀ a, (∃ b, f a = .ok b) ↔ fine a)
    (htag : ∀ n n' e e', tag n e = tag n' e' → n = n') {number : Nat} :
    (∃ e, numbered start f tag items = .error (tag number e)) ↔
      ∃ n, FirstFailure fine items n ∧ number = start + n := by
  simp only [numbered_eq_error_iff, FirstFailure, hf]
  constructor
  · rintro ⟨e, before, a, after, e', hsplit, hbefore, ha, heq⟩
    refine ⟨before.length, ⟨before, a, after, hsplit, hbefore, ?_, rfl⟩, htag _ _ _ _ heq⟩
    rw [← hf, ha]
    nofun
  · rintro ⟨n, ⟨before, a, after, hsplit, hbefore, ha, rfl⟩, rfl⟩
    cases hresult : f a with
    | ok b => exact absurd ((hf a).mp ⟨b, hresult⟩) ha
    | error e => exact ⟨e, before, a, after, e, hsplit, hbefore, hresult, rfl⟩

end PCode
