import PCode.Text.Blank
import PCode.Text.Numeral
import PCode.Text.Upper

/-!
# The case of ASCII letters

`Char.toUpper` changes the ASCII letters and no other characters. What the assembly language asks of
a character has the same answer for both cases of a letter, so texts that differ in the case of
ASCII letters only are read alike.

* `toUpper_invariant`: what is the same for both cases of the 26 letters is so for all characters.
* `unsigned?_map_toUpper`, `signed?_map_toUpper`, `startsNumeral_map_toUpper`: numerals.
* `upper_map_toUpper`: names.
-/

namespace PCode.Text

/-! ## Characters -/

/-- A character of a range is given by its distance from the first one. -/
theorem eq_ofNat_of_le {c : Char} {first last : Char} (h : first ≤ c ∧ c ≤ last) :
    c = Char.ofNat (first.toNat + (c.toNat - first.toNat)) ∧
      c.toNat - first.toNat ≤ last.toNat - first.toNat := by
  have hlow : first.toNat ≤ c.toNat := h.1
  have hhigh : c.toNat ≤ last.toNat := h.2
  refine ⟨?_, by omega⟩
  rw [Nat.add_sub_of_le hlow, Char.ofNat_toNat]

theorem toUpper_eq_or (c : Char) : c.toUpper = c ∨ ∃ k < 26, c = Char.ofNat ('a'.toNat + k) := by
  unfold Char.toUpper
  split
  next h =>
    have hrange : 'a' ≤ c ∧ c ≤ 'z' := h
    obtain ⟨hc, hle⟩ := eq_ofNat_of_le hrange
    exact .inr ⟨_, Nat.lt_succ_of_le hle, hc⟩
  next => exact .inl rfl

/-- What is the same for both cases of every ASCII letter is the same for both cases of every
character. -/
theorem toUpper_invariant {β : Type} {f : Char → β}
    (h : ∀ k < 26, f (Char.ofNat ('a'.toNat + k)).toUpper = f (Char.ofNat ('a'.toNat + k)))
    (c : Char) : f c.toUpper = f c := by
  rcases toUpper_eq_or c with heq | ⟨k, hk, rfl⟩
  · rw [heq]
  · exact h k hk

theorem toUpper_toUpper (c : Char) : c.toUpper.toUpper = c.toUpper :=
  toUpper_invariant (by decide) c

theorem isBlank_toUpper (c : Char) : isBlank c.toUpper = isBlank c :=
  toUpper_invariant (by decide) c

theorem isDigit_toUpper (c : Char) : c.toUpper.isDigit = c.isDigit :=
  toUpper_invariant (f := Char.isDigit) (by decide) c

theorem digit?_toUpper {base : Nat} (hbase : base = 10 ∨ base = 16) (c : Char) :
    digit? base c.toUpper = digit? base c := by
  rcases hbase with rfl | rfl
  · exact toUpper_invariant (by decide) c
  · exact toUpper_invariant (by decide) c

theorem upperChar_toUpper (c : Char) : upperChar c.toUpper = upperChar c :=
  toUpper_invariant (by decide) c

/-- A character that is no ASCII letter is the upper case of itself only. -/
theorem toUpper_eq_iff {a : Char} (ha : a.isAlpha = false) {c : Char} : c.toUpper = a ↔ c = a := by
  have hletters : ∀ k < 26, (Char.ofNat ('a'.toNat + k)).isAlpha ∧
      (Char.ofNat ('a'.toNat + k)).toUpper.isAlpha := by decide
  rcases toUpper_eq_or c with heq | ⟨k, hk, rfl⟩
  · rw [heq]
  · obtain ⟨hlower, hupper⟩ := hletters k hk
    constructor
    · rintro rfl
      rw [hupper] at ha
      cases ha
    · rintro rfl
      rw [hlower] at ha
      cases ha

theorem toUpper_beq {a : Char} (ha : a.isAlpha = false) (c : Char) :
    (c.toUpper == a) = (c == a) := by
  rw [Bool.eq_iff_iff, beq_iff_eq, beq_iff_eq, toUpper_eq_iff ha]

/-! ## Numerals and names -/

theorem natural?_map_toUpper {base : Nat} (hbase : base = 10 ∨ base = 16) (cs : List Char) :
    natural? base (cs.map Char.toUpper) = natural? base cs := by
  cases cs with
  | nil => rfl
  | cons c cs =>
    have hextend : (fun n c => extend? base n (Char.toUpper c)) = extend? base := by
      funext n c
      rw [extend?, digit?_toUpper hbase]
      rfl
    show ((c :: cs).map Char.toUpper).foldlM (extend? base) 0 = (c :: cs).foldlM (extend? base) 0
    rw [List.foldlM_map, hextend]

theorem unsigned?_of_ne {c : Char} (hc : c ≠ '+') (cs : List Char) :
    unsigned? (c :: cs) = natural? 10 (c :: cs) := by
  rw [unsigned?]
  intro digits h
  exact hc (List.cons.inj h).1

theorem unsigned?_map_toUpper (cs : List Char) :
    unsigned? (cs.map Char.toUpper) = unsigned? cs := by
  cases cs with
  | nil => rfl
  | cons c cs =>
    by_cases hc : c = '+'
    · rw [hc]
      exact natural?_map_toUpper (.inl rfl) cs
    · have hupper : c.toUpper ≠ '+' := fun h => hc ((toUpper_eq_iff rfl).mp h)
      rw [unsigned?_of_ne hc, List.map_cons, unsigned?_of_ne hupper, ← List.map_cons,
        natural?_map_toUpper (.inl rfl)]

/-- Only `0x` and `0X` mark the base sixteen. -/
theorem magnitude?_cons_cons (c x : Char) (cs : List Char) :
    magnitude? (c :: x :: cs) =
      if c = '0' ∧ (x = 'x' ∨ x = 'X') then natural? 16 cs else natural? 10 (c :: x :: cs) := by
  split
  next h =>
    obtain ⟨rfl, rfl | rfl⟩ := h
    · rfl
    · rfl
  next h =>
    rw [magnitude?]
    · rintro digits ⟨⟩
      exact h ⟨rfl, .inl rfl⟩
    · rintro digits ⟨⟩
      exact h ⟨rfl, .inr rfl⟩

theorem toUpper_eq_mark_iff (x : Char) :
    x.toUpper = 'x' ∨ x.toUpper = 'X' ↔ x = 'x' ∨ x = 'X' := by
  have hmark := toUpper_invariant (f := fun c => decide (c = 'x' ∨ c = 'X')) (by decide) x
  simpa only [decide_eq_decide] using hmark

theorem magnitude?_singleton (c : Char) : magnitude? [c] = natural? 10 [c] := by
  rw [magnitude?]
  · nofun
  · nofun

theorem magnitude?_map_toUpper (cs : List Char) :
    magnitude? (cs.map Char.toUpper) = magnitude? cs := by
  have hdecimal := natural?_map_toUpper (.inl rfl) cs
  cases cs with
  | nil => rfl
  | cons c cs =>
    cases cs with
    | nil => rwa [List.map_singleton, magnitude?_singleton, magnitude?_singleton]
    | cons x cs =>
      simp only [List.map_cons] at hdecimal ⊢
      simp only [magnitude?_cons_cons, toUpper_eq_iff (a := '0') rfl, toUpper_eq_mark_iff,
        natural?_map_toUpper (.inr rfl), hdecimal]

theorem integer?_of_ne {c : Char} (hminus : c ≠ '-') (hplus : c ≠ '+') (cs : List Char) :
    integer? (c :: cs) = (magnitude? (c :: cs)).map Int.ofNat := by
  rw [integer?]
  · cases magnitude? (c :: cs) <;> rfl
  · intro digits h
    exact hminus (List.cons.inj h).1
  · intro digits h
    exact hplus (List.cons.inj h).1

theorem integer?_map_toUpper (cs : List Char) :
    integer? (cs.map Char.toUpper) = integer? cs := by
  cases cs with
  | nil => rfl
  | cons c cs =>
    by_cases hminus : c = '-'
    · rw [hminus, List.map_cons]
      simp only [integer?, magnitude?_map_toUpper, show '-'.toUpper = '-' from rfl]
    · by_cases hplus : c = '+'
      · rw [hplus, List.map_cons]
        simp only [integer?, magnitude?_map_toUpper, show '+'.toUpper = '+' from rfl]
      · have hminus' : c.toUpper ≠ '-' := fun h => hminus ((toUpper_eq_iff rfl).mp h)
        have hplus' : c.toUpper ≠ '+' := fun h => hplus ((toUpper_eq_iff rfl).mp h)
        rw [integer?_of_ne hminus hplus, List.map_cons, integer?_of_ne hminus' hplus',
          ← List.map_cons, magnitude?_map_toUpper]

theorem signed?_map_toUpper (word : List Char) :
    signed? (word.map Char.toUpper) = signed? word := by
  rw [signed?, signed?, integer?_map_toUpper]

theorem startsNumeral_cons (c : Char) (cs : List Char) :
    startsNumeral (c :: cs) =
      if c = '+' ∨ c = '-' then cs.head?.any Char.isDigit else c.isDigit := by
  split
  next h => rcases h with rfl | rfl <;> cases cs <;> rfl
  next h =>
    rw [startsNumeral]
    · intro d rest hplus _
      exact h (.inl hplus)
    · intro d rest hminus _
      exact h (.inr hminus)

theorem startsNumeral_map_toUpper (word : List Char) :
    startsNumeral (word.map Char.toUpper) = startsNumeral word := by
  cases word with
  | nil => rfl
  | cons c cs =>
    have hhead : (cs.map Char.toUpper).head?.any Char.isDigit = cs.head?.any Char.isDigit := by
      cases cs with
      | nil => rfl
      | cons d cs => exact isDigit_toUpper d
    simp only [List.map_cons, startsNumeral_cons, toUpper_eq_iff (a := '+') rfl,
      toUpper_eq_iff (a := '-') rfl, hhead, isDigit_toUpper]

theorem upper_map_toUpper (cs : List Char) : upper (cs.map Char.toUpper) = upper cs := by
  simp only [upper, List.flatMap_map, upperChar_toUpper]

end PCode.Text
