import Mathlib.Data.List.Forall2
import Mathlib.Data.Nat.Digits.Defs
import PCode.Proofs.Text.Decimal
import PCode.Proofs.Text.LetterCase

/-!
# The grammar of numerals

Which texts are numerals, and which number each of them stands for, said without a reader: a numeral
is made of digits, and its number is the one that has these digits in the base.

* `IsDigit`, `IsNatural`, `IsUnsigned`, `IsMagnitude`, `IsNumeral`: the grammar.
* `natural?_eq_some_iff`, `unsigned?_eq_some_iff`, `integer?_eq_some_iff`: each reader accepts the
  texts of its rule, and reads the number of the text.
* `startsNumeral_of_isNumeral`: a numeral starts like one.
-/

namespace PCode.Text

/-! ## Digits -/

/-- The character is the digit `d` of a base up to sixteen, in either case. -/
def IsDigit (base : Nat) (c : Char) (d : Nat) : Prop :=
  d < base ∧ (c = Nat.digitChar d ∨ c = (Nat.digitChar d).toUpper)

theorem isDigit_of_isDigit {c : Char} {d : Nat} (h : IsDigit 10 c d) : c.isDigit := by
  obtain ⟨hlt, hc⟩ := h
  have hall : ∀ d < 10, (Nat.digitChar d).isDigit ∧ (Nat.digitChar d).toUpper.isDigit := by decide
  rcases hc with rfl | rfl
  · exact (hall d hlt).1
  · exact (hall d hlt).2

theorem digit?_of_isDigit_sixteen {c : Char} {d : Nat} (h : IsDigit 16 c d) :
    digit? 16 c = some d := by
  obtain ⟨hlt, hc⟩ := h
  have hall : ∀ d < 16, digit? 16 (Nat.digitChar d) = some d ∧
      digit? 16 (Nat.digitChar d).toUpper = some d := by decide
  rcases hc with rfl | rfl
  · exact (hall d hlt).1
  · exact (hall d hlt).2

theorem isDigit_of_digit?_sixteen {c : Char} {d : Nat} (h : digit? 16 c = some d) :
    IsDigit 16 c d := by
  have hdecimal : ∀ k < 10, Char.ofNat ('0'.toNat + k) = Nat.digitChar k := by decide
  have hlower : ∀ k < 6, Char.ofNat ('a'.toNat + k) = Nat.digitChar (k + 10) := by decide
  have hupper : ∀ k < 6, Char.ofNat ('A'.toNat + k) = (Nat.digitChar (k + 10)).toUpper := by decide
  obtain ⟨hvalue, hlt⟩ := Option.filter_eq_some_iff.mp h
  refine ⟨of_decide_eq_true hlt, ?_⟩
  -- the three runs of digits, in the order in which they are tried
  split at hvalue
  next hrange =>
    obtain ⟨hc, hle⟩ := eq_ofNat_of_le hrange
    obtain rfl := Option.some.inj hvalue
    exact .inl (hc.trans (hdecimal _ (Nat.lt_succ_of_le hle)))
  next =>
    split at hvalue
    next hrange =>
      obtain ⟨hc, hle⟩ := eq_ofNat_of_le hrange
      obtain rfl := Option.some.inj hvalue
      exact .inl (hc.trans (hlower _ (Nat.lt_succ_of_le hle)))
    next =>
      split at hvalue
      next hrange =>
        obtain ⟨hc, hle⟩ := eq_ofNat_of_le hrange
        obtain rfl := Option.some.inj hvalue
        exact .inr (hc.trans (hupper _ (Nat.lt_succ_of_le hle)))
      next => cases hvalue

theorem digit?_eq_some_iff {base : Nat} (hbase : base ≤ 16) {c : Char} {d : Nat} :
    digit? base c = some d ↔ IsDigit base c d := by
  have hsixteen : digit? 16 c = some d ↔ IsDigit 16 c d :=
    ⟨isDigit_of_digit?_sixteen, digit?_of_isDigit_sixteen⟩
  unfold digit? IsDigit at hsixteen ⊢
  simp only [Option.filter_eq_some_iff, decide_eq_true_eq] at hsixteen ⊢
  constructor
  · rintro ⟨hvalue, hlt⟩
    exact ⟨hlt, (hsixteen.mp ⟨hvalue, by omega⟩).2⟩
  · rintro ⟨hlt, hc⟩
    exact ⟨(hsixteen.mpr ⟨by omega, hc⟩).1, hlt⟩

/-! ## Numerals without a sign -/

/-- One or more digits of a base, and the number that has these digits. -/
def IsNatural (base : Nat) (cs : List Char) (n : Nat) : Prop :=
  cs ≠ [] ∧ ∃ ds, List.Forall₂ (IsDigit base) cs ds ∧ n = Nat.ofDigits base ds.reverse

/-- A decimal natural, after one plus sign or none. -/
inductive IsUnsigned : List Char → Nat → Prop
  | plain {cs : List Char} {n : Nat} : IsNatural 10 cs n → IsUnsigned cs n
  | plus {cs : List Char} {n : Nat} : IsNatural 10 cs n → IsUnsigned ('+' :: cs) n

/-- A decimal natural, or `0x` or `0X` and a hexadecimal natural. -/
inductive IsMagnitude : List Char → Nat → Prop
  | decimal {cs : List Char} {n : Nat} : IsNatural 10 cs n → IsMagnitude cs n
  | hexadecimal {x : Char} {cs : List Char} {n : Nat} :
    x = 'x' ∨ x = 'X' → IsNatural 16 cs n → IsMagnitude ('0' :: x :: cs) n

/-- The digits are read from the left; what was read before them is one more digit in front. -/
theorem foldlM_extend?_eq_some_iff {base : Nat} (hbase : base ≤ 16) {cs : List Char} {n m : Nat} :
    cs.foldlM (extend? base) n = some m ↔
      ∃ ds, List.Forall₂ (IsDigit base) cs ds ∧ m = Nat.ofDigits base (ds.reverse ++ [n]) := by
  induction cs generalizing n with
  | nil => simp [eq_comm]
  | cons c cs ih =>
    have hdigits (ds : List Nat) (d : Nat) :
        Nat.ofDigits base ((d :: ds).reverse ++ [n]) =
          Nat.ofDigits base (ds.reverse ++ [base * n + d]) := by
      simp [Nat.ofDigits_append, Nat.ofDigits_cons, Nat.add_comm]
    simp only [List.foldlM_cons, Option.bind_eq_bind, Option.bind_eq_some_iff, extend?,
      Option.map_eq_some_iff, digit?_eq_some_iff hbase, ih]
    constructor
    · rintro ⟨_, ⟨d, hd, rfl⟩, ds, hds, rfl⟩
      exact ⟨d :: ds, .cons hd hds, (hdigits ds d).symm⟩
    · rintro ⟨_, hds, rfl⟩
      cases hds with
      | @cons _ d _ ds hd hds => exact ⟨_, ⟨d, hd, rfl⟩, ds, hds, hdigits ds d⟩

theorem natural?_eq_some_iff {base : Nat} (hbase : base ≤ 16) {cs : List Char} {n : Nat} :
    natural? base cs = some n ↔ IsNatural base cs n := by
  cases cs with
  | nil => simp [natural?, IsNatural]
  | cons c cs =>
    rw [natural?, foldlM_extend?_eq_some_iff hbase, IsNatural]
    · simp [Nat.ofDigits_append]
    · nofun

/-- What is no digit of the base starts no natural of it. -/
theorem not_isNatural_cons {c : Char} (h : digit? 10 c = none) (cs : List Char) (n : Nat) :
    ¬ IsNatural 10 (c :: cs) n := by
  rintro ⟨-, ds, hds, -⟩
  cases hds with
  | cons hd =>
    rw [(digit?_eq_some_iff (by decide)).mpr hd] at h
    cases h

theorem unsigned?_eq_some_iff {cs : List Char} {n : Nat} :
    unsigned? cs = some n ↔ IsUnsigned cs n := by
  constructor
  · intro h
    unfold unsigned? at h
    split at h
    · exact .plus ((natural?_eq_some_iff (by decide)).mp h)
    · exact .plain ((natural?_eq_some_iff (by decide)).mp h)
  · rintro (h | h)
    · unfold unsigned?
      split
      · exact absurd h (not_isNatural_cons rfl _ n)
      · exact (natural?_eq_some_iff (by decide)).mpr h
    · exact (natural?_eq_some_iff (by decide)).mpr h

/-- The letter of the mark for base sixteen is no decimal digit. -/
theorem not_isNatural_mark {x : Char} (hx : x = 'x' ∨ x = 'X') (cs : List Char) (n : Nat) :
    ¬ IsNatural 10 ('0' :: x :: cs) n := by
  intro h
  rw [← natural?_eq_some_iff (by decide)] at h
  rcases hx with rfl | rfl
  · exact nomatch h
  · exact nomatch h

theorem magnitude?_eq_some_iff {cs : List Char} {n : Nat} :
    magnitude? cs = some n ↔ IsMagnitude cs n := by
  constructor
  · intro h
    unfold magnitude? at h
    split at h
    · exact .hexadecimal (.inl rfl) ((natural?_eq_some_iff (by decide)).mp h)
    · exact .hexadecimal (.inr rfl) ((natural?_eq_some_iff (by decide)).mp h)
    · exact .decimal ((natural?_eq_some_iff (by decide)).mp h)
  · intro h
    cases h with
    | decimal h =>
      unfold magnitude?
      split
      · exact absurd h (not_isNatural_mark (.inl rfl) _ n)
      · exact absurd h (not_isNatural_mark (.inr rfl) _ n)
      · exact (natural?_eq_some_iff (by decide)).mpr h
    | hexadecimal hx h =>
      rcases hx with rfl | rfl <;> exact (natural?_eq_some_iff (by decide)).mpr h

/-- The first character is a digit; so it is no sign. -/
theorem IsMagnitude.exists_cons {cs : List Char} {n : Nat} (h : IsMagnitude cs n) :
    ∃ c rest, cs = c :: rest ∧ c.isDigit := by
  cases h with
  | decimal h =>
    obtain ⟨hne, ds, hds, -⟩ := h
    cases hds with
    | nil => exact absurd rfl hne
    | cons hd => exact ⟨_, _, rfl, isDigit_of_isDigit hd⟩
  | hexadecimal => exact ⟨_, _, rfl, rfl⟩

/-! ## Numerals with a sign -/

/-- A magnitude, after one sign or none. -/
inductive IsNumeral : List Char → Int → Prop
  | plain {cs : List Char} {n : Nat} : IsMagnitude cs n → IsNumeral cs n
  | plus {cs : List Char} {n : Nat} : IsMagnitude cs n → IsNumeral ('+' :: cs) n
  | minus {cs : List Char} {n : Nat} : IsMagnitude cs n → IsNumeral ('-' :: cs) (-n)

theorem map_bind_cast_eq_some_iff {o : Option Nat} {g : Int → Int} {n : Int} :
    (o >>= fun m => pure (m : Int)).map g = some n ↔ ∃ m : Nat, o = some m ∧ n = g m := by
  cases o <;> simp [eq_comm]

theorem integer?_eq_some_iff {cs : List Char} {n : Int} :
    integer? cs = some n ↔ IsNumeral cs n := by
  constructor
  · intro h
    unfold integer? at h
    split at h
    all_goals
      obtain ⟨m, hm, rfl⟩ := map_bind_cast_eq_some_iff.mp h
      rw [magnitude?_eq_some_iff] at hm
    · exact .minus hm
    · exact .plus hm
    · exact .plain hm
  · intro h
    cases h with
    | plain h =>
      obtain ⟨c, rest, rfl, hc⟩ := h.exists_cons
      unfold integer?
      split
      next heq => obtain ⟨rfl, -⟩ := List.cons.inj heq; exact absurd hc (by decide)
      next heq => obtain ⟨rfl, -⟩ := List.cons.inj heq; exact absurd hc (by decide)
      next => exact map_bind_cast_eq_some_iff.mpr ⟨_, magnitude?_eq_some_iff.mpr h, rfl⟩
    | plus h | minus h =>
      exact map_bind_cast_eq_some_iff.mpr ⟨_, magnitude?_eq_some_iff.mpr h, rfl⟩

theorem signed?_eq_some_iff {word : List Char} {n : Int} :
    signed? word = some n ↔
      IsNumeral word n ∧ -0x8000000000000000 ≤ n ∧ n < 0x8000000000000000 := by
  rw [signed?, Option.filter_eq_some_iff, integer?_eq_some_iff, decide_eq_true_eq]

theorem startsNumeral_of_isNumeral {cs : List Char} {n : Int} (h : IsNumeral cs n) :
    startsNumeral cs := by
  cases h with
  | plain h =>
    obtain ⟨c, rest, rfl, hc⟩ := h.exists_cons
    exact startsNumeral_of_isDigit hc
  | plus h | minus h =>
    obtain ⟨c, rest, rfl, hc⟩ := h.exists_cons
    exact hc

end PCode.Text
