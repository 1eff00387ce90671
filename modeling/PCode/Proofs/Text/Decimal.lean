import PCode.Text.Numeral

/-!
# Decimal text

What `toString` writes for a number is a numeral of the assembly language, and reading it gives the
number back.

* `natural?_toDigits`, `unsigned?_toDigits`: the digits of a natural number.
* `signed?_toString`: an integer that fits 64 bits.
-/

namespace PCode.Text

/-! ## Digits -/

theorem digit?_of_isDigit {c : Char} (h : c.isDigit) :
    digit? 10 c = some (c.toNat - '0'.toNat) := by
  have hrange : '0' ≤ c ∧ c ≤ '9' := by
    rw [Char.isDigit, Bool.and_eq_true] at h
    exact ⟨of_decide_eq_true h.1, of_decide_eq_true h.2⟩
  have hlt : c.toNat - '0'.toNat < 10 := by
    have hle : c.toNat ≤ 57 := hrange.2
    show c.toNat - 48 < 10
    omega
  rw [digit?, if_pos hrange]
  exact Option.filter_some_pos (decide_eq_true hlt)

theorem foldlM_extend?_of_isDigit {cs : List Char} (h : ∀ c ∈ cs, c.isDigit) (n : Nat) :
    cs.foldlM (extend? 10) n = some (Nat.ofDigitChars 10 cs n) := by
  induction cs generalizing n with
  | nil => rfl
  | cons c cs ih =>
    obtain ⟨hc, hcs⟩ := List.forall_mem_cons.mp h
    rw [List.foldlM_cons, extend?, digit?_of_isDigit hc, Nat.ofDigitChars_cons]
    exact ih hcs _

theorem natural?_of_isDigit {cs : List Char} (hne : cs ≠ []) (h : ∀ c ∈ cs, c.isDigit) :
    natural? 10 cs = some (Nat.ofDigitChars 10 cs 0) := by
  cases cs with
  | nil => exact absurd rfl hne
  | cons c cs => exact foldlM_extend?_of_isDigit h 0

theorem isDigit_of_mem_toDigits {n : Nat} {c : Char} (h : c ∈ Nat.toDigits 10 n) : c.isDigit :=
  Nat.isDigit_of_mem_toDigits (by decide) (by decide) h

theorem natural?_toDigits (n : Nat) : natural? 10 (Nat.toDigits 10 n) = some n := by
  rw [natural?_of_isDigit Nat.toDigits_ne_nil fun _ => isDigit_of_mem_toDigits,
    Nat.ofDigitChars_ten_toDigits]

/-! ## Numerals without a sign -/

theorem toList_toString_nat (n : Nat) : (toString n).toList = Nat.toDigits 10 n := by
  rw [Nat.toString_eq_ofList_toDigits, String.toList_ofList]

theorem unsigned?_of_isDigit {cs : List Char} (h : ∀ c ∈ cs, c.isDigit) :
    unsigned? cs = natural? 10 cs := by
  unfold unsigned?
  split
  · exact absurd (h '+' List.mem_cons_self) (by decide)
  · rfl

theorem unsigned?_toDigits (n : Nat) : unsigned? (Nat.toDigits 10 n) = some n := by
  rw [unsigned?_of_isDigit fun _ => isDigit_of_mem_toDigits, natural?_toDigits]

/-- Only digits follow the first, so there is no `0x` in front of them. -/
theorem magnitude?_of_isDigit {cs : List Char} (h : ∀ c ∈ cs, c.isDigit) :
    magnitude? cs = natural? 10 cs := by
  unfold magnitude?
  split
  · exact absurd (h 'x' (by simp)) (by decide)
  · exact absurd (h 'X' (by simp)) (by decide)
  · rfl

theorem magnitude?_toDigits (n : Nat) : magnitude? (Nat.toDigits 10 n) = some n := by
  rw [magnitude?_of_isDigit fun _ => isDigit_of_mem_toDigits, natural?_toDigits]

/-! ## Numerals with a sign -/

/-- The text of an integer: a minus sign in front of the digits if it is negative. -/
theorem toList_toString_int (n : Int) :
    (toString n).toList =
      if 0 ≤ n then Nat.toDigits 10 n.toNat else '-' :: Nat.toDigits 10 (-n).toNat := by
  rw [Int.toString_eq_repr, Int.repr_eq_if]
  split <;> simp

theorem integer?_of_isDigit {cs : List Char} (h : ∀ c ∈ cs, c.isDigit) :
    integer? cs = (magnitude? cs).map Int.ofNat := by
  unfold integer?
  split
  · exact absurd (h '-' List.mem_cons_self) (by decide)
  · exact absurd (h '+' List.mem_cons_self) (by decide)
  · cases magnitude? cs <;> rfl

theorem integer?_toString (n : Int) : integer? (toString n).toList = some n := by
  rw [toList_toString_int]
  split
  next hn =>
    rw [integer?_of_isDigit fun _ => isDigit_of_mem_toDigits, magnitude?_toDigits]
    exact congrArg some (Int.toNat_of_nonneg hn)
  next hn =>
    rw [integer?, magnitude?_toDigits]
    show some (-((-n).toNat : Int)) = some n
    rw [Int.toNat_of_nonneg (by omega), Int.neg_neg]

theorem signed?_toString {n : Int} (h : -0x8000000000000000 ≤ n ∧ n < 0x8000000000000000) :
    signed? (toString n).toList = some n := by
  rw [signed?, integer?_toString]
  exact Option.filter_some_pos (decide_eq_true h)

theorem startsNumeral_of_isDigit {c : Char} {cs : List Char} (h : c.isDigit) :
    startsNumeral (c :: cs) := by
  unfold startsNumeral
  split
  next heq => obtain ⟨rfl, -⟩ := List.cons.inj heq; exact absurd h (by decide)
  next heq => obtain ⟨rfl, -⟩ := List.cons.inj heq; exact absurd h (by decide)
  next heq => obtain ⟨rfl, -⟩ := List.cons.inj heq; exact h
  next heq => cases heq

theorem toDigits_eq_cons (n : Nat) :
    ∃ c cs, Nat.toDigits 10 n = c :: cs ∧ c.isDigit := by
  obtain ⟨c, cs, hcs⟩ := List.exists_cons_of_ne_nil (Nat.toDigits_ne_nil (n := n) (b := 10))
  exact ⟨c, cs, hcs, isDigit_of_mem_toDigits (hcs ▸ List.mem_cons_self)⟩

theorem startsNumeral_toString (n : Int) : startsNumeral (toString n).toList := by
  rw [toList_toString_int]
  split
  next =>
    obtain ⟨c, cs, hcs, hc⟩ := toDigits_eq_cons n.toNat
    rw [hcs]
    exact startsNumeral_of_isDigit hc
  next =>
    obtain ⟨c, cs, hcs, hc⟩ := toDigits_eq_cons (-n).toNat
    rw [hcs]
    exact hc

end PCode.Text
