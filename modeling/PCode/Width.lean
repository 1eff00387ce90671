/-!
# Integers in 16, 32 and 64 bits

`int16?`, `int32?` and `int64?` narrow an integer to a signed width and refuse what does not fit.
`clamp64` moves an integer to the nearest one that fits 64 bits.

* `int16?_eq_some_iff`, `int32?_eq_some_iff`, `int64?_eq_some_iff`: a narrowed integer keeps its
  value.
* `int16?_isSome_iff`, `int32?_isSome_iff`, `int64?_isSome_iff`: the range of each width.
-/

namespace PCode

/-- The integer in 16 bits, if it fits. -/
def int16? (n : Int) : Option Int16 :=
  if -0x8000 ≤ n ∧ n < 0x8000 then some (Int16.ofInt n) else none

/-- The integer in 32 bits, if it fits. -/
def int32? (n : Int) : Option Int32 :=
  if -0x80000000 ≤ n ∧ n < 0x80000000 then some (Int32.ofInt n) else none

/-- The integer in 64 bits, if it fits. -/
def int64? (n : Int) : Option Int64 :=
  if -0x8000000000000000 ≤ n ∧ n < 0x8000000000000000 then some (Int64.ofInt n) else none

/-- The integer itself if it fits 64 bits, else the end of the range that it lies beyond. -/
def clamp64 (n : Int) : Int := max (-0x8000000000000000) (min n (0x8000000000000000 - 1))

theorem int16?_isSome_iff (n : Int) : (int16? n).isSome ↔ -0x8000 ≤ n ∧ n < 0x8000 := by
  unfold int16?
  split <;> simp_all

theorem int32?_isSome_iff (n : Int) : (int32? n).isSome ↔ -0x80000000 ≤ n ∧ n < 0x80000000 := by
  unfold int32?
  split <;> simp_all

theorem int64?_isSome_iff (n : Int) : (int64? n).isSome ↔ -0x8000000000000000 ≤ n ∧ n < 0x8000000000000000 := by
  unfold int64?
  split <;> simp_all

theorem int16?_eq_some_iff {n : Int} {w : Int16} : int16? n = some w ↔ w.toInt = n := by
  have hlo := w.le_toInt
  have hhi := w.toInt_lt
  unfold int16?
  constructor
  · intro h
    split at h
    next hr =>
      obtain rfl := Option.some.inj h
      exact Int16.toInt_ofInt_of_le (by omega) (by omega)
    next => cases h
  · rintro rfl
    rw [if_pos (by omega), Int16.ofInt_toInt]

theorem int32?_eq_some_iff {n : Int} {w : Int32} : int32? n = some w ↔ w.toInt = n := by
  have hlo := w.le_toInt
  have hhi := w.toInt_lt
  unfold int32?
  constructor
  · intro h
    split at h
    next hr =>
      obtain rfl := Option.some.inj h
      exact Int32.toInt_ofInt_of_le (by omega) (by omega)
    next => cases h
  · rintro rfl
    rw [if_pos (by omega), Int32.ofInt_toInt]

theorem int64?_eq_some_iff {n : Int} {w : Int64} : int64? n = some w ↔ w.toInt = n := by
  have hlo := w.le_toInt
  have hhi := w.toInt_lt
  unfold int64?
  constructor
  · intro h
    split at h
    next hr =>
      obtain rfl := Option.some.inj h
      exact Int64.toInt_ofInt_of_le (by omega) (by omega)
    next => cases h
  · rintro rfl
    rw [if_pos (by omega), Int64.ofInt_toInt]

end PCode
