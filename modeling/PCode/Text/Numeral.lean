/-!
# Numerals

Three notations, all of ASCII digits.

* A *natural* is one or more digits of a base.
* An *unsigned* numeral is a decimal natural, after one plus sign or none.
* A *signed* numeral has one sign or none, and then a decimal natural, or `0x` or `0X` and a
  hexadecimal natural. It has to fit 64 bits.

Leading zeros are allowed everywhere.
-/

namespace PCode.Text

/-- The value of a digit of a base up to sixteen. -/
def digit? (base : Nat) (c : Char) : Option Nat :=
  let value? :=
    if '0' ≤ c ∧ c ≤ '9' then some (c.toNat - '0'.toNat)
    else if 'a' ≤ c ∧ c ≤ 'f' then some (c.toNat - 'a'.toNat + 10)
    else if 'A' ≤ c ∧ c ≤ 'F' then some (c.toNat - 'A'.toNat + 10)
    else none
  value?.filter (· < base)

/-- The number with one digit more than `n`. -/
def extend? (base : Nat) (n : Nat) (c : Char) : Option Nat :=
  (digit? base c).map (base * n + ·)

/-- The number that one or more digits stand for. -/
def natural? (base : Nat) : List Char → Option Nat
  | [] => none
  | digits => digits.foldlM (extend? base) 0

/-- The number that an unsigned decimal stands for. -/
def unsigned? : List Char → Option Nat
  | '+' :: digits => natural? 10 digits
  | digits => natural? 10 digits

/-- The number that a decimal, or a hexadecimal after `0x` or `0X`, stands for. -/
def magnitude? : List Char → Option Nat
  | '0' :: 'x' :: digits => natural? 16 digits
  | '0' :: 'X' :: digits => natural? 16 digits
  | digits => natural? 10 digits

/-- The number that a signed numeral stands for, whatever its size. -/
def integer? : List Char → Option Int
  | '-' :: digits => (magnitude? digits).map fun n => -(n : Int)
  | '+' :: digits => (magnitude? digits).map fun n => (n : Int)
  | digits => (magnitude? digits).map fun n => (n : Int)

/-- The number that a signed numeral stands for, if it fits 64 bits. -/
def signed? (word : List Char) : Option Int :=
  (integer? word).filter fun n => -0x8000000000000000 ≤ n ∧ n < 0x8000000000000000

/-- The word is meant as a numeral: it starts with a digit, after one sign or none. -/
def startsNumeral : List Char → Bool
  | '+' :: c :: _ => c.isDigit
  | '-' :: c :: _ => c.isDigit
  | c :: _ => c.isDigit
  | [] => false

end PCode.Text
