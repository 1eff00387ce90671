/-!
# Bytes and little-endian numbers

A number as a fixed count of bytes, the least significant first, and back.

* `bytes_value`: every string of bytes is what its value is written as.
-/

namespace PCode

/-- A string of bytes. -/
abbrev Bytes := List UInt8

namespace LittleEndian

/-- The `count` low bytes of a number, the lowest first. -/
def bytes : (count : Nat) → Nat → Bytes
  | 0, _ => []
  | count + 1, n => UInt8.ofNat n :: bytes count (n / 256)

/-- The number that a string of bytes stands for, the lowest byte first. -/
def value : Bytes → Nat
  | [] => 0
  | b :: bs => b.toNat + 256 * value bs

@[simp] theorem length_bytes (count n : Nat) : (bytes count n).length = count := by
  induction count generalizing n with
  | zero => rfl
  | succ count ih => simp [bytes, ih]

theorem bytes_value (bs : Bytes) : bytes bs.length (value bs) = bs := by
  induction bs with
  | nil => rfl
  | cons b bs ih =>
    have hb : b.toNat < 256 := b.toNat_lt
    have hlow : UInt8.ofNat (b.toNat + 256 * value bs) = b := by
      apply UInt8.toNat_inj.mp
      rw [UInt8.toNat_ofNat']
      omega
    have hhigh : (b.toNat + 256 * value bs) / 256 = value bs := by omega
    simp only [List.length_cons, value, bytes, hlow, hhigh, ih]

end LittleEndian

end PCode
