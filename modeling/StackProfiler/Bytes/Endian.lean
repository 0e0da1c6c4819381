/-!
# Whole numbers in bytes

A number is written in a given count of bytes, least significant first or most significant first.
Reading takes any count of bytes; reading back what was written gives the number modulo 256 to the
power of the count.
-/

namespace StackProfiler.Bytes

/-- The lowest `count` bytes of a number, least significant first. -/
def littleEndian : (count n : Nat) → List UInt8
  | 0, _ => []
  | count + 1, n => UInt8.ofNat n :: littleEndian count (n / 256)

/-- The number written least significant byte first. -/
def ofLittleEndian : List UInt8 → Nat
  | [] => 0
  | b :: bs => b.toNat + 256 * ofLittleEndian bs

/-- The number written most significant byte first. -/
def ofBigEndian (bs : List UInt8) : Nat :=
  ofLittleEndian bs.reverse

@[simp]
theorem length_littleEndian (count n : Nat) : (littleEndian count n).length = count := by
  induction count generalizing n with
  | zero => rfl
  | succ count ih => simp [littleEndian, ih]

/-- Reading back what was written gives the number, as far as the bytes reach. -/
theorem ofLittleEndian_littleEndian (count n : Nat) :
    ofLittleEndian (littleEndian count n) = n % Nat.pow 256 count := by
  induction count generalizing n with
  | zero => simp [littleEndian, ofLittleEndian, Nat.mod_one]
  | succ count ih =>
    have hb : (UInt8.ofNat n).toNat = n % 256 := by simp
    simp only [littleEndian, ofLittleEndian, ih, hb, Nat.pow_eq, Nat.pow_succ,
      Nat.mul_comm (256 ^ count)]
    rw [Nat.mod_mul]

end StackProfiler.Bytes
