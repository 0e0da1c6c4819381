import StackProfiler.Bytes.Endian

/-!
# Reading numbers from a file

A file is a sequence of bytes with an order in which its numbers are written. A read that would go
past the end gives nothing.
-/

namespace StackProfiler.Binary

/-- Bytes, and the order of the bytes of a number. -/
structure Source where
  bytes : ByteArray
  littleEndian : Bool

namespace Source

/-- The bytes from an offset on. -/
def slice? (s : Source) (offset count : Nat) : Option ByteArray :=
  if offset + count ≤ s.bytes.size then some (s.bytes.extract offset (offset + count)) else none

/-- The number in so many bytes. -/
def nat? (s : Source) (offset count : Nat) : Option Nat :=
  (s.slice? offset count).map fun bytes =>
    if s.littleEndian then Bytes.ofLittleEndian bytes.data.toList
    else Bytes.ofBigEndian bytes.data.toList

/-- The bytes from an offset up to the next zero, which must come before `stop`. -/
def cString? (s : Source) (offset stop : Nat) : Option (List UInt8) :=
  let text := (s.bytes.extract offset stop).data.toList
  let found := text.takeWhile (· != 0)
  if found.length < text.length then some found else none

/-- The same bytes cut to a part; an empty part if it goes past the end. -/
def part (s : Source) (offset count : Nat) : Source :=
  { s with bytes := (s.slice? offset count).getD .empty }

end Source

end StackProfiler.Binary
