/-!
# Machine words

The range of a word of so many bits.
-/

namespace StackProfiler

/-- The number of values of a word, which is the first number that does not fit in it. -/
def wordLimit (bits : Nat) : Nat :=
  Nat.pow 2 bits

end StackProfiler
