import StackProfiler.Word

/-!
# Checked machine words

Counts, sizes and cursors live in 32- or 64-bit words. A result that leaves its word, or an access
outside a block of memory, stops the computation, and this fault is kept apart from the errors of
the domain: a value of type `Checked (Except ε α)` is a fault, a domain error, or an answer.

The values themselves are natural numbers, so that sums and differences of counts can be reasoned
about without wrapping; the lemmas here say exactly when an operation stays in range.
-/

namespace StackProfiler

/-- Why a computation on machine words stopped. -/
inductive Fault where
  /-- A result left the range of its word. -/
  | overflow
  /-- An access left its block of memory. -/
  | outOfBounds
deriving DecidableEq, Repr

/-- A computation on machine words: an answer, or the fault that stopped it. -/
abbrev Checked (α : Type) := Except Fault α

namespace Checked

/-- `n`, provided that it fits in a word of the given number of bits. -/
def fit (bits n : Nat) : Checked Nat :=
  if n < wordLimit bits then .ok n else .error .overflow

/-- Sum of two words. -/
def add (bits a b : Nat) : Checked Nat :=
  fit bits (a + b)

/-- Product of two words. -/
def mul (bits a b : Nat) : Checked Nat :=
  fit bits (a * b)

/-- Difference of two words; a negative difference is out of range. -/
def sub (a b : Nat) : Checked Nat :=
  if b ≤ a then .ok (a - b) else .error .overflow

/-- Sum of a list of words, added from the left. -/
def sum (bits : Nat) (ns : List Nat) : Checked Nat :=
  ns.foldlM (add bits) 0

theorem fit_eq_ok_iff {bits n m : Nat} : fit bits n = .ok m ↔ n = m ∧ n < wordLimit bits := by
  unfold fit
  split <;> simp <;> omega

theorem add_eq_ok_iff {bits a b c : Nat} :
    add bits a b = .ok c ↔ a + b = c ∧ a + b < wordLimit bits :=
  fit_eq_ok_iff

/-- A sequence of two computations has an answer if both have one. -/
theorem bind_eq_ok_iff {ε α β : Type} {x : Except ε α} {f : α → Except ε β} {b : β} :
    x >>= f = .ok b ↔ ∃ a, x = .ok a ∧ f a = .ok b := by
  cases x <;> simp [bind, Except.bind]

theorem sub_eq_ok_iff {a b c : Nat} : sub a b = .ok c ↔ b ≤ a ∧ a - b = c := by
  unfold sub
  split <;> simp <;> omega

end Checked

end StackProfiler
