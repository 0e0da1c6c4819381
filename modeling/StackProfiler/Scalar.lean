/-!
# Scalars

The numbers that geometry is computed with. The drawing rules are written once, over any type with
these operations: floating-point numbers when a graph is drawn, rational numbers when the rules are
reasoned about.
-/

namespace StackProfiler

/-- A number type with the operations that the drawing rules use. -/
class Scalar (R : Type) extends Add R, Sub R, Mul R, Div R, LT R, LE R where
  /-- A whole number. -/
  ofNat : Nat → R
  /-- The whole part of a positive number; zero for every other. -/
  truncate : R → Nat
  decLT : ∀ a b : R, Decidable (a < b)
  decLE : ∀ a b : R, Decidable (a ≤ b)

instance Scalar.decidableLT {R : Type} [Scalar R] (a b : R) : Decidable (a < b) :=
  Scalar.decLT a b

instance Scalar.decidableLE {R : Type} [Scalar R] (a b : R) : Decidable (a ≤ b) :=
  Scalar.decLE a b

/-- Floating-point numbers; whole numbers and whole parts are those of 64-bit words. -/
instance : Scalar Float where
  ofNat n := (UInt64.ofNat n).toFloat
  truncate x := x.toUInt64.toNat
  decLT := Float.decLt
  decLE := Float.decLe

/-- Rational numbers, with which nothing is rounded. -/
instance : Scalar Rat where
  ofNat n := n
  truncate x := x.floor.toNat
  decLT := inferInstance
  decLE := inferInstance

end StackProfiler
