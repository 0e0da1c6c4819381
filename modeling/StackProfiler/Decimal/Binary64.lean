/-!
# The parts of a binary64 number

A floating-point number is decoded into its sign and an exact multiple of a power of two, so that
rules about its decimal text can be stated over whole numbers.
-/

namespace StackProfiler

/-- The value that the 64 bits of a floating-point number stand for. -/
inductive Binary64 where
  | nan
  | infinite (negative : Bool)
  /-- Plus or minus `significand * 2 ^ exponent`. -/
  | finite (negative : Bool) (significand : Nat) (exponent : Int)
deriving DecidableEq, Repr

namespace Binary64

/-- Decodes the 64 bits. -/
def ofBits (bits : UInt64) : Binary64 :=
  let negative := bits >>> 63 == 1
  let exponent := (bits >>> 52 &&& 0x7ff).toNat
  let fraction := (bits &&& 0xfffffffffffff).toNat
  if exponent == 0x7ff then
    if fraction == 0 then infinite negative else nan
  else if exponent == 0 then finite negative fraction (-1074)
  else finite negative (fraction + 0x10000000000000) (exponent - 1075)

/-- Decodes a floating-point number. -/
def ofFloat (x : Float) : Binary64 :=
  ofBits x.toBits

end Binary64

end StackProfiler
