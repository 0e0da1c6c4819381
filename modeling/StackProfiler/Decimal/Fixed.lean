import StackProfiler.Decimal.Binary64

/-!
# Decimal text with a fixed number of places

A floating-point number is rounded from its exact value to the nearest decimal with the given
number of places; of two equally near ones the one with the even last digit is taken. The sign is
kept, also when the result is zero.
-/

namespace StackProfiler.Decimal

/-- The whole number nearest to a quotient; a half goes to the even neighbour. -/
def roundDiv (num den : Nat) : Nat :=
  let q := num / den
  let r := num % den
  if 2 * r < den then q
  else if den < 2 * r then q + 1
  else if q % 2 == 0 then q else q + 1

/-- The multiple of `10 ^ (-places)` nearest to `significand * 2 ^ exponent`. -/
def scaled (places significand : Nat) (exponent : Int) : Nat :=
  match exponent with
  | .ofNat e => significand * Nat.pow 10 places * Nat.pow 2 e
  | .negSucc e => roundDiv (significand * Nat.pow 10 places) (Nat.pow 2 (e + 1))

/-- The digits of a number, with zeros in front up to the given length. -/
def padded (length n : Nat) : String :=
  let digits := Nat.toDigits 10 n
  String.ofList (List.replicate (length - digits.length) '0' ++ digits)

def sign (negative : Bool) : String :=
  if negative then "-" else ""

/-- Decimal text with the given number of places. -/
def fixed (places : Nat) (x : Float) : String :=
  match Binary64.ofFloat x with
  | .nan => "NaN"
  | .infinite negative => sign negative ++ "inf"
  | .finite negative significand exponent =>
    let n := scaled places significand exponent
    let unit := Nat.pow 10 places
    sign negative ++ toString (n / unit) ++ "." ++ padded places (n % unit)

def oneDecimal (x : Float) : String :=
  fixed 1 x

end StackProfiler.Decimal
