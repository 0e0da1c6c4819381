import StackProfiler.Word

/-!
# Reading numerals

An unsigned numeral is an optional `+` and at least one digit of the base; a signed one may have a
`-` instead. A numeral whose value is out of the given range is no numeral.
-/

namespace StackProfiler.Text

/-- The value of a digit, with letters of either case standing for ten and above. -/
def digitValue (c : Char) : Option Nat :=
  if '0' ≤ c ∧ c ≤ '9' then some (c.toNat - '0'.toNat)
  else if 'a' ≤ c ∧ c ≤ 'z' then some (c.toNat - 'a'.toNat + 10)
  else if 'A' ≤ c ∧ c ≤ 'Z' then some (c.toNat - 'A'.toNat + 10)
  else none

/-- The value of a digit below the base. -/
def digitBelow (base : Nat) (c : Char) : Option Nat :=
  (digitValue c).filter (· < base)

/-- The value of a sequence of digits; none if it is empty or holds something else. -/
def digitsValue (base : Nat) (cs : List Char) : Option Nat :=
  if cs.isEmpty then none
  else (cs.mapM (digitBelow base)).map fun ds => ds.foldl (fun n d => n * base + d) 0

/-- An unsigned numeral below `limit`. -/
def unsigned? (base limit : Nat) (cs : List Char) : Option Nat :=
  -- a sign alone is no numeral, since there is no digit behind it
  let digits := match cs with
    | '+' :: rest => rest
    | _ => cs
  (digitsValue base digits).filter (· < limit)

/-- A signed decimal numeral in the range of a two's complement word of the given width. -/
def signed? (bits : Nat) (cs : List Char) : Option Int :=
  match cs with
  | '-' :: rest => ((digitsValue 10 rest).filter (· ≤ wordLimit (bits - 1))).map fun n => -(n : Int)
  | _ => (unsigned? 10 (wordLimit (bits - 1)) cs).map fun n => (n : Int)

/-- The digits of a number in lowercase hexadecimal, without leading zeros. -/
def hex (n : Nat) : String :=
  String.ofList (Nat.toDigits 16 n)

/-- The hexadecimal digits of a number, with leading zeros up to a width. -/
def hexPadded (width n : Nat) : String :=
  let digits := Nat.toDigits 16 n
  String.ofList (List.replicate (width - digits.length) '0' ++ digits)

end StackProfiler.Text
