/-!
# Decoding bytes that may not be text

Bytes are decoded as UTF-8; each longest run of bytes that begins a character and cannot be
continued, and each byte that begins none, becomes one replacement character.
-/

namespace StackProfiler.Text

/-- The character that stands for bytes that are no text. -/
def replacement : Char := Char.ofNat 0xfffd

/-- The range that the byte after a leading byte must lie in, and how many bytes follow in all. -/
def continuation? (lead : Nat) : Option (Nat × Nat × Nat) :=
  if 0xc2 ≤ lead ∧ lead ≤ 0xdf then some (0x80, 0xbf, 1)
  else if lead = 0xe0 then some (0xa0, 0xbf, 2)
  else if lead = 0xed then some (0x80, 0x9f, 2)
  else if 0xe1 ≤ lead ∧ lead ≤ 0xef then some (0x80, 0xbf, 2)
  else if lead = 0xf0 then some (0x90, 0xbf, 3)
  else if 0xf1 ≤ lead ∧ lead ≤ 0xf3 then some (0x80, 0xbf, 3)
  else if lead = 0xf4 then some (0x80, 0x8f, 3)
  else none

/-- A character in the making: its value so far, and what the next byte must be. -/
structure Unfinished where
  value : Nat
  lo : Nat
  hi : Nat
  /-- Bytes still to come, at least one. -/
  missing : Nat

/-- The text that a byte begins: a character of its own, or one in the making. -/
def begin (b : UInt8) : List Char × Option Unfinished :=
  if b < 0x80 then ([Char.ofNat b.toNat], none)
  else match continuation? b.toNat with
    | none => ([replacement], none)
    | some (lo, hi, missing) =>
      ([], some { value := b.toNat % (64 >>> missing), lo, hi, missing })

/-- The characters that a byte adds after what is in the making. -/
def advance (pending : Option Unfinished) (b : UInt8) : List Char × Option Unfinished :=
  match pending with
  | none => begin b
  | some p =>
    if p.lo ≤ b.toNat ∧ b.toNat ≤ p.hi then
      let value := p.value * 64 + b.toNat % 64
      if p.missing ≤ 1 then ([Char.ofNat value], none)
      else ([], some { value, lo := 0x80, hi := 0xbf, missing := p.missing - 1 })
    else
      -- what was in the making is lost, but this byte may begin something new
      let (cs, pending) := begin b
      (replacement :: cs, pending)

/-- The text in a sequence of bytes, with replacement characters where there is none. -/
def decodeLossy (bytes : List UInt8) : List Char :=
  let (cs, pending) := bytes.foldl
    (fun (acc, pending) b =>
      let (cs, pending) := advance pending b
      (cs.reverse ++ acc, pending)) (([] : List Char), (none : Option Unfinished))
  ((if pending.isSome then [replacement] else []) ++ cs).reverse

end StackProfiler.Text
