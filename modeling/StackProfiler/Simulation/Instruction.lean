import StackProfiler.Bytes.Endian

/-!
# Instructions of a small processor

The few instructions of x86-64 that a program needs to call functions with frame pointers, to loop,
and to call the kernel. Registers are told apart by their numbers in the instruction code.
-/

namespace StackProfiler.Simulation

/-- The number of a register. -/
abbrev Register := Nat

namespace Register

/-- The accumulator, which also holds the number of a system call. -/
def ax : Register := 0

/-- The stack pointer. -/
def sp : Register := 4

/-- The frame pointer. -/
def bp : Register := 5

/-- The first argument of a call. -/
def di : Register := 7

end Register

/-- An instruction. A displacement is relative to the next instruction. -/
inductive Instruction where
  | nothing
  | clear (r : Register)
  | load (r : Register) (value : UInt64)
  | loadAddress (r : Register) (displacement : UInt64)
  | copy (target source : Register)
  | decrement (r : Register)
  | push (r : Register)
  | jump (displacement : UInt64)
  | jumpIfZero (displacement : UInt64)
  | call (displacement : UInt64)
  | kernel
deriving DecidableEq, Repr

namespace Instruction

/-- A displacement of one byte. -/
def near (b : UInt8) : UInt64 :=
  if b < 0x80 then b.toUInt64 else b.toUInt64 + 0xffffffffffffff00

/-- The number in four bytes. -/
def number (a b c d : UInt8) : UInt64 :=
  UInt64.ofNat (Bytes.ofLittleEndian [a, b, c, d])

/-- A displacement of four bytes. -/
def far (a b c d : UInt8) : UInt64 :=
  if d < 0x80 then number a b c d else number a b c d + 0xffffffff00000000

/-- The two registers that a byte names, if it names registers: the upper one first. -/
def registers? (b : UInt8) : Option (Register × Register) :=
  if 0xc0 ≤ b then some (b.toNat / 8 % 8, b.toNat % 8) else none

/-- The instruction at the start of some bytes, and its length. -/
def decode (bytes : List UInt8) : Option (Instruction × Nat) :=
  match bytes with
  | 0x90 :: _ => some (.nothing, 1)
  | 0x31 :: m :: _ => do
    let (a, b) ← registers? m
    if a = b then some (.clear a, 2) else none
  | 0xff :: m :: _ => do
    let (a, b) ← registers? m
    if a = 1 then some (.decrement b, 2) else none
  | 0x48 :: 0x89 :: m :: _ => do
    let (source, target) ← registers? m
    some (.copy target source, 3)
  | 0x48 :: 0x8d :: m :: a :: b :: c :: d :: _ =>
    if m.toNat / 64 = 0 ∧ m.toNat % 8 = 5 then
      some (.loadAddress (m.toNat / 8 % 8) (far a b c d), 7)
    else none
  | 0x0f :: 0x05 :: _ => some (.kernel, 2)
  | 0xeb :: b :: _ => some (.jump (near b), 2)
  | 0x74 :: b :: _ => some (.jumpIfZero (near b), 2)
  | 0xe8 :: a :: b :: c :: d :: _ => some (.call (far a b c d), 5)
  | code :: a :: b :: c :: d :: _ =>
    if 0xb8 ≤ code ∧ code ≤ 0xbf then some (.load (code.toNat % 8) (number a b c d), 5)
    else if 0x50 ≤ code ∧ code ≤ 0x57 then some (.push (code.toNat % 8), 1)
    else none
  | code :: _ =>
    if 0x50 ≤ code ∧ code ≤ 0x57 then some (.push (code.toNat % 8), 1) else none
  | [] => none

end Instruction

end StackProfiler.Simulation
