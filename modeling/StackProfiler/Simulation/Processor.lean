import StackProfiler.Sample.Basic
import StackProfiler.Simulation.Instruction

/-!
# A small processor

The state of a processor and what its instructions do to it, up to the point where the program
shows what it will do from then on: loop in one instruction, sleep, or end. A program that loops has
a call chain, which is found along the frame pointers as the kernel does.
-/

namespace StackProfiler.Simulation

/-- What a program does from some point on. -/
inductive Behaviour where
  /-- It loops in one instruction; the call chain is that of a sample. -/
  | busy (chain : List UInt64)
  | asleep
  /-- It ends by itself after so many milliseconds. -/
  | over (afterMs : Nat)
deriving DecidableEq, Repr

/-- The state of a processor. -/
structure Processor where
  ip : UInt64
  registers : Register → UInt64
  /-- Whether the last decrement gave zero. -/
  zero : Bool := false
  /-- Words that were written to memory, the latest first, with their addresses. -/
  memory : List (UInt64 × UInt64) := []
  /-- How long the program has slept, in milliseconds. -/
  sleptMs : Nat := 0

namespace Processor

def stackTop : UInt64 := 0x7ffd00000000

/-- A processor before the first instruction. -/
def atEntry (entry : UInt64) : Processor where
  ip := entry
  registers r := if r = Register.sp then stackTop else 0

def set (p : Processor) (r : Register) (value : UInt64) : Processor :=
  { p with registers := fun q => if q = r then value else p.registers q }

/-- Puts a word on the stack. -/
def push (p : Processor) (value : UInt64) : Processor :=
  let top := p.registers Register.sp - 8
  { p.set Register.sp top with memory := (top, value) :: p.memory }

/-- The word at an address, if one was written there. -/
def word? (p : Processor) (address : UInt64) : Option UInt64 :=
  (p.memory.find? (·.1 == address)).map (·.2)

/-- The return addresses along the frame pointers. -/
def returns (p : Processor) : (most : Nat) → (frame : UInt64) → List UInt64
  | 0, _ => []
  | most + 1, frame =>
    match p.word? frame, p.word? (frame + 8) with
    | some next, some address => address :: p.returns most next
    | _, _ => []

/-- What the kernel puts before the addresses of user space. -/
def userMarker : UInt64 := 0xfffffffffffffe00

/-- The most addresses that the kernel puts into a call chain. -/
def maxChain : Nat := 127

/-- The call chain of a sample taken now. -/
def chain (p : Processor) : List UInt64 :=
  userMarker :: p.ip :: p.returns (maxChain - 1) (p.registers Register.bp)

/-- Memory that the program does not change: the bytes at its addresses. -/
abbrev Code := UInt64 → Option UInt8

/-- So many bytes from an address on, as far as they exist. -/
def bytesAt (code : Code) (address : UInt64) : (count : Nat) → List UInt8
  | 0 => []
  | count + 1 =>
    match code address with
    | none => []
    | some b => b :: bytesAt code (address + 1) count

/-- The number in the word at an address. -/
def numberAt (code : Code) (address : UInt64) : Nat :=
  Bytes.ofLittleEndian (bytesAt code address 8)

/-- The length of time at an address, in milliseconds. -/
def timeAt (code : Code) (address : UInt64) : Nat :=
  numberAt code address * 1000 + numberAt code (address + 8) / 1000000

/-- What the kernel does for the program when it is called. -/
def callKernel (code : Code) (p : Processor) : Behaviour ⊕ Processor :=
  match (p.registers Register.ax).toNat with
  | 34 => .inl .asleep
  | 35 => .inr { p with sleptMs := p.sleptMs + timeAt code (p.registers Register.di) }
  | 60 => .inl (.over p.sleptMs)
  | _ => .inr p

/-- What an instruction does, once the instruction pointer is behind it. -/
def execute (code : Code) (i : Instruction) (p : Processor) : Behaviour ⊕ Processor :=
  match i with
  | .nothing => .inr p
  | .clear r => .inr { p.set r 0 with zero := true }
  | .load r value => .inr (p.set r value)
  | .loadAddress r d => .inr (p.set r (p.ip + d))
  | .copy target source => .inr (p.set target (p.registers source))
  | .decrement r =>
    let value := UInt64.ofNat ((p.registers r - 1).toNat % wordLimit 32)
    .inr { p.set r value with zero := value == 0 }
  | .push r => .inr (p.push (p.registers r))
  | .jump d => .inr { p with ip := p.ip + d }
  | .jumpIfZero d => .inr (if p.zero then { p with ip := p.ip + d } else p)
  | .call d => .inr { p.push p.ip with ip := p.ip + d }
  | .kernel => callKernel code p

def maxInstructionLength : Nat := 7

/-- Runs a program for so many instructions, or until its behaviour shows. A program that cannot go
on ends. -/
def run (code : Code) : (fuel : Nat) → Processor → Behaviour
  | 0, p => .over p.sleptMs
  | fuel + 1, p =>
    match Instruction.decode (bytesAt code p.ip maxInstructionLength) with
    | none => .over p.sleptMs
    | some (i, length) =>
      match execute code i { p with ip := p.ip + UInt64.ofNat length } with
      | .inl behaviour => behaviour
      | .inr next => if next.ip = p.ip then .busy p.chain else run code fuel next

end Processor

end StackProfiler.Simulation
