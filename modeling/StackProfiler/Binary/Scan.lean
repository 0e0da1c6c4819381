import StackProfiler.Binary.Source
import StackProfiler.Word

/-!
# Reading a file from front to back

A scan is a computation that reads at a position and moves it behind what was read. It fails as
soon as a read would go past the end.
-/

namespace StackProfiler.Binary

/-- A computation that reads from a source at a position which it moves on. -/
abbrev Scan (α : Type) := ReaderT Source (StateT Nat Option) α

namespace Scan

/-- Runs a scan from a position; the result comes with the position behind what was read. -/
def runAt {α : Type} (scan : Scan α) (source : Source) (position : Nat) : Option (α × Nat) :=
  (scan.run source).run position

def need {α : Type} : Option α → Scan α
  | some a => pure a
  | none => failure

def skip (count : Nat) : Scan Unit := do
  let position ← get
  let _ ← need ((← read).slice? position count)
  set (position + count)

/-- The number in so many bytes. -/
def number (count : Nat) : Scan Nat := do
  let position ← get
  let n ← need ((← read).nat? position count)
  set (position + count)
  return n

/-- A number in groups of seven bits, the lowest first, of at most so many groups. -/
def groupsOfSeven : (most : Nat) → Scan Nat
  | 0 => failure
  | most + 1 => do
    let byte ← number 1
    if byte < 128 then return byte
    else
      let rest ← groupsOfSeven most
      return byte - 128 + 128 * rest

/-- A number of variable length that fits in 64 bits. -/
def variableLength : Scan Nat := do
  let n ← groupsOfSeven 10
  if n < wordLimit 64 then return n else failure

/-- The bytes up to the next zero, which is left out. -/
def zeroEnded : Scan (List UInt8) := do
  let position ← get
  let source ← read
  let text ← need (source.cString? position source.bytes.size)
  set (position + text.length + 1)
  return text

end Scan

end StackProfiler.Binary
