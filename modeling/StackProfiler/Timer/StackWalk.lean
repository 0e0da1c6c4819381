import StackProfiler.Sample.Buffer

/-!
# Walking the own stack

A signal interrupts the program, and its handler walks the stack from its own frame outwards. The
frames of the handler itself come before the frame that was interrupted and are cut off, but they
count against the depth limit of the walk.
-/

namespace StackProfiler

/-- A stack at the moment of a signal, deepest frame first. -/
structure Interrupt where
  /-- The frames of the handler. -/
  handler : List UInt64
  /-- The frames of the interrupted program. -/
  program : List UInt64
deriving DecidableEq, Repr

namespace Interrupt

def interrupted? (i : Interrupt) : Option UInt64 :=
  i.program.head?

/-- Walks a stack up to the depth limit, and drops what comes before the interrupted frame. -/
def walk (stack : List UInt64) (interrupted? : Option UInt64) : RawSample :=
  -- the limit applies before the frames of the handler are cut off
  let seen := stack.take maxStackDepth
  let start := (interrupted?.bind fun pc => seen.findIdx? (· == pc)).getD 0
  let kept := seen.drop start
  { slots := RawSample.slotsOf kept.toArray
    depth := UInt32.ofNat kept.length
    truncated := if maxStackDepth < stack.length then 1 else 0 }

def sample (i : Interrupt) : RawSample :=
  walk (i.handler ++ i.program) i.interrupted?

/-- The handler with a buffer to capture into. -/
def captureInto (b : SampleBuffer) (i : Interrupt) : SampleBuffer :=
  (b.captureWith fun _ => i.sample).2.2

end Interrupt

end StackProfiler
