import StackProfiler.Sample.Buffer
import StackProfiler.Word

/-!
# Captures that interleave

Captures run side by side, on several threads or one inside another. Each of them is a sequence of
atomic steps on the memory of one buffer: it looks at its sample, takes a slot number, copies the
sample, marks the slot as ready, and counts. A schedule says whose step comes next. A reader may go
through the slots meanwhile.
-/

namespace StackProfiler

/-- A place for one sample, which may be read once it is ready. -/
structure Slot where
  sample : RawSample := .empty
  ready : Bool := false

/-- A counter after one more event; it is a word of 64 bits and starts over behind the last one. -/
def countUp (n : Nat) : Nat :=
  (n + 1) % wordLimit 64

/-- The memory of a buffer that captures share. -/
structure SharedBuffer where
  slots : Array Slot
  /-- Slot numbers handed out so far, also past the capacity. -/
  next : Nat := 0
  dropped : Nat := 0
  truncated : Nat := 0

namespace SharedBuffer

def withCapacity (capacity : Nat) : SharedBuffer where
  slots := Array.replicate capacity {}

def capacity (b : SharedBuffer) : Nat :=
  b.slots.size

/-- Number of slots in use. -/
def size (b : SharedBuffer) : Nat :=
  min b.next b.capacity

/-- The samples in the slots that are ready, in the order of the slots. -/
def toList (b : SharedBuffer) : List RawSample :=
  ((b.slots.toList.take b.size).filter (·.ready)).map (·.sample)

end SharedBuffer

/-- How far a capture has come. -/
inductive CaptureProgress where
  /-- Nothing is done yet. -/
  | begun
  /-- The sample has frames, and a slot is to be taken. -/
  | checked
  /-- A slot is taken. -/
  | holding (index : Nat)
  /-- The sample stands in the slot. -/
  | copied (index : Nat)
  /-- The slot is marked as ready. -/
  | published (index : Nat)
  /-- The slot number lies past the capacity. -/
  | overflowing
  | finished (outcome : CaptureOutcome)
deriving DecidableEq, Repr

/-- A capture of a sample. -/
structure Capture where
  sample : RawSample
  progress : CaptureProgress := .begun

namespace Capture

def outcome? (c : Capture) : Option CaptureOutcome :=
  match c.progress with
  | .finished outcome => some outcome
  | _ => none

/-- The next atomic step of a capture; one that has finished stays as it is. -/
def advance (c : Capture) (b : SharedBuffer) : Capture × SharedBuffer :=
  let reach (progress : CaptureProgress) : Capture := { c with progress }
  match c.progress with
  | .begun => (reach (if c.sample.frames.isEmpty then .finished .empty else .checked), b)
  | .checked =>
    -- taking a number and learning it are one step, so no number is taken twice
    (reach (if b.next < b.capacity then .holding b.next else .overflowing),
      { b with next := countUp b.next })
  | .holding i =>
    (reach (.copied i), { b with slots := b.slots.modify i fun s => { s with sample := c.sample } })
  | .copied i =>
    (reach (.published i), { b with slots := b.slots.modify i fun s => { s with ready := true } })
  | .published _ =>
    (reach (.finished .stored),
      { b with truncated := if c.sample.isTruncated then countUp b.truncated else b.truncated })
  | .overflowing => (reach (.finished .dropped), { b with dropped := countUp b.dropped })
  | .finished _ => (c, b)

end Capture

/-- A buffer and the captures into it. -/
structure CaptureGroup where
  buffer : SharedBuffer
  captures : Array Capture

namespace CaptureGroup

/-- An empty buffer and a capture of each sample, none of which has done anything yet. -/
def ofSamples (capacity : Nat) (samples : List RawSample) : CaptureGroup where
  buffer := .withCapacity capacity
  captures := (samples.map fun sample => { sample }).toArray

def step (g : CaptureGroup) (i : Nat) : CaptureGroup :=
  match g.captures[i]? with
  | none => g
  | some c =>
    let (c, buffer) := c.advance g.buffer
    { buffer, captures := g.captures.setIfInBounds i c }

/-- The captures make steps in the order of a schedule. -/
def run (g : CaptureGroup) (schedule : List Nat) : CaptureGroup :=
  schedule.foldl step g

/--
What a reader finds that looks at the slots one after the other from the given one on, while the
captures go on: before each look they make the steps of one more schedule.
-/
def readFrom (g : CaptureGroup) (index : Nat) : List (List Nat) → List RawSample
  | [] => []
  | pause :: pauses =>
    let g := g.run pause
    match g.buffer.slots[index]? with
    | some { sample, ready := true } => sample :: g.readFrom (index + 1) pauses
    | _ => g.readFrom (index + 1) pauses

def countOf (g : CaptureGroup) (outcome : CaptureOutcome) : Nat :=
  (g.captures.toList.filter fun c => c.outcome? == some outcome).length

def isFinished (g : CaptureGroup) : Bool :=
  g.captures.all fun c => c.outcome?.isSome

end CaptureGroup

end StackProfiler
