import StackProfiler.Sample.Basic

/-!
# Sample buffers

A buffer of fixed capacity that samples are appended to. Every sample that is offered takes the
next slot number; one whose number lies past the capacity is dropped and counted, and nothing that
was stored is ever changed. Samples without frames are not stored and take no number.
-/

namespace StackProfiler

/-- What became of a sample that was offered to a buffer. -/
inductive CaptureOutcome where
  | stored
  /-- The buffer was full. -/
  | dropped
  /-- The sample had no frames. -/
  | empty
deriving DecidableEq, Repr

/-- A buffer of samples. -/
structure SampleBuffer where
  capacity : Nat
  /-- Slot numbers handed out so far, also past the capacity. -/
  next : Nat := 0
  /-- Samples lost because the buffer was full. -/
  dropped : Nat := 0
  /-- Stored samples of which frames were cut off. -/
  truncated : Nat := 0
  /-- The stored samples, in order. -/
  stored : Array RawSample := #[]

namespace SampleBuffer

def withCapacity (capacity : Nat) : SampleBuffer :=
  { capacity }

/-- Whether further samples will be dropped. -/
def isFull (b : SampleBuffer) : Bool :=
  b.capacity ≤ b.next

/-- Number of slots in use. -/
def size (b : SampleBuffer) : Nat :=
  min b.next b.capacity

/-- Whether no slot is in use. -/
def isEmpty (b : SampleBuffer) : Bool :=
  b.size == 0

/-- The stored samples, in the order in which they were captured. -/
def toList (b : SampleBuffer) : List RawSample :=
  b.stored.toList

/-- Counts a sample that found the buffer full. -/
def drop (b : SampleBuffer) : SampleBuffer :=
  { b with dropped := b.dropped + 1 }

def push (b : SampleBuffer) (s : RawSample) : CaptureOutcome × SampleBuffer :=
  if s.frames.isEmpty then (.empty, b)
  else
    -- the number is taken whether or not there is a slot for it
    let index := b.next
    let b := { b with next := b.next + 1 }
    if index < b.capacity then
      (.stored,
        { b with
          stored := b.stored.push s
          truncated := if s.isTruncated then b.truncated + 1 else b.truncated })
    else (.dropped, b.drop)

/--
Captures a sample that is made only if there is room for one. Says first whether it was made.
-/
def captureWith (b : SampleBuffer) (sample : Unit → RawSample) :
    Bool × CaptureOutcome × SampleBuffer :=
  if b.isFull then (false, .dropped, b.drop)
  else (true, b.push (sample ()))

def debugText (b : SampleBuffer) : String :=
  "SampleBuffer \x7b capacity: " ++ toString b.capacity ++ ", len: " ++ toString b.size
    ++ ", dropped: " ++ toString b.dropped ++ ", .. \x7d"

end SampleBuffer

end StackProfiler
