import StackProfiler.Text.Numeral

/-!
# Samples

A sample is one captured call stack: up to 64 addresses, deepest first, and a mark that says
whether frames further out were cut off. The addresses of user space end where the kernel's half
begins; the very highest values are no addresses but markers that the kernel puts into call chains.
-/

namespace StackProfiler

/-- Most frames of a sample; the outermost frames of a deeper stack are lost. -/
def maxStackDepth : Nat := 64

/-- The lowest address of the kernel's half of the address space. -/
def kernelSpaceStart : UInt64 := 0xffff000000000000

/-- The lowest of the values that separate the parts of a call chain. -/
def contextMarkerStart : UInt64 := 0xfffffffffffff000

/-- Whether a value in a call chain is a marker and not an address. -/
def isContextMarker (address : UInt64) : Bool :=
  contextMarkerStart ≤ address

/-- A sample as it is stored: slots for the addresses, and how many of them are in use. -/
structure RawSample where
  slots : Vector UInt64 maxStackDepth
  depth : UInt32
  /-- Zero exactly if no frame was cut off. -/
  truncated : UInt8

namespace RawSample

/-- The slots that hold the given addresses, as far as they fit, and zero behind them. -/
def slotsOf (frames : Array UInt64) : Vector UInt64 maxStackDepth :=
  Vector.ofFn fun i => frames.getD i 0

def empty : RawSample where
  slots := slotsOf #[]
  depth := 0
  truncated := 0

/-- The sample of a stack, cut to the depth limit. -/
def ofFrames (frames : List UInt64) : RawSample where
  slots := slotsOf frames.toArray
  depth := UInt32.ofNat (min frames.length maxStackDepth)
  truncated := if maxStackDepth < frames.length then 1 else 0

/-- The captured addresses, deepest first. -/
def frames (s : RawSample) : List UInt64 :=
  s.slots.toList.take s.depth.toNat

/-- Whether frames were cut off. -/
def isTruncated (s : RawSample) : Bool :=
  s.truncated != 0

/-- Samples are equal if they hold the same frames and the same mark. -/
instance : BEq RawSample where
  beq s t := s.frames == t.frames && s.truncated == t.truncated

def debugText (s : RawSample) : String :=
  "RawSample \x7b frames: [" ++ ", ".intercalate (s.frames.map fun a => toString a.toNat)
    ++ "], truncated: " ++ (if s.isTruncated then "true" else "false") ++ " \x7d"

end RawSample

end StackProfiler
