import StackProfiler.Checked
import StackProfiler.Error.Domain
import StackProfiler.Ring.Record

/-!
# Ring memory

A data area whose size is a power of two, and two cursors that only grow: the writer's `head` and
the reader's `tail`. The offset of a cursor in the data area is its value modulo the size. A run of
bytes that crosses the end of the area is read in two spans.
-/

namespace StackProfiler

def isPowerOfTwo (n : Nat) : Bool :=
  n != 0 && n &&& (n - 1) == 0

/-- The memory that the writer and the reader of a ring share. -/
structure Ring where
  data : Array UInt8
  /-- Where the next record will be written. -/
  head : Nat
  /-- Where the next record will be read. -/
  tail : Nat
  size_isPowerOfTwo : isPowerOfTwo data.size

namespace Ring

/-- A ring over the given data area, if it has a valid size. -/
def ofData (data : Array UInt8) (head tail : Nat) : Except ProfilerError Ring :=
  if h : isPowerOfTwo data.size then .ok ⟨data, head, tail, h⟩
  else .error (.invalidRingSize data.size)

/-- A ring of zeros with both cursors at the same place. -/
def zeroed (size start : Nat) : Except ProfilerError Ring :=
  ofData (Array.replicate size 0) start start

/-- Size of the data area in bytes. -/
def size (r : Ring) : Nat :=
  r.data.size

def hasPending (r : Ring) : Bool :=
  r.head != r.tail

/-! ## Reading -/

/-- The spans, as offsets and lengths, that a run of bytes at a cursor position is read in. -/
def spans (size position length : Nat) : List (Nat × Nat) :=
  -- the size is a power of two, so this is the residue
  let offset := position &&& (size - 1)
  let first := min length (size - offset)
  (offset, first) :: if first < length then [(0, length - first)] else []

/-- The bytes of one span, which must lie in the data area. -/
def readSpan (r : Ring) (offset length : Nat) : Checked (List UInt8) :=
  if offset + length ≤ r.size then .ok (r.data.extract offset (offset + length)).toList
  else .error .outOfBounds

/-- The bytes at a cursor position. -/
def readBytes (r : Ring) (position length : Nat) : Checked (List UInt8) := do
  let parts ← (spans r.size position length).mapM fun (offset, n) => r.readSpan offset n
  return parts.flatten

/-- The record header at a cursor position. -/
def readHeader (r : Ring) (position : Nat) : Checked RecordHeader := do
  return RecordHeader.ofBytes (← r.readBytes position RecordHeader.length)

/-- The word at a cursor position. -/
def readWord (r : Ring) (position : Nat) : Checked UInt64 := do
  return UInt64.ofNat (Bytes.ofLittleEndian (← r.readBytes position 8))

/-! ## Writing -/

/-- Writes bytes from a cursor position on, each at its offset in the data area. -/
def writeAt (r : Ring) (position : Nat) : List UInt8 → Checked Ring
  | [] => .ok r
  | b :: bs => do
    let position ← Checked.fit 64 position
    let r : Ring :=
      { r with
        data := r.data.setIfInBounds (position % r.size) b
        size_isPowerOfTwo := by rw [Array.size_setIfInBounds]; exact r.size_isPowerOfTwo }
    r.writeAt (position + 1) bs

/--
Appends a record. The size in the header has 16 bits, and `head` advances by what the header says.
-/
def write (r : Ring) (kind : UInt32) (body : List UInt8) : Checked Ring := do
  -- a record that is too long states its size modulo `2 ^ 16`
  let size := UInt16.ofNat (RecordHeader.length + body.length)
  let header : RecordHeader := { kind, misc := 0, size }
  let start := r.head
  let r ← r.writeAt start header.toBytes
  let bodyStart ← Checked.add 64 start RecordHeader.length
  let r ← r.writeAt bodyStart body
  let head ← Checked.add 64 start size.toNat
  return { r with head }

def writeSample (r : Ring) (addresses : List UInt64) : Checked Ring :=
  r.write Record.sampleKind (Record.sampleBody addresses)

/-- Appends a notice of lost records. -/
def writeLost (r : Ring) (lost : UInt64) : Checked Ring :=
  r.write Record.lostKind (Record.lostBody lost)

end Ring

end StackProfiler
