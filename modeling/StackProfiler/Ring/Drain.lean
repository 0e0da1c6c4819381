import StackProfiler.Ring.Memory
import StackProfiler.Sample.Buffer

/-!
# Draining a ring

The reader consumes every record between `tail` and `head` and stores the samples among them in a
buffer. Markers in a call chain are left out, a stack deeper than the limit is cut, and what cannot
be kept is dropped in bounded time: a full buffer or a corrupt header discards the rest of the
window.
-/

namespace StackProfiler

/-- What happened in one or more passes over a ring. -/
structure DrainStats where
  /-- Records consumed, of every kind. -/
  records : Nat := 0
  /-- Samples stored in the buffer. -/
  samples : Nat := 0
  /-- Records that the writer reported as lost. -/
  lost : Nat := 0
  /-- Stored samples of which frames were cut off. -/
  truncated : Nat := 0
  /-- Markers left out of call chains. -/
  markersSkipped : Nat := 0
  /-- Bytes dropped because the buffer was full or a header corrupt. -/
  discardedBytes : Nat := 0
  /-- Sample records in which no frame was left. -/
  emptyStacks : Nat := 0
deriving DecidableEq, Repr

namespace DrainStats

/-- The counters of two passes together. -/
def merge (s t : DrainStats) : Checked DrainStats := do
  return {
    records := ← Checked.add 64 s.records t.records
    samples := ← Checked.add 64 s.samples t.samples
    lost := ← Checked.add 64 s.lost t.lost
    truncated := ← Checked.add 64 s.truncated t.truncated
    markersSkipped := ← Checked.add 64 s.markersSkipped t.markersSkipped
    discardedBytes := ← Checked.add 64 s.discardedBytes t.discardedBytes
    emptyStacks := ← Checked.add 64 s.emptyStacks t.emptyStacks }

end DrainStats

namespace Ring

/-- The addresses of a call chain as far as they were read. -/
structure Chain where
  frames : Array UInt64 := #[]
  /-- Markers seen before reading ended. -/
  markers : Nat := 0
  /-- Whether an address was found that no longer fits. -/
  truncated : Bool := false

/-- Reads a call chain of so many words, up to the first address past the depth limit. -/
def readChain (r : Ring) : (words position : Nat) → Chain → Checked Chain
  | 0, _, chain => .ok chain
  | words + 1, position, chain => do
    let address ← r.readWord position
    if isContextMarker address then
      r.readChain words (position + 8) { chain with markers := chain.markers + 1 }
    else if chain.frames.size = maxStackDepth then
      return { chain with truncated := true }
    else
      r.readChain words (position + 8) { chain with frames := chain.frames.push address }

def Chain.sample (chain : Chain) : RawSample where
  slots := RawSample.slotsOf chain.frames
  depth := UInt32.ofNat chain.frames.size
  truncated := if chain.truncated then 1 else 0

/-- Stores the sample in the body of a sample record. -/
def consumeSample (r : Ring) (body length : Nat) (sink : SampleBuffer) (stats : DrainStats) :
    Checked (SampleBuffer × DrainStats) :=
  if length < 8 then .ok (sink, { stats with emptyStacks := stats.emptyStacks + 1 })
  else do
    let count ← r.readWord body
    -- the count is not trusted beyond the room that the record has
    let chain ← r.readChain (min count.toNat ((length - 8) / 8)) (body + 8) {}
    let stats := { stats with markersSkipped := stats.markersSkipped + chain.markers }
    match sink.push chain.sample with
    | (.stored, sink) =>
      return (sink,
        { stats with
          samples := stats.samples + 1
          truncated := if chain.truncated then stats.truncated + 1 else stats.truncated })
    | (.empty, sink) => return (sink, { stats with emptyStacks := stats.emptyStacks + 1 })
    | (.dropped, sink) => return (sink, stats)

/-- Consumes one record with the given header, whose body starts at the given position. -/
def consumeRecord (r : Ring) (header : RecordHeader) (body : Nat) (sink : SampleBuffer)
    (stats : DrainStats) : Checked (SampleBuffer × DrainStats) := do
  let stats := { stats with records := stats.records + 1 }
  let length := header.size.toNat - RecordHeader.length
  if header.kind = Record.sampleKind then
    r.consumeSample body length sink stats
  else if header.kind = Record.lostKind ∧ 16 ≤ length then
    -- the first word is the identifier of the counter, the second one its count
    let lost ← r.readWord (body + 8)
    let lost ← Checked.add 64 stats.lost lost.toNat
    return (sink, { stats with lost })
  else return (sink, stats)

/-- Consumes the records from a position on, and says where it ended. -/
def drainFrom (r : Ring) (position : Nat) (sink : SampleBuffer) (stats : DrainStats) :
    Checked (Nat × SampleBuffer × DrainStats) :=
  if r.head ≤ position then .ok (position, sink, stats)
  else
    let remaining := r.head - position
    -- nothing more can be stored, so the rest is not even looked at
    if sink.isFull then
      .ok (r.head, sink, { stats with discardedBytes := stats.discardedBytes + remaining })
    else
      match r.readHeader position with
      | .error fault => .error fault
      | .ok header =>
        -- no record can be found behind a corrupt header
        if header.size.toNat < RecordHeader.length ∨ remaining < header.size.toNat then
          .ok (r.head, sink, { stats with discardedBytes := stats.discardedBytes + remaining })
        else
          match r.consumeRecord header (position + RecordHeader.length) sink stats with
          | .error fault => .error fault
          | .ok (sink, stats) => r.drainFrom (position + header.size.toNat) sink stats
termination_by r.head - position
decreasing_by
  simp only [RecordHeader.length] at *
  omega

/-- Consumes every record between the cursors; a `tail` past `head` leaves nothing to do. -/
def drain (r : Ring) (sink : SampleBuffer) : Checked (DrainStats × SampleBuffer × Ring) := do
  let (tail, sink, stats) ← r.drainFrom r.tail sink {}
  return (stats, sink, { r with tail })

end Ring

end StackProfiler
