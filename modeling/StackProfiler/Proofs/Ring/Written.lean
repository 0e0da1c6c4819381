import Mathlib.Algebra.BigOperators.Group.List.Basic
import Mathlib.Algebra.GroupWithZero.Nat
import StackProfiler.Proofs.Ring.CallChain

/-!
# Written records and what a reader should make of them

The writer's side of a ring is a list of records (`WrittenRecord`). What a reader should make of
it is defined here without a ring and without cursors: the samples that the records offer
(`offeredSamples`), the records that are read before a buffer is full (`readWithRoom`), and the
statistics of that (`DrainStats.expected`).

`Ring.consumeRecord_eq` shows that reading one record from a ring does to a buffer and to the
statistics what these definitions say, and `DrainStats.expected_append` that they do not depend on
where a list of records is cut.
-/

namespace StackProfiler

/-! ## Section 1: Records as they are written -/

/-- A record that is appended to a ring. -/
inductive WrittenRecord where
  | sample (addresses : List UInt64)
  | lost (count : UInt64)
  /-- A record of any kind but a sample's, with any body. -/
  | other (kind : UInt32) (body : List UInt8) (notSample : kind ≠ Record.sampleKind)

namespace WrittenRecord

/-- The kind that the header states. -/
def kind : WrittenRecord → UInt32
  | sample _ => Record.sampleKind
  | lost _ => Record.lostKind
  | other kind _ _ => kind

/-- The bytes behind the header. -/
def body : WrittenRecord → List UInt8
  | sample addresses => Record.sampleBody addresses
  | lost count => Record.lostBody count
  | other _ body _ => body

/-- Number of bytes of the whole record. -/
def size (record : WrittenRecord) : Nat :=
  RecordHeader.length + record.body.length

/-- The header, whose size field has 16 bits. -/
def header (record : WrittenRecord) : RecordHeader where
  kind := record.kind
  misc := 0
  size := UInt16.ofNat record.size

/-- The record as it stands in a ring. -/
def bytes (record : WrittenRecord) : List UInt8 :=
  record.header.toBytes ++ record.body

/-- The call chain of a sample. -/
def chain? : WrittenRecord → Option (List UInt64)
  | sample addresses => some addresses
  | lost _ => none
  | other _ _ _ => none

/-- How many lost records a notice states: its second word, if there is one. -/
def lostCount : WrittenRecord → Nat
  | sample _ => 0
  | lost count => count.toNat
  | other kind body _ =>
    if kind = Record.lostKind ∧ 16 ≤ body.length then
      (UInt64.ofNat (Bytes.ofLittleEndian ((body.drop 8).take 8))).toNat
    else 0

end WrittenRecord

/-- Number of bytes of several records. -/
def totalSize (records : List WrittenRecord) : Nat :=
  (records.map (·.size)).sum

/-- The call chains of the samples among several records. -/
def chainsOf (records : List WrittenRecord) : List (List UInt64) :=
  records.filterMap (·.chain?)

/-- The samples that several records offer to a buffer: those with an address in their chain. -/
def offeredSamples (records : List WrittenRecord) : List RawSample :=
  ((chainsOf records).map fun chain => RawSample.ofFrames (addressesOf chain)).filter
    (!·.frames.isEmpty)

/-- Appends a record to a ring. -/
def Ring.append (r : Ring) : WrittenRecord → Checked Ring
  | .sample addresses => r.writeSample addresses
  | .lost count => r.writeLost count
  | .other kind body _ => r.write kind body

/-- Appending a record stores its header and its body, and advances `head` by the stated size. -/
theorem Ring.append_eq (r : Ring) (record : WrittenRecord) :
    r.append record = (do
      let r₁ ← r.writeAt r.head record.header.toBytes
      let bodyStart ← Checked.add 64 r.head RecordHeader.length
      let r₂ ← r₁.writeAt bodyStart record.body
      let head ← Checked.add 64 r.head record.header.size.toNat
      return { r₂ with head }) := by
  cases record <;> rfl

@[simp]
theorem offeredSamples_nil : offeredSamples [] = [] := rfl

theorem offeredSamples_append (front back : List WrittenRecord) :
    offeredSamples (front ++ back) = offeredSamples front ++ offeredSamples back := by
  simp [offeredSamples, chainsOf]

theorem totalSize_cons (record : WrittenRecord) (records : List WrittenRecord) :
    totalSize (record :: records) = record.size + totalSize records := by
  simp [totalSize]

theorem totalSize_append (front back : List WrittenRecord) :
    totalSize (front ++ back) = totalSize front + totalSize back := by
  simp [totalSize]

/-! ## Section 2: The header -/

namespace RecordHeader

@[simp]
theorem length_toBytes (h : RecordHeader) : h.toBytes.length = length := by
  simp [toBytes, length]

/-- Reading back the bytes of a header gives the header. -/
theorem ofBytes_toBytes (h : RecordHeader) : ofBytes h.toBytes = h := by
  have hkind : h.kind.toNat < Nat.pow 256 4 := h.kind.toNat_lt
  have hmisc : h.misc.toNat < Nat.pow 256 2 := h.misc.toNat_lt
  have hsize : h.size.toNat < Nat.pow 256 2 := h.size.toNat_lt
  have htake : h.toBytes.take 4 = Bytes.littleEndian 4 h.kind.toNat := by
    simp [toBytes]
  have hmid : (h.toBytes.drop 4).take 2 = Bytes.littleEndian 2 h.misc.toNat := by
    simp [toBytes]
  have hdrop : h.toBytes.drop 6 = Bytes.littleEndian 2 h.size.toNat := List.drop_left' (by simp)
  have hlast : (h.toBytes.drop 6).take 2 = Bytes.littleEndian 2 h.size.toNat := by
    simp [hdrop]
  simp only [ofBytes, htake, hmid, hlast, Bytes.ofLittleEndian_littleEndian,
    Nat.mod_eq_of_lt hkind, Nat.mod_eq_of_lt hmisc, Nat.mod_eq_of_lt hsize,
    UInt32.ofNat_toNat, UInt16.ofNat_toNat]

end RecordHeader

namespace WrittenRecord

@[simp]
theorem length_bytes (record : WrittenRecord) : record.bytes.length = record.size := by
  simp [bytes, size]

theorem length_le_size (record : WrittenRecord) : RecordHeader.length ≤ record.size :=
  Nat.le_add_right _ _

/-- A size that fits in 16 bits is the size that the header states. -/
theorem toNat_header_size {record : WrittenRecord} (h : record.size ≤ 65535) :
    record.header.size.toNat = record.size := by
  simp only [header, UInt16.toNat_ofNat']
  exact Nat.mod_eq_of_lt (by omega)

theorem size_sample (addresses : List UInt64) :
    (sample addresses).size = 16 + 8 * addresses.length := by
  simp only [size, RecordHeader.length, body, Record.sampleBody, List.length_append,
    Record.length_wordBytes, Record.length_flatMap_wordBytes]
  omega

/-- Outside samples, the stated loss is read off the kind and the body, whichever way the record
came about. -/
theorem lostCount_of_kind_ne {record : WrittenRecord} (h : record.kind ≠ Record.sampleKind) :
    record.lostCount =
      if record.kind = Record.lostKind ∧ 16 ≤ record.body.length then
        (UInt64.ofNat (Bytes.ofLittleEndian ((record.body.drop 8).take 8))).toNat
      else 0 := by
  cases record with
  | sample addresses => exact absurd rfl h
  | lost count =>
    have hcount : ((Record.lostBody count).drop 8).take 8 = Record.wordBytes count := by
      simp [Record.lostBody]
    simp only [lostCount, body, hcount, Record.ofLittleEndian_wordBytes]
    rw [if_pos ⟨rfl, by simp [Record.lostBody]⟩]
  | other kind body notSample => rfl

theorem chain?_of_kind_ne {record : WrittenRecord} (h : record.kind ≠ Record.sampleKind) :
    record.chain? = none := by
  cases record with
  | sample addresses => exact absurd rfl h
  | lost count => rfl
  | other kind body notSample => rfl

end WrittenRecord

/-! ## Section 3: What a reader should make of records -/

namespace DrainStats

/-- Statistics add up field by field. -/
instance : Add DrainStats where
  add s t := {
    records := s.records + t.records
    samples := s.samples + t.samples
    lost := s.lost + t.lost
    truncated := s.truncated + t.truncated
    markersSkipped := s.markersSkipped + t.markersSkipped
    discardedBytes := s.discardedBytes + t.discardedBytes
    emptyStacks := s.emptyStacks + t.emptyStacks }

theorem add_def (s t : DrainStats) :
    s + t = {
      records := s.records + t.records
      samples := s.samples + t.samples
      lost := s.lost + t.lost
      truncated := s.truncated + t.truncated
      markersSkipped := s.markersSkipped + t.markersSkipped
      discardedBytes := s.discardedBytes + t.discardedBytes
      emptyStacks := s.emptyStacks + t.emptyStacks } := rfl

theorem add_assoc (s t u : DrainStats) : s + t + u = s + (t + u) := by
  simp only [add_def, Nat.add_assoc]

@[simp]
theorem empty_add (s : DrainStats) : {} + s = s := by
  simp only [add_def, Nat.zero_add]

/-- Every counter fits in a word. -/
structure Fits (s : DrainStats) : Prop where
  records_lt : s.records < wordLimit 64
  samples_lt : s.samples < wordLimit 64
  lost_lt : s.lost < wordLimit 64
  truncated_lt : s.truncated < wordLimit 64
  markersSkipped_lt : s.markersSkipped < wordLimit 64
  discardedBytes_lt : s.discardedBytes < wordLimit 64
  emptyStacks_lt : s.emptyStacks < wordLimit 64

/-- Merging statistics is adding them, as long as every sum fits in a word. -/
theorem merge_eq_add {s t : DrainStats} (h : (s + t).Fits) : s.merge t = .ok (s + t) := by
  obtain ⟨hrecords, hsamples, hlost, htruncated, hmarkers, hdiscarded, hempty⟩ := h
  have hadd : ∀ {a b : Nat}, a + b < wordLimit 64 → Checked.add 64 a b = .ok (a + b) :=
    fun h => Checked.add_eq_ok_iff.mpr ⟨rfl, h⟩
  simp only [merge, hadd hrecords, hadd hsamples, hadd hlost, hadd htruncated, hadd hmarkers,
    hadd hdiscarded, hadd hempty, bind, Except.bind]
  rfl

/-- The statistics of reading records into a buffer that has room for all they offer: they are
counted by kind. -/
def counting (records : List WrittenRecord) : DrainStats where
  records := records.length
  samples := (offeredSamples records).length
  lost := (records.map (·.lostCount)).sum
  truncated := (offeredSamples records).countP (·.isTruncated)
  markersSkipped := ((chainsOf records).map (markersWithin maxStackDepth)).sum
  emptyStacks := (chainsOf records).countP fun chain => (addressesOf chain).isEmpty

theorem counting_append (front back : List WrittenRecord) :
    counting (front ++ back) = counting front + counting back := by
  simp [counting, add_def, offeredSamples_append, chainsOf]

end DrainStats

/-- The records that are read while a buffer has room for so many samples. -/
def readWithRoom : (room : Nat) → List WrittenRecord → List WrittenRecord
  | _, [] => []
  | room, record :: records =>
    if room = 0 then []
    else record :: readWithRoom (room - (offeredSamples [record]).length) records

/-- The statistics of reading records into a buffer with room for so many samples: until it is full
they are counted by kind, and from then on every byte is discarded. -/
def DrainStats.expected (room : Nat) (records : List WrittenRecord) : DrainStats :=
  let counted := readWithRoom room records
  { DrainStats.counting counted with
    discardedBytes := totalSize (records.drop counted.length) }

namespace DrainStats

theorem expected_zero (records : List WrittenRecord) :
    expected 0 records = { discardedBytes := totalSize records } := by
  cases records <;> rfl

theorem expected_nil (room : Nat) : expected room [] = {} := rfl

theorem expected_cons {room : Nat} (hroom : room ≠ 0) (record : WrittenRecord)
    (records : List WrittenRecord) :
    expected room (record :: records) =
      counting [record] + expected (room - (offeredSamples [record]).length) records := by
  rw [expected, readWithRoom, if_neg hroom, expected]
  -- what is discarded is what the remaining records discard
  generalize readWithRoom (room - (offeredSamples [record]).length) records = counted
  rw [← List.singleton_append, counting_append]
  simp [add_def, counting]

/-- **Cutting does not matter**: reading records in two goes gives the statistics of reading them
in one. -/
theorem expected_append (room : Nat) (front back : List WrittenRecord) :
    expected room (front ++ back) =
      expected room front + expected (room - (offeredSamples front).length) back := by
  induction front generalizing room with
  | nil => simp [expected_nil]
  | cons record records ih =>
    by_cases hroom : room = 0
    · -- no room from the start: both parts are discarded
      subst hroom
      rw [Nat.zero_sub, expected_zero, expected_zero, expected_zero, totalSize_append]
      simp [add_def]
    · -- the first record takes as much room on both sides
      have hcut : offeredSamples (record :: records) =
          offeredSamples [record] ++ offeredSamples records :=
        offeredSamples_append [record] records
      rw [List.cons_append, expected_cons hroom, expected_cons hroom, ih, add_assoc, hcut,
        List.length_append, Nat.sub_sub]

end DrainStats

/-! ## Section 4: Bounds -/

theorem length_le_totalSize (records : List WrittenRecord) :
    records.length ≤ totalSize records := by
  induction records with
  | nil => exact Nat.zero_le _
  | cons record records ih =>
    have hpos : 8 ≤ record.size := record.length_le_size
    rw [totalSize_cons, List.length_cons]
    omega

theorem length_chainsOf_le (records : List WrittenRecord) :
    (chainsOf records).length ≤ records.length :=
  List.length_filterMap_le _ _

theorem length_offeredSamples_le (records : List WrittenRecord) :
    (offeredSamples records).length ≤ records.length := by
  calc (offeredSamples records).length
      ≤ ((chainsOf records).map fun chain => RawSample.ofFrames (addressesOf chain)).length :=
        List.length_filter_le _ _
    _ = (chainsOf records).length := List.length_map _
    _ ≤ records.length := length_chainsOf_le records

/-- Every marker takes eight bytes. -/
theorem sum_markersWithin_le (room : Nat) (records : List WrittenRecord) :
    ((chainsOf records).map (markersWithin room)).sum ≤ totalSize records := by
  induction records with
  | nil => exact Nat.zero_le _
  | cons record records ih =>
    rw [totalSize_cons]
    cases record with
    | sample addresses =>
      -- a sample has at most as many markers as addresses, of eight bytes each
      have hmarkers := markersWithin_le_length room addresses
      have hsize := WrittenRecord.size_sample addresses
      have hchains : chainsOf (.sample addresses :: records) = addresses :: chainsOf records := rfl
      rw [hchains, List.map_cons, List.sum_cons]
      omega
    | lost count => exact Nat.le_add_left_of_le ih
    | other kind body notSample => exact Nat.le_add_left_of_le ih

/-- What is read while there is room is a front part of what was written. -/
theorem readWithRoom_isPrefix (room : Nat) (records : List WrittenRecord) :
    readWithRoom room records <+: records := by
  induction records generalizing room with
  | nil => exact List.prefix_rfl
  | cons record records ih =>
    rw [readWithRoom]
    split
    · exact List.nil_prefix
    · exact (List.prefix_cons_inj record).mpr (ih _)

namespace DrainStats

/-- The statistics fit in words if the sizes and the lost counts of the records do. -/
theorem expected_fits (room : Nat) {records : List WrittenRecord}
    (hsize : totalSize records < wordLimit 64)
    (hlost : (records.map (·.lostCount)).sum < wordLimit 64) : (expected room records).Fits := by
  obtain ⟨rest, hrest⟩ := readWithRoom_isPrefix room records
  rw [expected]
  -- what is read and what is left make up the records
  generalize readWithRoom room records = counted at hrest
  subst hrest
  rw [totalSize_append] at hsize
  rw [List.map_append, List.sum_append] at hlost
  -- every counter is bounded by the size, or by the sum of the lost counts
  have hrecords := length_le_totalSize counted
  have hchains := length_chainsOf_le counted
  have hsamples := length_offeredSamples_le counted
  have hmarkers := sum_markersWithin_le maxStackDepth counted
  have htruncated : (offeredSamples counted).countP (·.isTruncated) ≤
      (offeredSamples counted).length := List.countP_le_length
  have hempty : ((chainsOf counted).countP fun chain => (addressesOf chain).isEmpty) ≤
      (chainsOf counted).length := List.countP_le_length
  rw [List.drop_left]
  constructor <;> simp only [counting] <;> omega

end DrainStats

/-! ## Section 5: One record through a ring -/

namespace Ring

/-- The ring after a record was appended: its bytes stand behind `head`, if there is room for them
at all, and a window in front of `head` that they do not reach round to is unchanged. -/
structure Appended (r r' : Ring) (record : WrittenRecord) : Prop where
  head_eq : r'.head = r.head + record.size
  tail_eq : r'.tail = r.tail
  size_eq : r'.size = r.size
  window_eq : record.size ≤ r.size → r'.window r.head record.size = record.bytes
  window_eq_of_le : ∀ q length, q + length ≤ r.head → r.head + record.size ≤ q + r.size →
    r'.window q length = r.window q length

/-- A record can be appended if its size fits in the header and `head` stays in its word. -/
theorem exists_append {r : Ring} {record : WrittenRecord} (hsize : record.size ≤ 65535)
    (hhead : r.head + record.size < wordLimit 64) :
    ∃ r', r.append record = .ok r' ∧ Appended r r' record := by
  -- header and body are stored in one go
  obtain ⟨r₁, hrun, hstored⟩ : ∃ r₁, r.writeAt r.head record.bytes = .ok r₁ ∧
      Stored r r₁ r.head record.bytes := by
    apply exists_writeAt
    rw [WrittenRecord.length_bytes]
    omega
  have hbody : RecordHeader.length ≤ record.size := record.length_le_size
  have hbodyStart : Checked.add 64 r.head RecordHeader.length =
      .ok (r.head + RecordHeader.length) :=
    Checked.add_eq_ok_iff.mpr ⟨rfl, by omega⟩
  have hend : Checked.add 64 r.head record.size = .ok (r.head + record.size) :=
    Checked.add_eq_ok_iff.mpr ⟨rfl, hhead⟩
  refine ⟨{ r₁ with head := r.head + record.size }, ?_, rfl, hstored.tail_eq, hstored.size_eq,
    ?_, ?_⟩
  · -- storing the header and then the body is what storing the whole record does
    rw [WrittenRecord.bytes, writeAt_append, RecordHeader.length_toBytes] at hrun
    rw [append_eq]
    cases hfront : r.writeAt r.head record.header.toBytes with
    | error fault => simp [hfront, Except.bind] at hrun
    | ok r₀ =>
      simp only [hfront, Except.bind] at hrun
      simp only [bind, Except.bind, hbodyStart, hrun, WrittenRecord.toNat_header_size hsize, hend]
      rfl
  · intro hfits
    have := hstored.window_eq (by rwa [WrittenRecord.length_bytes])
    rwa [WrittenRecord.length_bytes] at this
  · intro q length hbefore hlap
    have hunlapped : r.head + record.bytes.length ≤ q + r.size := by
      rwa [WrittenRecord.length_bytes]
    exact hstored.window_eq_of_le hbefore hunlapped

end Ring

end StackProfiler
