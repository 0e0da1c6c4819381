import StackProfiler.Proofs.Ring.Written

/-!
# Records of any content

A reader takes whatever bytes stand in a ring for records. What it takes a record for is a written
record (`Ring.contentAt`): a sample with as much of a chain as count and size allow, or a record of
another kind with these bytes. Consuming the record does to a buffer with room and to the statistics
what that written record stands for (`Ring.consumeRecord_eq_storing`).
-/

namespace StackProfiler

namespace Ring

/-! ## Section 1: What bytes are taken for -/

/-- What eight bytes say as a header. -/
def headerAt (r : Ring) (position : Nat) : RecordHeader :=
  RecordHeader.ofBytes (r.window position RecordHeader.length)

/-- What a body of any bytes is taken for: a sample as far as its count and its size allow, or else
its bytes. -/
def contentAt (r : Ring) (kind : UInt32) (body length : Nat) : WrittenRecord :=
  if h : kind = Record.sampleKind then
    .sample (if length < 8 then [] else r.wordsAt (body + 8) (r.chainLength body length))
  else .other kind (r.window body length) h

/-- The count of a notice of lost records is read back, whichever way it was written. -/
theorem wordAt_lost {r : Ring} {position : Nat} {body : List UInt8}
    (hlong : 16 ≤ body.length) (h : r.window position body.length = body) :
    r.wordAt (position + 8) = UInt64.ofNat (Bytes.ofLittleEndian ((body.drop 8).take 8)) := by
  have hcount : (body.drop 8).take 8 = r.window (position + 8) 8 := by
    rw [← h]
    exact take_drop_window r position hlong
  rw [wordAt, hcount]

theorem readHeader_eq_headerAt {r : Ring} (hsize : 8 ≤ r.size) (position : Nat) :
    r.readHeader position = .ok (r.headerAt position) := by
  have hread : r.readBytes position RecordHeader.length =
      .ok (r.window position RecordHeader.length) := readBytes_eq_window hsize
  rw [readHeader, hread]
  rfl

/-- A record that is not taken for a sample states a loss if it is a notice that has room for it. -/
theorem lostCount_contentAt {r : Ring} {kind : UInt32} (hkind : kind ≠ Record.sampleKind)
    (body length : Nat) :
    (r.contentAt kind body length).lostCount =
      if kind = Record.lostKind ∧ 16 ≤ length then (r.wordAt (body + 8)).toNat else 0 := by
  have hwindow : r.window body (r.window body length).length = r.window body length := by
    rw [length_window]
  rw [contentAt, dif_neg hkind, WrittenRecord.lostCount, length_window]
  split
  case isTrue hnotice =>
    rw [wordAt_lost (by rw [length_window]; exact hnotice.2) hwindow]
  case isFalse => rfl

/-- A record that is no sample offers nothing to a buffer, and of its body its loss counts only. -/
theorem counting_of_kind_ne {record : WrittenRecord} (h : record.kind ≠ Record.sampleKind) :
    offeredSamples [record] = [] ∧
      DrainStats.counting [record] = { records := 1, lost := record.lostCount } := by
  have hchains : chainsOf [record] = [] := by
    simp [chainsOf, WrittenRecord.chain?_of_kind_ne h]
  have hoffered : offeredSamples [record] = [] := by
    rw [offeredSamples, hchains]
    rfl
  refine ⟨hoffered, ?_⟩
  simp [DrainStats.counting, hoffered, hchains]

/-- A sample offers its addresses to a buffer, if it has any. -/
theorem offeredSamples_sample (words : List UInt64) :
    offeredSamples [.sample words] =
      if (addressesOf words).isEmpty then [] else [RawSample.ofFrames (addressesOf words)] := by
  have hchains : chainsOf [.sample words] = [words] := rfl
  have hframes := RawSample.isEmpty_frames_ofFrames (addressesOf words)
  rw [offeredSamples, hchains, List.map_cons, List.map_nil, List.filter_cons, List.filter_nil,
    hframes]
  cases (addressesOf words).isEmpty <;> rfl

/-! ## Section 2: One record -/

/-- **Sample records of any content** are consumed as samples of the chain that they are taken
for. -/
theorem consumeSample_eq_storing {r : Ring} (hsize : 8 ≤ r.size) (body length : Nat)
    {sink : SampleBuffer} (stats : DrainStats) (hroom : sink.room ≠ 0) :
    r.consumeSample body length sink { stats with records := stats.records + 1 } =
      .ok (sink.storing (offeredSamples [r.contentAt Record.sampleKind body length]),
        stats + DrainStats.counting [r.contentAt Record.sampleKind body length]) := by
  have hcontent : r.contentAt Record.sampleKind body length =
      .sample (if length < 8 then [] else r.wordsAt (body + 8) (r.chainLength body length)) := rfl
  rw [hcontent]
  by_cases hshort : length < 8
  · -- no room for a count: the chain is empty
    rw [consumeSample, if_pos hshort, if_pos hshort]
    simp [offeredSamples, chainsOf, WrittenRecord.chain?, WrittenRecord.lostCount,
      DrainStats.counting, DrainStats.add_def, addressesOf, markersWithin]
  · rw [consumeSample_eq hsize (Nat.not_lt.mp hshort), if_neg hshort]
    -- only the words of the chain matter, not where they stand
    generalize r.wordsAt (body + 8) (r.chainLength body length) = words
    have hframes := RawSample.isEmpty_frames_ofFrames (addressesOf words)
    have hoffered := offeredSamples_sample words
    cases hempty : (addressesOf words).isEmpty with
    | true =>
      rw [hempty] at hframes hoffered
      simp only [SampleBuffer.push_of_isEmpty _ hframes]
      simp [DrainStats.counting, hoffered, chainsOf, WrittenRecord.chain?, hempty,
        WrittenRecord.lostCount, DrainStats.add_def]
    | false =>
      rw [hempty] at hframes hoffered
      simp only [SampleBuffer.push_of_room hframes hroom]
      by_cases hcut : maxStackDepth < (addressesOf words).length <;>
        simp [DrainStats.counting, hoffered, chainsOf, WrittenRecord.chain?, hempty, hcut,
          WrittenRecord.lostCount, DrainStats.add_def]

/-- **One record of any content** does to a buffer with room and to the statistics what the record
is taken for. -/
theorem consumeRecord_eq_storing {r : Ring} (hsize : 8 ≤ r.size) {header : RecordHeader}
    {body length : Nat} (hlength : header.size.toNat - RecordHeader.length = length)
    {sink : SampleBuffer} {stats : DrainStats} (hroom : sink.room ≠ 0)
    (hlost : stats.lost + (r.contentAt header.kind body length).lostCount < wordLimit 64) :
    r.consumeRecord header body sink stats =
      .ok (sink.storing (offeredSamples [r.contentAt header.kind body length]),
        stats + DrainStats.counting [r.contentAt header.kind body length]) := by
  rw [consumeRecord, hlength]
  by_cases hsample : header.kind = Record.sampleKind
  · rw [if_pos hsample, hsample]
    exact consumeSample_eq_storing hsize body length stats hroom
  · -- only samples offer anything to the buffer
    have hkind : (r.contentAt header.kind body length).kind ≠ Record.sampleKind := by
      rw [contentAt, dif_neg hsample]
      exact hsample
    obtain ⟨hoffered, hcounted⟩ := counting_of_kind_ne hkind
    have hstated := lostCount_contentAt (r := r) hsample body length
    rw [if_neg hsample, hoffered, hcounted, SampleBuffer.storing_nil]
    rw [hstated] at hlost ⊢
    by_cases hnotice : header.kind = Record.lostKind ∧ 16 ≤ length
    · -- a notice of lost records: its second word is added
      rw [if_pos hnotice] at hlost ⊢
      rw [if_pos hnotice, readWord_eq_wordAt hsize]
      have hsum := Checked.add_eq_ok_iff.mpr ⟨rfl, hlost⟩
      simp only [bind, Except.bind, hsum]
      rfl
    · rw [if_neg hnotice, if_neg hnotice]
      rfl

end Ring

end StackProfiler
