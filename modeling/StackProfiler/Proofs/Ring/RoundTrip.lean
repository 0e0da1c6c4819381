import Mathlib.Data.List.Induction
import Mathlib.Data.List.Infix
import StackProfiler.Proofs.Ring.AnyContent
import StackProfiler.Session.Recording

/-!
# Records through a ring and back

What is written into a ring comes out of it again, whatever the writer does and whenever the reader
drains, as long as unread records are not overwritten. The proof follows the reader:

- **one record**: `consumeRecord_eq`, reading a record at its position;
- **one pass**: `drainFrom_eq`, reading the records in a window of the ring;
- **any schedule**: `RingRun`, the invariant of writes and drains in any order, with the step lemmas
  `RingRun.write` and `RingRun.drain` and the run lemma `exists_ringRun`.
-/

namespace StackProfiler

namespace Ring

/-! ## Section 1: One record -/

/-- A record at a position is its header and, behind that, its body. -/
theorem window_header_body {r : Ring} {position : Nat} {record : WrittenRecord}
    (h : r.window position record.size = record.bytes) :
    r.window position RecordHeader.length = record.header.toBytes ∧
      r.window (position + RecordHeader.length) record.body.length = record.body := by
  have hwhole : r.window position (record.header.toBytes.length + record.body.length) =
      record.header.toBytes ++ record.body := by
    rw [RecordHeader.length_toBytes]
    exact h
  have hparts := window_of_append hwhole
  rwa [RecordHeader.length_toBytes] at hparts

/-- The header of a record is read back. -/
theorem readHeader_eq {r : Ring} (hsize : 8 ≤ r.size) {position : Nat} {record : WrittenRecord}
    (h : r.window position record.size = record.bytes) :
    r.readHeader position = .ok record.header := by
  have hread : r.readBytes position RecordHeader.length = .ok record.header.toBytes :=
    (readBytes_eq_window hsize).trans (congrArg Except.ok (window_header_body h).1)
  rw [readHeader, hread]
  simp [RecordHeader.ofBytes_toBytes, bind, Except.bind, pure, Except.pure]

/-- The call chain of a sample is read back. -/
private theorem wordsAt_sample {r : Ring} {position : Nat} {addresses : List UInt64}
    (hsmall : (WrittenRecord.sample addresses).size ≤ 65535)
    (h : r.window position (Record.sampleBody addresses).length = Record.sampleBody addresses) :
    r.wordsAt (position + 8)
      (r.chainLength position ((WrittenRecord.sample addresses).size - RecordHeader.length)) =
        addresses := by
  rw [WrittenRecord.size_sample] at hsmall ⊢
  have hlength : (Record.sampleBody addresses).length =
      (Record.wordBytes (UInt64.ofNat addresses.length)).length + 8 * addresses.length := by
    rw [Record.sampleBody, List.length_append, Record.length_flatMap_wordBytes]
  rw [hlength] at h
  obtain ⟨hcount, hchain⟩ := window_of_append h
  rw [Record.length_wordBytes] at hcount hchain
  -- the count fits in a word, since the size of the record fits in 16 bits
  have hnumber : (r.wordAt position).toNat = addresses.length := by
    rw [wordAt_eq hcount, UInt64.toNat_ofNat']
    exact Nat.mod_eq_of_lt (by omega)
  -- the number of words that there is room for is the number that is stated
  have hchainLength : r.chainLength position (16 + 8 * addresses.length - RecordHeader.length) =
      addresses.length := by
    simp only [chainLength, hnumber, RecordHeader.length]
    omega
  rw [hchainLength, wordsAt_eq hchain]

/-- What a written record is taken for offers as much and is counted as the record itself. -/
private theorem contentAt_written {r : Ring} {position : Nat} {record : WrittenRecord}
    (hsmall : record.size ≤ 65535)
    (hbody : r.window position record.body.length = record.body) :
    let content := r.contentAt record.kind position record.body.length
    offeredSamples [content] = offeredSamples [record] ∧
      DrainStats.counting [content] = DrainStats.counting [record] := by
  by_cases hkind : record.kind = Record.sampleKind
  · -- a sample is taken for itself
    cases record with
    | sample addresses =>
      have hlong : ¬(Record.sampleBody addresses).length < 8 := by
        simp [Record.sampleBody]
      have hlength : (Record.sampleBody addresses).length =
          (WrittenRecord.sample addresses).size - RecordHeader.length :=
        (Nat.add_sub_cancel_left _ _).symm
      have hwords := wordsAt_sample hsmall hbody
      rw [← hlength] at hwords
      have hcontent : r.contentAt Record.sampleKind position
          (Record.sampleBody addresses).length = .sample addresses := by
        rw [contentAt, dif_pos rfl, if_neg hlong, hwords]
      exact ⟨congrArg (fun content => offeredSamples [content]) hcontent,
        congrArg (fun content => DrainStats.counting [content]) hcontent⟩
    | lost count => exact absurd hkind (show Record.lostKind ≠ Record.sampleKind by decide)
    | other kind body notSample => exact absurd hkind notSample
  · -- of any other record only the kind and the body matter
    have hcontent : r.contentAt record.kind position record.body.length =
        .other record.kind record.body hkind := by
      rw [contentAt, dif_neg hkind]
      simp only [hbody]
    have hother : (WrittenRecord.other record.kind record.body hkind).kind ≠ Record.sampleKind :=
      hkind
    have hlost := (WrittenRecord.lostCount_of_kind_ne hother).trans
      (WrittenRecord.lostCount_of_kind_ne hkind).symm
    obtain ⟨hoffered, hcounted⟩ := counting_of_kind_ne hkind
    obtain ⟨hoffered', hcounted'⟩ := counting_of_kind_ne hother
    simp only [hcontent, hoffered, hcounted, hoffered', hcounted', hlost, and_self]

/-- **Reading one record** into a buffer with room does to the buffer and to the statistics what
the record stands for. -/
theorem consumeRecord_eq {r : Ring} (hsize : 8 ≤ r.size) {position capacity : Nat}
    {record : WrittenRecord} {samples : List RawSample} (stats : DrainStats)
    (hsmall : record.size ≤ 65535) (h : r.window position record.size = record.bytes)
    (hroom : samples.length < capacity)
    (hlost : stats.lost + record.lostCount < wordLimit 64) :
    r.consumeRecord record.header (position + RecordHeader.length)
        (.holding capacity samples) stats =
      .ok (.holding capacity (samples ++ offeredSamples [record]),
        stats + DrainStats.counting [record]) := by
  obtain ⟨-, hbody⟩ := window_header_body h
  obtain ⟨hoffered, hcounted⟩ := contentAt_written hsmall hbody
  have hlength : record.header.size.toNat - RecordHeader.length = record.body.length := by
    rw [WrittenRecord.toNat_header_size hsmall]
    exact Nat.add_sub_cancel_left _ _
  have hroom' : (SampleBuffer.holding capacity samples).room ≠ 0 := by
    rw [SampleBuffer.room_holding]
    omega
  have hstated : (r.contentAt record.kind (position + RecordHeader.length)
      record.body.length).lostCount = record.lostCount := by
    simpa [DrainStats.counting] using congrArg DrainStats.lost hcounted
  rw [← hstated] at hlost
  rw [← hoffered, ← hcounted, ← SampleBuffer.storing_holding]
  exact consumeRecord_eq_storing hsize hlength hroom' hlost

/-! ## Section 2: One pass -/

private theorem take_room_append {α : Type} (xs ys : List α) {first : List α} {capacity : Nat}
    (h : (xs ++ first).length ≤ capacity) :
    xs ++ first ++ ys.take (capacity - (xs ++ first).length) =
      xs ++ (first ++ ys).take (capacity - xs.length) := by
  rw [List.length_append] at h
  rw [List.take_append, List.take_of_length_le (l := first) (by omega), List.append_assoc,
    List.length_append, Nat.sub_sub]

/-- **Reading a window of records**: the buffer gets the samples that there is room for, and the
statistics are the expected ones. -/
theorem drainFrom_eq {r : Ring} (hsize : 8 ≤ r.size) {capacity : Nat}
    {records : List WrittenRecord} {position : Nat} {samples : List RawSample}
    {stats : DrainStats} (hsmall : ∀ record ∈ records, record.size ≤ 65535)
    (hend : r.head = position + totalSize records)
    (hwindow : r.window position (totalSize records) = records.flatMap (·.bytes))
    (hroom : samples.length ≤ capacity)
    (hlost : stats.lost + (records.map (·.lostCount)).sum < wordLimit 64) :
    r.drainFrom position (.holding capacity samples) stats =
      .ok (r.head, .holding capacity
            (samples ++ (offeredSamples records).take (capacity - samples.length)),
        stats + DrainStats.expected (capacity - samples.length) records) := by
  induction records generalizing position samples stats with
  | nil =>
    have hdone : r.head = position := hend
    rw [drainFrom, if_pos (Nat.le_of_eq hdone), hdone, DrainStats.expected_nil, offeredSamples_nil,
      List.take_nil, List.append_nil]
    rfl
  | cons record records ih =>
    have hheader : RecordHeader.length ≤ record.size := record.length_le_size
    have hpositive : 0 < RecordHeader.length := by decide
    have htotal : totalSize (record :: records) = record.size + totalSize records :=
      totalSize_cons record records
    rw [drainFrom, if_neg (by omega)]
    by_cases hfull : capacity ≤ samples.length
    · -- no room: everything up to head is discarded
      have hzero : capacity - samples.length = 0 := Nat.sub_eq_zero_of_le hfull
      have hremaining : r.head - position = totalSize (record :: records) := by omega
      rw [SampleBuffer.isFull_holding, decide_eq_true hfull, if_pos rfl, hzero, hremaining,
        DrainStats.expected_zero]
      simp [DrainStats.add_def]
    · -- room: the window is cut behind its first record, which is read
      have hsmall₁ : record.size ≤ 65535 := hsmall record List.mem_cons_self
      have hstated := WrittenRecord.toNat_header_size hsmall₁
      rw [htotal, List.flatMap_cons, ← record.length_bytes] at hwindow
      obtain ⟨hrecord, hrecords⟩ := window_of_append hwindow
      rw [record.length_bytes] at hrecord hrecords
      rw [List.map_cons, List.sum_cons] at hlost
      have hread := readHeader_eq hsize hrecord
      have hconsumed := consumeRecord_eq hsize stats hsmall₁ hrecord
        (Nat.lt_of_not_le hfull) (by omega)
      -- the size in the header is neither too small nor beyond head
      have hsound : ¬ (record.size < RecordHeader.length ∨ r.head - position < record.size) := by
        omega
      rw [SampleBuffer.isFull_holding, decide_eq_false hfull, if_neg Bool.false_ne_true]
      simp only [hread, hstated, if_neg hsound, hconsumed]
      -- the rest of the window, with what is left of the room
      have hone : (offeredSamples [record]).length ≤ 1 := length_offeredSamples_le [record]
      have hroom' : (samples ++ offeredSamples [record]).length ≤ capacity := by
        rw [List.length_append]
        omega
      have hlost' : (stats + DrainStats.counting [record]).lost +
          (records.map (·.lostCount)).sum < wordLimit 64 := by
        have : (stats + DrainStats.counting [record]).lost = stats.lost + record.lostCount := by
          simp [DrainStats.add_def, DrainStats.counting]
        omega
      rw [ih (fun record' h => hsmall record' (List.mem_cons_of_mem _ h)) (by omega) hrecords hroom'
        hlost']
      rw [take_room_append _ _ hroom', DrainStats.expected_cons (by omega), DrainStats.add_assoc,
        List.length_append, Nat.sub_sub, ← offeredSamples_append]
      rfl

end Ring

/-! ## Section 3: Any schedule of writes and drains -/

/-- What can happen to a ring and the buffer that it is drained into. -/
inductive RingEvent where
  | write (record : WrittenRecord)
  | drain

/-- The records that a schedule writes, in order. -/
def writtenRecords (events : List RingEvent) : List WrittenRecord :=
  events.filterMap fun
    | .write record => some record
    | .drain => none

namespace Recording

/-- An empty ring and an empty buffer. -/
def State.initial (ring : Ring) (capacity : Nat) : State where
  ring
  buffer := .withCapacity capacity

/-- The state after an event. -/
def State.step (s : State) : RingEvent → Checked State
  | .write record => do
    let ring ← s.ring.append record
    return { s with ring }
  | .drain => s.drain

/-- The state after several events. -/
def State.run (s : State) (events : List RingEvent) : Checked State :=
  events.foldlM State.step s

/-- Number of bytes between the cursors. -/
def State.unread (s : State) : Nat :=
  s.ring.head - s.ring.tail

theorem State.run_append_singleton (s : State) (events : List RingEvent) (event : RingEvent) :
    s.run (events ++ [event]) = (s.run events).bind fun s => s.step event := by
  simp only [State.run, List.foldlM_append, List.foldlM_cons, List.foldlM_nil, bind_pure]
  rfl

/-- The invariant of a ring in use: some records have been read and the others stand between the
cursors; buffer and statistics are what reading the former comes to. -/
structure RingRun (size start capacity : Nat) (read pending : List WrittenRecord) (s : State) :
    Prop where
  size_eq : s.ring.size = size
  tail_eq : s.ring.tail = start + totalSize read
  head_eq : s.ring.head = s.ring.tail + totalSize pending
  window_eq : s.ring.window s.ring.tail (totalSize pending) = pending.flatMap (·.bytes)
  buffer_eq : s.buffer = .holding capacity ((offeredSamples read).take capacity)
  stats_eq : s.stats = DrainStats.expected capacity read

namespace RingRun

variable {size start capacity : Nat} {read pending : List WrittenRecord} {s : State}

/-- A write adds to what is pending, unless it overwrites unread records. -/
theorem write (h : RingRun size start capacity read pending s) {record : WrittenRecord}
    (hsmall : record.size ≤ 65535)
    (hhead : start + totalSize (read ++ (pending ++ [record])) < wordLimit 64)
    (hunread : ∀ s', s.step (.write record) = .ok s' → s'.unread ≤ size) :
    ∃ s', s.step (.write record) = .ok s' ∧
      RingRun size start capacity read (pending ++ [record]) s' := by
  have hpending : totalSize (pending ++ [record]) = totalSize pending + record.size := by
    simp [totalSize]
  have hspace : s.ring.head + record.size < wordLimit 64 := by
    rw [totalSize_append, hpending] at hhead
    rw [h.head_eq, h.tail_eq]
    omega
  -- appending cannot fail, as the cursors stay in their words
  obtain ⟨ring, happend, hnew⟩ := Ring.exists_append hsmall hspace
  have hstep : s.step (.write record) = .ok { s with ring } := by
    simp [State.step, happend, bind, Except.bind, pure, Except.pure]
  have hhead' : ring.head = ring.tail + totalSize (pending ++ [record]) := by
    rw [hnew.head_eq, hnew.tail_eq, h.head_eq, hpending, Nat.add_assoc]
  -- the record fits into the ring together with all that is unread
  have hfits : totalSize pending + record.size ≤ s.ring.size := by
    have hle := hunread _ hstep
    rw [State.unread, hhead', Nat.add_sub_cancel_left, hpending] at hle
    rwa [h.size_eq]
  refine ⟨{ s with ring }, hstep, hnew.size_eq.trans h.size_eq, hnew.tail_eq.trans h.tail_eq,
    hhead', ?_, h.buffer_eq, h.stats_eq⟩
  -- the pending records are as they were, and the new one stands behind them
  have hold : ring.window s.ring.tail (totalSize pending) = pending.flatMap (·.bytes) := by
    rw [hnew.window_eq_of_le _ _ (Nat.le_of_eq h.head_eq.symm) (by rw [h.head_eq]; omega)]
    exact h.window_eq
  have hrecord : ring.window (s.ring.tail + totalSize pending) record.size = record.bytes := by
    rw [← h.head_eq]
    exact hnew.window_eq (by omega)
  rw [hpending, hnew.tail_eq, Ring.window_add, hold, hrecord]
  simp

/-- A drain turns all that is pending into what was read. -/
theorem drain (h : RingRun size start capacity read pending s) (hsize : 8 ≤ size)
    (hsmall : ∀ record ∈ pending, record.size ≤ 65535)
    (hhead : start + totalSize (read ++ pending) < wordLimit 64)
    (hlost : ((read ++ pending).map (·.lostCount)).sum < wordLimit 64) :
    ∃ s', s.step .drain = .ok s' ∧ RingRun size start capacity (read ++ pending) [] s' := by
  have hcut : ((offeredSamples read).take capacity).length ≤ capacity := List.length_take_le _ _
  have hroom : capacity - ((offeredSamples read).take capacity).length =
      capacity - (offeredSamples read).length := by
    rw [List.length_take]
    omega
  have hlost' : (pending.map (·.lostCount)).sum < wordLimit 64 := by
    rw [List.map_append, List.sum_append] at hlost
    omega
  have hlost₀ : ({} : DrainStats).lost + (pending.map (·.lostCount)).sum < wordLimit 64 := by
    simpa using hlost'
  -- one pass over the window of pending records
  have hpass := Ring.drainFrom_eq (h.size_eq ▸ hsize) hsmall h.head_eq h.window_eq hcut hlost₀
  rw [hroom, DrainStats.empty_add, ← h.buffer_eq] at hpass
  have htaken : (offeredSamples read).take capacity ++
      (offeredSamples pending).take (capacity - (offeredSamples read).length) =
        (offeredSamples (read ++ pending)).take capacity := by
    rw [offeredSamples_append, List.take_append]
  rw [htaken] at hpass
  -- the statistics of both passes together are those of one
  have hmerged : s.stats + DrainStats.expected (capacity - (offeredSamples read).length) pending =
      DrainStats.expected capacity (read ++ pending) := by
    rw [h.stats_eq, DrainStats.expected_append]
  have hfits : (DrainStats.expected capacity (read ++ pending)).Fits :=
    DrainStats.expected_fits capacity (by omega) hlost
  have hmerge := DrainStats.merge_eq_add (hmerged ▸ hfits)
  rw [hmerged] at hmerge
  have htail : s.ring.head = start + totalSize (read ++ pending) := by
    rw [h.head_eq, h.tail_eq, totalSize_append, Nat.add_assoc]
  refine ⟨⟨{ s.ring with tail := s.ring.head },
      .holding capacity ((offeredSamples (read ++ pending)).take capacity),
      DrainStats.expected capacity (read ++ pending)⟩, ?_, h.size_eq, htail, rfl, rfl, rfl, rfl⟩
  simp only [State.step, State.drain, Ring.drain, hpass, bind, Except.bind, pure, Except.pure,
    hmerge]

end RingRun

/-- Every power of two is accepted as the size of a ring. -/
theorem exists_zeroed {size : Nat} (h : size.isPowerOfTwo) (start : Nat) :
    ∃ ring, Ring.zeroed size start = .ok ring := by
  have hsize : isPowerOfTwo (Array.replicate size (0 : UInt8)).size = true := by
    rw [Array.size_replicate]
    exact Ring.isPowerOfTwo_iff.mpr h
  exact ⟨⟨Array.replicate size 0, start, start, hsize⟩, dif_pos hsize⟩

theorem RingRun.initial {size start : Nat} {ring : Ring} (h : Ring.zeroed size start = .ok ring)
    (capacity : Nat) : RingRun size start capacity [] [] (.initial ring capacity) := by
  have hnothing : SampleBuffer.withCapacity capacity =
      .holding capacity ((offeredSamples []).take capacity) := by
    rw [offeredSamples_nil, List.take_nil, SampleBuffer.holding_nil]
  simp only [Ring.zeroed, Ring.ofData] at h
  split at h
  · cases h
    exact ⟨Array.size_replicate, rfl, rfl, rfl, hnothing, rfl⟩
  · cases h

theorem writtenRecords_append (front back : List RingEvent) :
    writtenRecords (front ++ back) = writtenRecords front ++ writtenRecords back := by
  simp [writtenRecords]

/-- **Every schedule keeps the invariant**, as long as no unread record is overwritten. -/
theorem exists_ringRun {size start capacity : Nat} {ring : Ring}
    (hring : Ring.zeroed size start = .ok ring) (hsize : 8 ≤ size) {events : List RingEvent}
    (hsmall : ∀ record ∈ writtenRecords events, record.size ≤ 65535)
    (hhead : start + totalSize (writtenRecords events) < wordLimit 64)
    (hlost : ((writtenRecords events).map (·.lostCount)).sum < wordLimit 64)
    (hunread : ∀ front, front <+: events →
      ∀ s, (State.initial ring capacity).run front = .ok s → s.unread ≤ size) :
    ∃ s read pending, (State.initial ring capacity).run events = .ok s ∧
      read ++ pending = writtenRecords events ∧ RingRun size start capacity read pending s := by
  -- on the last event, so that the state before it is that of a shorter run
  induction events using List.reverseRecOn with
  | nil => exact ⟨_, [], [], rfl, rfl, .initial hring capacity⟩
  | append_singleton events event ih =>
    rw [writtenRecords_append] at hsmall hhead hlost
    rw [totalSize_append] at hhead
    rw [List.map_append, List.sum_append] at hlost
    obtain ⟨s, read, pending, hrun, hwritten, hinv⟩ := ih
      (fun record h => hsmall record (List.mem_append_left _ h)) (by omega) (by omega)
      (fun front h => hunread front (h.trans (List.prefix_append _ _)))
    have hnext : (State.initial ring capacity).run (events ++ [event]) = s.step event := by
      rw [State.run_append_singleton, hrun]
      rfl
    rw [hnext]
    cases event with
    | write record =>
      have hrecord : writtenRecords [.write record] = [record] := rfl
      obtain ⟨s', hstep, hinv'⟩ := hinv.write
        (hsmall record (List.mem_append_right _ List.mem_cons_self))
        (by rwa [← List.append_assoc, hwritten, totalSize_append])
        (fun s' hs' => hunread _ List.prefix_rfl s' (hnext.trans hs'))
      refine ⟨s', read, pending ++ [record], hstep, ?_, hinv'⟩
      rw [← List.append_assoc, hwritten, writtenRecords_append, hrecord]
    | drain =>
      have hnothing : writtenRecords [.drain] = [] := rfl
      have hpending : ∀ record ∈ pending, record.size ≤ 65535 := by
        intro record h
        apply hsmall record
        exact List.mem_append_left _ (hwritten ▸ List.mem_append_right _ h)
      obtain ⟨s', hstep, hinv'⟩ := hinv.drain hsize hpending (by rw [hwritten]; omega)
        (by rw [hwritten]; omega)
      refine ⟨s', read ++ pending, [], hstep, ?_, hinv'⟩
      rw [List.append_nil, hwritten, writtenRecords_append, hnothing, List.append_nil]

/-! ## Section 4: The round trip -/

/-- **Ring round trip, independent of the drain schedule.** Whatever is written into a ring of at
least eight bytes, and whenever it is drained in between, as long as records fit in their header,
unread bytes never exceed the ring, and `head` and the lost counts stay in their words: after a
final drain nothing is unread, the buffer holds the samples with addresses in the order in which
they were written, up to its capacity, and the merged statistics are a function of the written
records and the capacity. -/
theorem drain_roundTrip (size : Nat) (hpower : size.isPowerOfTwo) (hsize : 8 ≤ size)
    (start : Nat) :
    ∃ ring, Ring.zeroed size start = .ok ring ∧
      ∀ (capacity : Nat) (events : List RingEvent),
        (∀ record ∈ writtenRecords events, record.size ≤ 65535) →
        (∀ front, front <+: events →
          ∀ s, (State.initial ring capacity).run front = .ok s →
            s.ring.head - s.ring.tail ≤ size) →
        start + totalSize (writtenRecords events) < wordLimit 64 →
        ((writtenRecords events).map (·.lostCount)).sum < wordLimit 64 →
        ∃ s, (State.initial ring capacity).run (events ++ [.drain]) = .ok s ∧
          s.ring.tail = s.ring.head ∧
          s.ring.head = start + totalSize (writtenRecords events) ∧
          s.buffer.toList =
            (((chainsOf (writtenRecords events)).map fun chain =>
              RawSample.ofFrames (chain.filter (!isContextMarker ·))).filter
                (!·.frames.isEmpty)).take capacity ∧
          s.stats = DrainStats.expected capacity (writtenRecords events) := by
  obtain ⟨ring, hring⟩ := exists_zeroed hpower start
  refine ⟨ring, hring, ?_⟩
  intro capacity events hsmall hunread hhead hlost
  obtain ⟨s, read, pending, hrun, hwritten, hinv⟩ :=
    exists_ringRun hring hsize hsmall hhead hlost hunread
  rw [← hwritten] at hsmall hhead hlost ⊢
  obtain ⟨s', hstep, hinv'⟩ := hinv.drain hsize
    (fun record h => hsmall record (List.mem_append_right _ h)) hhead hlost
  have hfinal : (State.initial ring capacity).run (events ++ [.drain]) = .ok s' := by
    rw [State.run_append_singleton, hrun]
    exact hstep
  refine ⟨s', hfinal, ?_, ?_, ?_, hinv'.stats_eq⟩
  · exact hinv'.head_eq.symm
  · rw [hinv'.head_eq, hinv'.tail_eq]
    rfl
  · rw [hinv'.buffer_eq, SampleBuffer.toList_holding]
    rfl

/-- A schedule whose first record wraps in a ring of 64 bytes that starts at 60, and that writes
more than the ring holds. -/
private def wrappingSchedule : List RingEvent :=
  [.write (.sample [0x1000, 0xffffffffffffff80, 0x2000]), .drain, .write (.lost 17),
    .write (.sample [0x3000])]

private theorem wrappingSchedule_unread :
    (wrappingSchedule.inits.all fun front =>
      match Ring.zeroed 64 60 with
      | .error _ => false
      | .ok ring =>
        match (State.initial ring 1).run front with
        | .error _ => false
        | .ok s => decide (s.ring.head - s.ring.tail ≤ 64)) = true := by
  decide +kernel

/-- The round trip of `wrappingSchedule` into a buffer for one sample, which is full after the first
record. -/
theorem drain_roundTrip_wrapping :
    ∃ ring, Ring.zeroed 64 60 = .ok ring ∧
      ∃ s, (State.initial ring 1).run (wrappingSchedule ++ [.drain]) = .ok s ∧
        s.ring.tail = 148 ∧ s.ring.head = 148 ∧
        s.buffer.toList = [RawSample.ofFrames [0x1000, 0x2000]] ∧
        s.stats = { records := 1, samples := 1, markersSkipped := 1, discardedBytes := 48 } := by
  obtain ⟨ring, hring, hall⟩ := drain_roundTrip 64 ⟨6, rfl⟩ (by decide) 60
  have hunread : ∀ front, front <+: wrappingSchedule →
      ∀ s, (State.initial ring 1).run front = .ok s → s.ring.head - s.ring.tail ≤ 64 := by
    intro front hfront s hs
    -- the front is one of finitely many, and all of them have been checked
    have hchecked := List.all_eq_true.mp wrappingSchedule_unread front
      ((List.mem_inits front wrappingSchedule).mpr hfront)
    simp only [hring, hs] at hchecked
    exact of_decide_eq_true hchecked
  obtain ⟨s, hrun, htail, hhead, hsamples, hstats⟩ :=
    hall 1 wrappingSchedule (by decide +kernel) hunread (by decide +kernel) (by decide +kernel)
  have hend : 60 + totalSize (writtenRecords wrappingSchedule) = 148 := by decide +kernel
  rw [hend] at hhead
  refine ⟨ring, hring, s, hrun, htail.trans hhead, hhead, ?_, ?_⟩
  · rw [hsamples]
    rfl
  · rw [hstats]
    decide +kernel

end Recording

end StackProfiler
