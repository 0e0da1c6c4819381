import Mathlib.Algebra.Order.BigOperators.Group.List
import Mathlib.Algebra.Order.Group.Nat
import StackProfiler.Proofs.Ring.AnyContent

/-!
# A drain accounts for every byte

The bytes between the cursors of a ring may be anything. Here it is said without a buffer which
records a reader finds in them (`Ring.recordsFrom`), and which of these it consumes before a buffer
is full (`Ring.consumed`). What a drain does is then a function of the consumed records:

- **one step**: `drainFrom_of_some`, which consumes a record, and `drainFrom_of_stop`, which
  discards what is left;
- **one pass**: `drainFrom_eq_storing`; in a ring of any size a pass ends at `head`
  (`eq_max_of_drainFrom`);
- **main statement**: `drain_accounts`.
-/

namespace StackProfiler

/-! ## Section 1: Records that a reader finds -/

/-- A record in a ring of any content. -/
structure FoundRecord where
  /-- The size that its header states. -/
  size : Nat
  /-- What its header and its body are taken for. -/
  content : WrittenRecord

/-- The statistics of consuming records among so many unread bytes, the rest of which is
discarded. -/
def DrainStats.accounted (unread : Nat) (records : List FoundRecord) : DrainStats :=
  { DrainStats.counting (records.map (·.content)) with
    discardedBytes := unread - (records.map (·.size)).sum }

theorem DrainStats.accounted_nil (unread : Nat) :
    accounted unread [] = { discardedBytes := unread } := rfl

theorem DrainStats.accounted_cons {unread : Nat} (record : FoundRecord)
    (records : List FoundRecord) :
    accounted unread (record :: records) =
      counting [record.content] + accounted (unread - record.size) records := by
  rw [accounted, List.map_cons, ← List.singleton_append, counting_append, accounted]
  simp [add_def, counting, Nat.sub_sub]

namespace Ring

/-- The record at a position, if its header states a possible size. -/
def recordAt? (r : Ring) (position : Nat) : Option FoundRecord :=
  let header := r.headerAt position
  let size := header.size.toNat
  if size < RecordHeader.length ∨ r.head - position < size then none
  else
    some
      { size
        content := r.contentAt header.kind (position + RecordHeader.length)
          (size - RecordHeader.length) }

theorem size_of_recordAt? {r : Ring} {position : Nat} {record : FoundRecord}
    (h : r.recordAt? position = some record) :
    RecordHeader.length ≤ record.size ∧ record.size ≤ r.head - position := by
  simp only [recordAt?] at h
  split at h
  case isTrue => cases h
  case isFalse hsound =>
    cases h
    exact ⟨Nat.not_lt.mp fun hlt => hsound (.inl hlt), Nat.not_lt.mp fun hlt => hsound (.inr hlt)⟩

/-- The records that stand one behind the other from a position on, up to `head` or to something
that cannot be a record. -/
def recordsFrom (r : Ring) (position : Nat) : List FoundRecord :=
  match _h : r.recordAt? position with
  | none => []
  | some record => record :: r.recordsFrom (position + record.size)
termination_by r.head - position
decreasing_by
  have hsize := size_of_recordAt? _h
  simp only [RecordHeader.length] at hsize
  omega

theorem recordsFrom_of_none {r : Ring} {position : Nat} (h : r.recordAt? position = none) :
    r.recordsFrom position = [] := by
  rw [recordsFrom]
  split <;> simp_all

theorem recordsFrom_of_some {r : Ring} {position : Nat} {record : FoundRecord}
    (h : r.recordAt? position = some record) :
    r.recordsFrom position = record :: r.recordsFrom (position + record.size) := by
  rw [recordsFrom]
  split <;> simp_all

/-- The records from a position on that are consumed while a buffer has room for so many samples. -/
def consumedFrom (r : Ring) (room position : Nat) : List FoundRecord :=
  let found := r.recordsFrom position
  found.take (readWithRoom room (found.map (·.content))).length

/-- The records that a drain into a buffer consumes. -/
def consumed (r : Ring) (sink : SampleBuffer) : List FoundRecord :=
  r.consumedFrom sink.room r.tail

theorem consumedFrom_of_none (room : Nat) {r : Ring} {position : Nat}
    (h : r.recordAt? position = none) : r.consumedFrom room position = [] := by
  rw [consumedFrom, recordsFrom_of_none h]
  rfl

theorem consumedFrom_zero (r : Ring) (position : Nat) : r.consumedFrom 0 position = [] := by
  rw [consumedFrom]
  cases r.recordsFrom position <;> rfl

theorem consumedFrom_of_some {room : Nat} (hroom : room ≠ 0) {r : Ring} {position : Nat}
    {record : FoundRecord} (h : r.recordAt? position = some record) :
    r.consumedFrom room position = record ::
      r.consumedFrom (room - (offeredSamples [record.content]).length)
        (position + record.size) := by
  rw [consumedFrom, recordsFrom_of_some h, List.map_cons, readWithRoom, if_neg hroom]
  rfl

/-- The sizes of the records from a position on are at least those of headers, and the records end
at `head` or before. -/
theorem sizes_recordsFrom (r : Ring) (position : Nat) :
    (∀ record ∈ r.recordsFrom position, RecordHeader.length ≤ record.size) ∧
      ((r.recordsFrom position).map (·.size)).sum ≤ r.head - position := by
  induction hunread : r.head - position using Nat.strongRecOn generalizing position with
  | ind unread ih =>
    cases hfound : r.recordAt? position with
    | none =>
      rw [recordsFrom_of_none hfound]
      exact ⟨by simp, Nat.zero_le _⟩
    | some record =>
      obtain ⟨hheader, hfits⟩ := size_of_recordAt? hfound
      have hpos : 0 < RecordHeader.length := by decide
      obtain ⟨hsizes, hsum⟩ :=
        ih (r.head - (position + record.size)) (by omega) (position + record.size) rfl
      rw [recordsFrom_of_some hfound]
      refine ⟨List.forall_mem_cons.mpr ⟨hheader, hsizes⟩, ?_⟩
      rw [List.map_cons, List.sum_cons]
      omega

theorem sizes_consumed (r : Ring) (sink : SampleBuffer) :
    (∀ record ∈ r.consumed sink, RecordHeader.length ≤ record.size) ∧
      ((r.consumed sink).map (·.size)).sum ≤ r.head - r.tail := by
  obtain ⟨hsizes, hsum⟩ := r.sizes_recordsFrom r.tail
  constructor
  · intro record hrecord
    exact hsizes record (List.mem_of_mem_take hrecord)
  · refine Nat.le_trans ?_ hsum
    exact ((List.take_sublist ..).map _).sum_le_sum fun _ _ => Nat.zero_le _

/-! ## Section 2: One pass -/

/-- **The cursor** of a pass over a ring of any size ends at `head`, unless it starts behind it. -/
theorem eq_max_of_drainFrom {r : Ring} {position stop : Nat} {sink sink' : SampleBuffer}
    {stats stats' : DrainStats}
    (h : r.drainFrom position sink stats = .ok (stop, sink', stats')) :
    stop = max position r.head := by
  induction hunread : r.head - position using Nat.strongRecOn generalizing position sink stats with
  | ind unread ih =>
    have hpos : 0 < RecordHeader.length := by decide
    rw [drainFrom] at h
    split at h
    · next hend =>
      cases h
      exact (Nat.max_eq_left hend).symm
    next hend =>
    have hhead : r.head = max position r.head := (Nat.max_eq_right (Nat.le_of_not_le hend)).symm
    dsimp only at h
    split at h
    · cases h
      exact hhead
    split at h
    · cases h
    next header _ =>
    split at h
    · cases h
      exact hhead
    next hsound =>
    rw [not_or, Nat.not_lt, Nat.not_lt] at hsound
    split at h
    · cases h
    · -- the rest of the pass ends where a pass from behind the record ends
      have hrest := ih _ (by omega) h rfl
      omega

/-- **A pass ends** where the buffer is full or no record is found; what is left is discarded. -/
theorem drainFrom_of_stop {r : Ring} (hsize : 8 ≤ r.size) {position : Nat} {sink : SampleBuffer}
    (stats : DrainStats) (hstop : sink.room = 0 ∨ r.recordAt? position = none) :
    r.drainFrom position sink stats =
      .ok (max position r.head, sink, { stats with
        discardedBytes := stats.discardedBytes + (r.head - position) }) := by
  rw [drainFrom]
  by_cases hend : r.head ≤ position
  · rw [if_pos hend, Nat.max_eq_left hend, Nat.sub_eq_zero_of_le hend, Nat.add_zero]
  · rw [if_neg hend, Nat.max_eq_right (Nat.le_of_not_le hend)]
    by_cases hfull : sink.isFull = true
    · rw [if_pos hfull]
    · -- there is room, so it is the header that is corrupt
      have hnone := hstop.resolve_left fun hzero => hfull (sink.isFull_iff.mpr hzero)
      have hcorrupt : (r.headerAt position).size.toNat < RecordHeader.length ∨
          r.head - position < (r.headerAt position).size.toNat := by
        simp only [recordAt?] at hnone
        split at hnone
        · assumption
        · cases hnone
      simp only [if_neg hfull, readHeader_eq_headerAt hsize, if_pos hcorrupt]

/-- **A step of a pass** consumes one record and goes on behind it. -/
theorem drainFrom_of_some {r : Ring} (hsize : 8 ≤ r.size) {position : Nat} {record : FoundRecord}
    {sink : SampleBuffer} {stats : DrainStats} (hroom : sink.room ≠ 0)
    (hfound : r.recordAt? position = some record)
    (hlost : stats.lost + record.content.lostCount < wordLimit 64) :
    r.drainFrom position sink stats =
      r.drainFrom (position + record.size) (sink.storing (offeredSamples [record.content]))
        (stats + DrainStats.counting [record.content]) := by
  have hfits := size_of_recordAt? hfound
  have hend : ¬r.head ≤ position := by
    simp only [RecordHeader.length] at hfits
    omega
  have hfull : ¬sink.isFull = true := fun hfull => hroom (sink.isFull_iff.mp hfull)
  rw [drainFrom, if_neg hend]
  simp only [recordAt?] at hfound
  split at hfound
  case isTrue => cases hfound
  case isFalse hsound =>
    cases hfound
    simp only [if_neg hfull, readHeader_eq_headerAt hsize, if_neg hsound,
      consumeRecord_eq_storing hsize rfl hroom hlost]

/-- **Reading from a position on**, whatever stands there: the buffer gets the samples of the
consumed records, the statistics account for every byte up to `head`, and there the cursor ends. -/
theorem drainFrom_eq_storing {r : Ring} (hsize : 8 ≤ r.size) (position : Nat)
    (sink : SampleBuffer) (stats : DrainStats)
    (hlost : stats.lost +
      ((r.consumedFrom sink.room position).map (·.content.lostCount)).sum < wordLimit 64) :
    r.drainFrom position sink stats =
      .ok (max position r.head,
        sink.storing (offeredSamples ((r.consumedFrom sink.room position).map (·.content))),
        stats + DrainStats.accounted (r.head - position) (r.consumedFrom sink.room position)) := by
  induction hunread : r.head - position using Nat.strongRecOn generalizing position sink stats with
  | ind unread ih =>
    by_cases hstop : sink.room = 0 ∨ r.recordAt? position = none
    · have hnothing : r.consumedFrom sink.room position = [] := by
        rcases hstop with hroom | hnone
        · rw [hroom, consumedFrom_zero]
        · exact consumedFrom_of_none _ hnone
      rw [drainFrom_of_stop hsize stats hstop, hnothing, hunread, List.map_nil, offeredSamples_nil,
        SampleBuffer.storing_nil, DrainStats.accounted_nil]
      rfl
    · -- one record, and then the rest with the room that is left
      obtain ⟨hroom, hfound⟩ := not_or.mp hstop
      obtain ⟨record, hsome⟩ := Option.ne_none_iff_exists'.mp hfound
      obtain ⟨hheader, hfits⟩ := size_of_recordAt? hsome
      have hpos : 0 < RecordHeader.length := by decide
      rw [consumedFrom_of_some hroom hsome] at hlost ⊢
      rw [List.map_cons, List.sum_cons] at hlost
      have hlost' : (stats + DrainStats.counting [record.content]).lost =
          stats.lost + record.content.lostCount := by
        simp [DrainStats.add_def, DrainStats.counting]
      rw [drainFrom_of_some hsize hroom hsome (by omega)]
      have hrest := ih (r.head - (position + record.size)) (by omega) (position + record.size)
        (sink.storing (offeredSamples [record.content]))
        (stats + DrainStats.counting [record.content])
        (by rw [SampleBuffer.room_storing, hlost']; omega) rfl
      have hcursor : max (position + record.size) r.head = max position r.head := by omega
      rw [hrest, hcursor, SampleBuffer.room_storing, List.map_cons, ← SampleBuffer.storing_append,
        ← offeredSamples_append, DrainStats.accounted_cons, DrainStats.add_assoc, ← hunread,
        Nat.sub_sub]
      rfl

/-! ## Section 3: A whole drain -/

/-- A sample that records offer has a frame, no more than fit, and no marker among them. -/
theorem frames_of_mem_offeredSamples {records : List WrittenRecord} {s : RawSample}
    (h : s ∈ offeredSamples records) :
    0 < s.frames.length ∧ s.frames.length ≤ maxStackDepth ∧
      ∀ address ∈ s.frames, isContextMarker address = false := by
  obtain ⟨hmem, hframes⟩ := List.mem_filter.mp h
  obtain ⟨chain, -, rfl⟩ := List.mem_map.mp hmem
  refine ⟨List.length_pos_iff.mpr (by simpa using hframes), ?_, ?_⟩
  · rw [RawSample.frames_ofFrames]
    exact List.length_take_le ..
  · intro address haddress
    rw [RawSample.frames_ofFrames] at haddress
    have hkept := (List.mem_filter.mp (List.mem_of_mem_take haddress)).2
    simpa using hkept

/-- Every sample among records offers a sample to the buffer or is an empty stack. -/
theorem samples_add_emptyStacks (records : List WrittenRecord) :
    (DrainStats.counting records).samples + (DrainStats.counting records).emptyStacks =
      (chainsOf records).length := by
  simp only [DrainStats.counting, offeredSamples, ← List.countP_eq_length_filter, List.countP_map]
  rw [List.length_eq_countP_add_countP (fun chain => !(addressesOf chain).isEmpty)]
  congr 1
  · apply List.countP_congr
    intro chain _
    rw [Function.comp_apply, RawSample.isEmpty_frames_ofFrames]
  · apply List.countP_congr
    simp

/-- **A drain accounts for every byte** of a ring of any content, however far `head` is ahead of
`tail`, and for a buffer in any state, as long as the lost counts that are read fit in a word. It
ends with the cursors together; what was unread is the consumed records and what is discarded; the
buffer keeps its samples and its count of dropped ones and gets the stored samples, each with a
frame and without markers. A `tail` past `head` leaves everything as it is. -/
theorem drain_accounts (r : Ring) (hsize : 8 ≤ r.size) (sink : SampleBuffer) :
    (r.tail ≤ r.head →
      ((r.consumed sink).map (·.content.lostCount)).sum < wordLimit 64 →
      ∃ stats sink' added, r.drain sink = .ok (stats, sink', { r with tail := r.head }) ∧
        r.head - r.tail = ((r.consumed sink).map (·.size)).sum + stats.discardedBytes ∧
        (∀ record ∈ r.consumed sink, 8 ≤ record.size) ∧
        stats.records = (r.consumed sink).length ∧
        stats.lost = ((r.consumed sink).map (·.content.lostCount)).sum ∧
        sink'.toList = sink.toList ++ added ∧ added.length = stats.samples ∧
        (∀ s ∈ added, 1 ≤ s.frames.length ∧ s.frames.length ≤ 64 ∧
          ∀ address ∈ s.frames, isContextMarker address = false) ∧
        sink'.truncated = sink.truncated + stats.truncated ∧ sink'.dropped = sink.dropped ∧
        sink'.capacity = sink.capacity ∧
        stats.samples + stats.emptyStacks ≤ stats.records) ∧
    (r.head < r.tail → r.drain sink = .ok ({}, sink, r)) := by
  constructor
  · intro hcursors hlost
    obtain ⟨hsizes, hsum⟩ := r.sizes_consumed sink
    have hpass := drainFrom_eq_storing hsize r.tail sink {} (by simpa [consumed] using hlost)
    rw [← consumed, DrainStats.empty_add] at hpass
    rw [Nat.max_eq_right hcursors] at hpass
    refine ⟨DrainStats.accounted (r.head - r.tail) (r.consumed sink),
      sink.storing (offeredSamples ((r.consumed sink).map (·.content))),
      offeredSamples ((r.consumed sink).map (·.content)), ?_, ?_, hsizes, ?_, ?_, ?_, rfl,
      fun s hs => frames_of_mem_offeredSamples hs, rfl, rfl, rfl, ?_⟩
    · rw [drain, hpass]
      rfl
    · exact (Nat.add_sub_cancel' hsum).symm
    · exact List.length_map _
    · simp [DrainStats.accounted, DrainStats.counting, Function.comp_def]
    · simp [SampleBuffer.toList, SampleBuffer.storing]
    · have hchains := samples_add_emptyStacks ((r.consumed sink).map (·.content))
      exact hchains ▸ length_chainsOf_le _
  · intro hcursors
    have hnothing : r.drainFrom r.tail sink {} = .ok (r.tail, sink, {}) := by
      rw [drainFrom, if_pos (Nat.le_of_lt hcursors)]
    rw [drain, hnothing]
    rfl

/-- A ring of the eight bytes of one header, which is read over and over again as header, as count
and as chain. -/
private def forgedBytes : Array UInt8 :=
  #[9, 0, 0, 0, 0, 0, 24, 0]

/-- With `head` far ahead, two samples are found in the eight bytes, and what is left is less than
a third one. -/
theorem drain_accounts_forged :
    ∃ r, ofData forgedBytes 60 0 = .ok r ∧ (r.consumed (.withCapacity 4)).length = 2 ∧
      ∃ stats sink', r.drain (.withCapacity 4) = .ok (stats, sink', { r with tail := 60 }) ∧
        stats.records = 2 ∧ stats.discardedBytes = 12 ∧ sink'.dropped = 0 ∧
        stats.samples + stats.emptyStacks ≤ 2 := by
  let r : Ring := ⟨forgedBytes, 60, 0, by decide⟩
  have hring : ofData forgedBytes 60 0 = .ok r := rfl
  have hlength : (r.consumed (.withCapacity 4)).length = 2 := by decide +kernel
  have hsizes : ((r.consumed (.withCapacity 4)).map (·.size)).sum = 48 := by decide +kernel
  obtain ⟨hdrain, -⟩ := drain_accounts r (by decide) (.withCapacity 4)
  obtain ⟨stats, sink', added, hrun, hbytes, -, hrecords, -, -, -, -, -, hdropped, -, hsamples⟩ :=
    hdrain (by decide) (by decide +kernel)
  rw [hsizes] at hbytes
  rw [hrecords, hlength] at hsamples
  have hunread : r.head - r.tail = 60 := rfl
  exact ⟨r, hring, hlength, stats, sink', hrun, hrecords.trans hlength, by omega, hdropped,
    hsamples⟩

end Ring

end StackProfiler
