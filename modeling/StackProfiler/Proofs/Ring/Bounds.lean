import Mathlib.Tactic.IntervalCases
import StackProfiler.Proofs.Ring.AnyContent

/-!
# Where a drain reads

A span that is read must lie in the data area, or the reading is stopped. A read at a cursor
position takes what is there up to the end of the area, and the rest from its start, so it stays
within the area exactly if the rest fits.

A drain reads headers and words, all of eight bytes. In rings of eight bytes and more these reads
stay within the area, whatever the cursors and the content are. But smaller sizes are powers of two
as well. In one or two bytes no header can be read at all; in four bytes one can be read at every
fourth position, where it is always the same, and says whether the next one stands at such a
position, too.

- **one read**: `readsWithin_iff`, `readBytes_of_not_readsWithin`, `readsWithin_header_iff`;
- **one step**: `drainFrom_of_not_readsWithin`, `drainFrom_of_readsWithin_iff`;
- **one pass**: `drainFrom_ne_outOfBounds` for large rings, `drainFrom_of_four_iff` for small ones;
- **main statement**: `drain_within_iff`.
-/

namespace StackProfiler

namespace Ring

variable {r : Ring} {position : Nat} {sink : SampleBuffer} {stats : DrainStats}

/-! ## Section 1: Reads -/

/-- Every span that a read asks for lies in the data area. -/
def ReadsWithin (r : Ring) (position length : Nat) : Prop :=
  ∀ span ∈ spans r.size position length, span.1 + span.2 ≤ r.size

/-- **A read stays in the data area** if what is left of it behind the end of the area fits in
the area again. -/
theorem readsWithin_iff {length : Nat} :
    r.ReadsWithin position length ↔ position % r.size + length ≤ 2 * r.size := by
  have hoff : position % r.size < r.size := Nat.mod_lt _ r.size_pos
  simp only [ReadsWithin, spans, masked_eq_mod, List.forall_mem_cons]
  -- the first span ends where the area does, at the latest
  split
  · simp only [List.forall_mem_singleton]
    omega
  · simp only [List.not_mem_nil, false_implies, implies_true, and_true]
    omega

/-- **A read is refused** if a span that it asks for does not lie in the data area. -/
theorem readBytes_of_not_readsWithin {length : Nat} (h : ¬r.ReadsWithin position length) :
    r.readBytes position length = .error .outOfBounds := by
  have hoff : position % r.size < r.size := Nat.mod_lt _ r.size_pos
  rw [readsWithin_iff, not_le] at h
  simp only [readBytes, spans, masked_eq_mod]
  generalize position % r.size = offset at hoff h
  -- the first span is read, and it is the second one that is too long
  have hmin : min length (r.size - offset) = r.size - offset := Nat.min_eq_right (by omega)
  have hfirst : r.readSpan offset (r.size - offset) = .ok (r.window offset (r.size - offset)) :=
    readSpan_eq_window (by omega)
  have hsecond : r.readSpan 0 (length - (r.size - offset)) = .error .outOfBounds := by
    rw [readSpan, if_neg (by omega)]
  rw [hmin, if_pos (by omega)]
  simp [hfirst, hsecond, bind, Except.bind]

theorem readHeader_of_readsWithin (h : r.ReadsWithin position RecordHeader.length) :
    r.readHeader position = .ok (r.headerAt position) := by
  rw [readHeader, readBytes_eq_window_of_le (readsWithin_iff.mp h)]
  rfl

theorem readHeader_of_not_readsWithin (h : ¬r.ReadsWithin position RecordHeader.length) :
    r.readHeader position = .error .outOfBounds := by
  rw [readHeader, readBytes_of_not_readsWithin h]
  rfl

/-- The powers of two below eight. -/
theorem size_of_lt_eight (h : r.size < 8) : r.size = 1 ∨ r.size = 2 ∨ r.size = 4 := by
  obtain ⟨k, hk⟩ := isPowerOfTwo_iff.mp r.size_isPowerOfTwo
  have hsize : r.size = 2 ^ k := hk
  have hlt : k < 3 := by
    by_contra hge
    have : 2 ^ 3 ≤ 2 ^ k := Nat.pow_le_pow_right (by decide) (not_lt.mp hge)
    omega
  interval_cases k <;> simp [hsize]

/-- **Where headers can be read**: everywhere in eight bytes and more, at every fourth position in
four bytes, and nowhere in less. -/
theorem readsWithin_header_iff :
    r.ReadsWithin position RecordHeader.length ↔ 8 ≤ r.size ∨ r.size = 4 ∧ 4 ∣ position := by
  have hoff : position % r.size < r.size := Nat.mod_lt _ r.size_pos
  rw [readsWithin_iff, RecordHeader.length]
  by_cases hlarge : 8 ≤ r.size
  · simp only [hlarge, true_or, iff_true]
    omega
  · rcases size_of_lt_eight (not_le.mp hlarge) with hsize | hsize | hsize
    all_goals
      rw [hsize] at hoff ⊢
      omega

/-! ## Section 2: One step -/

/-- The header at a position states a possible size: that of a header or more, and no more than what
is unread. -/
def SoundAt (r : Ring) (position : Nat) : Prop :=
  RecordHeader.length ≤ (r.headerAt position).size.toNat ∧
    (r.headerAt position).size.toNat ≤ r.head - position

/-- Nothing is read without unread bytes and a place for a sample. -/
theorem unread_of_drainFrom_eq_error {fault : Fault}
    (h : r.drainFrom position sink stats = .error fault) :
    position < r.head ∧ sink.isFull = false := by
  rw [drainFrom] at h
  split at h
  · contradiction
  next hend =>
    split at h
    · contradiction
    next hroom => exact ⟨not_le.mp hend, Bool.eq_false_iff.mpr hroom⟩

/-- **A step** goes out of bounds at once if the header cannot be read. -/
theorem drainFrom_of_not_readsWithin (hend : position < r.head) (hroom : sink.isFull = false)
    (hheader : ¬r.ReadsWithin position RecordHeader.length) (stats : DrainStats) :
    r.drainFrom position sink stats = .error .outOfBounds := by
  rw [drainFrom, if_neg (not_le.mpr hend), if_neg (by simp [hroom])]
  simp only [readHeader_of_not_readsWithin hheader]

/-- **A step** with a header that can be read goes out of bounds in the body or behind the record,
if there is one. -/
theorem drainFrom_of_readsWithin_iff (hheader : r.ReadsWithin position RecordHeader.length) :
    r.drainFrom position sink stats = .error .outOfBounds ↔
      position < r.head ∧ sink.isFull = false ∧ r.SoundAt position ∧
        match r.consumeRecord (r.headerAt position) (position + RecordHeader.length) sink stats with
        | .error fault => fault = .outOfBounds
        | .ok (sink', stats') =>
          r.drainFrom (position + (r.headerAt position).size.toNat) sink' stats' =
            .error .outOfBounds := by
  rw [drainFrom]
  by_cases hend : r.head ≤ position
  · simp [hend]
  by_cases hroom : sink.isFull = true
  · simp [hend, hroom]
  rw [if_neg hend, if_neg hroom]
  simp only [readHeader_of_readsWithin hheader]
  have hstart : position < r.head := not_le.mp hend
  have hfree : sink.isFull = false := Bool.eq_false_iff.mpr hroom
  by_cases hsound : r.SoundAt position
  · have hcorrupt : ¬((r.headerAt position).size.toNat < RecordHeader.length ∨
        r.head - position < (r.headerAt position).size.toNat) := by
      rw [not_or, not_lt, not_lt]
      exact hsound
    rw [if_neg hcorrupt]
    simp only [hstart, hfree, hsound, true_and]
    split <;> simp_all
  · have hcorrupt : (r.headerAt position).size.toNat < RecordHeader.length ∨
        r.head - position < (r.headerAt position).size.toNat := by
      rwa [← not_le, ← not_le, ← not_and_or]
    rw [if_pos hcorrupt]
    simp [hsound]

/-! ## Section 3: Rings of eight bytes and more -/

/-- A body can be read. -/
theorem consumeRecord_ne_outOfBounds (hsize : 8 ≤ r.size) (header : RecordHeader) (body : Nat)
    (sink : SampleBuffer) (stats : DrainStats) :
    r.consumeRecord header body sink stats ≠ .error .outOfBounds := by
  rw [consumeRecord]
  split
  · -- a sample: its words are read, and the buffer takes it or not
    by_cases hlength : 8 ≤ header.size.toNat - RecordHeader.length
    · rw [consumeSample_eq hsize hlength]
      dsimp only
      split <;> simp
    · rw [consumeSample, if_pos (not_le.mp hlength)]
      simp
  split
  · -- a notice: the sum of lost records may be too large, but that is another fault
    rw [readWord_eq_wordAt hsize]
    by_cases hsum : stats.lost + (r.wordAt (body + 8)).toNat < wordLimit 64 <;>
      simp [bind, Except.bind, pure, Except.pure, Checked.add, Checked.fit, hsum]
  · simp [pure, Except.pure]

/-- **Large rings**: no pass goes out of bounds. -/
theorem drainFrom_ne_outOfBounds (hsize : 8 ≤ r.size) (position : Nat) (sink : SampleBuffer)
    (stats : DrainStats) : r.drainFrom position sink stats ≠ .error .outOfBounds := by
  induction hunread : r.head - position using Nat.strongRecOn generalizing position sink stats with
  | ind unread ih =>
    have hheader : r.ReadsWithin position RecordHeader.length :=
      readsWithin_header_iff.mpr (.inl hsize)
    rw [ne_eq, drainFrom_of_readsWithin_iff hheader]
    rintro ⟨-, -, ⟨hshort, hlong⟩, hrest⟩
    have hpos : 0 < RecordHeader.length := by decide
    split at hrest
    next fault hconsumed =>
      exact consumeRecord_ne_outOfBounds hsize _ _ _ _ (hrest ▸ hconsumed)
    next sink' stats' _ => exact ih _ (by omega) _ sink' stats' rfl hrest

/-! ## Section 4: Rings of four bytes -/

/-- The size that the header at the start of the data area states. -/
def statedSize (r : Ring) : Nat :=
  (r.headerAt 0).size.toNat

/-- At every fourth position there are the same four bytes. -/
theorem headerAt_of_four_dvd (hsize : r.size = 4) (h : 4 ∣ position) :
    r.headerAt position = r.headerAt 0 := by
  have hmod : position % r.size = 0 % r.size := by
    rw [hsize]
    omega
  rw [headerAt, headerAt, window_eq_of_mod_eq hmod]

/-- The size is read from the upper half of the four bytes from which the kind is read. -/
theorem statedSize_mul_le_kind (hsize : r.size = 4) :
    r.statedSize * 65536 ≤ (r.headerAt 0).kind.toNat := by
  have hback : r.window 4 4 = r.window 0 4 :=
    window_eq_of_mod_eq (by rw [hsize]) 4
  have hwindow : r.window 0 8 = r.window 0 4 ++ r.window 0 4 := by
    have := window_add r 0 4 4
    rwa [hback] at this
  obtain ⟨a, b, c, d, hbytes⟩ : ∃ a b c d, r.window 0 4 = [a, b, c, d] :=
    ⟨_, _, _, _, rfl⟩
  have ha := a.toNat_lt
  have hb := b.toNat_lt
  have hc := c.toNat_lt
  have hd := d.toNat_lt
  simp only [statedSize, headerAt, RecordHeader.length, hwindow, hbytes, RecordHeader.ofBytes]
  simp [Bytes.ofLittleEndian]
  omega

/-- A header with a possible size belongs neither to a sample nor to a notice of lost records, so
that its body is not looked at. -/
theorem consumeRecord_of_four (hsize : r.size = 4) (hstated : 8 ≤ r.statedSize) (body : Nat)
    (sink : SampleBuffer) (stats : DrainStats) :
    r.consumeRecord (r.headerAt 0) body sink stats =
      .ok (sink, { stats with records := stats.records + 1 }) := by
  have hkind := statedSize_mul_le_kind hsize
  have hsample : (r.headerAt 0).kind ≠ Record.sampleKind := by
    intro h
    rw [h, Record.sampleKind] at hkind
    have : (9 : UInt32).toNat = 9 := rfl
    omega
  have hlost : (r.headerAt 0).kind ≠ Record.lostKind := by
    intro h
    rw [h, Record.lostKind] at hkind
    have : (2 : UInt32).toNat = 2 := rfl
    omega
  rw [consumeRecord, if_neg hsample, if_neg fun h => hlost h.1]
  rfl

/-- From a position on, no further header is read, or every further one at a distance that four
divides. -/
def KeepsStep (r : Ring) (position : Nat) : Prop :=
  4 ∣ r.statedSize ∨ r.statedSize < RecordHeader.length ∨ r.head - position ≤ r.statedSize

instance (r : Ring) (position : Nat) : Decidable (r.KeepsStep position) :=
  inferInstanceAs (Decidable (_ ∨ _ ∨ _))

/-- **Small rings**: a pass over four bytes goes out of bounds unless all headers that it reads
stand at positions that four divides. -/
theorem drainFrom_of_four_iff (hsize : r.size = 4) (position : Nat) (sink : SampleBuffer)
    (stats : DrainStats) :
    r.drainFrom position sink stats = .error .outOfBounds ↔
      position < r.head ∧ sink.isFull = false ∧ ¬(4 ∣ position ∧ r.KeepsStep position) := by
  induction hunread : r.head - position using Nat.strongRecOn generalizing position stats with
  | ind unread ih =>
    have hheader : r.ReadsWithin position RecordHeader.length ↔ 4 ∣ position := by
      rw [readsWithin_header_iff]
      omega
    by_cases hdvd : 4 ∣ position
    · rw [drainFrom_of_readsWithin_iff (hheader.mpr hdvd), SoundAt,
        headerAt_of_four_dvd hsize hdvd, ← statedSize, KeepsStep]
      apply and_congr_right
      intro hend
      apply and_congr_right
      intro hroom
      by_cases hstated : RecordHeader.length ≤ r.statedSize
      · -- the record is passed over, and what follows is the same question further on
        have hpos : 0 < RecordHeader.length := by decide
        simp only [consumeRecord_of_four hsize hstated]
        rw [ih _ (by omega) (position + r.statedSize) _ rfl, KeepsStep]
        simp only [hroom, true_and]
        omega
      · simp [hstated, not_le.mp hstated, hdvd]
    · -- the header cannot be read
      simp only [hdvd, false_and, not_false_eq_true, and_true]
      constructor
      · exact unread_of_drainFrom_eq_error
      · rintro ⟨hend, hroom⟩
        exact drainFrom_of_not_readsWithin hend hroom (mt hheader.mp hdvd) stats

/-! ## Section 5: A whole drain -/

theorem drain_eq_error_iff {fault : Fault} :
    r.drain sink = .error fault ↔ r.drainFrom r.tail sink {} = .error fault := by
  rw [drain]
  cases r.drainFrom r.tail sink {} <;> simp [bind, Except.bind, pure, Except.pure]

/--
**Where a drain stays within the data area.** A drain of a ring of any size that is a power of two,
with any content and any cursors, asks for no span outside the data area exactly if there is nothing
to read, or nothing more can be stored, or the ring has eight bytes or more, or it has four bytes
and all headers that are read stand at positions that four divides.
-/
theorem drain_within_iff (r : Ring) (sink : SampleBuffer) :
    r.drain sink ≠ .error .outOfBounds ↔
      r.head ≤ r.tail ∨ sink.isFull = true ∨ 8 ≤ r.size ∨
        r.size = 4 ∧ 4 ∣ r.tail ∧ r.KeepsStep r.tail := by
  rw [ne_eq, drain_eq_error_iff]
  by_cases hlarge : 8 ≤ r.size
  · simp [hlarge, drainFrom_ne_outOfBounds hlarge]
  by_cases hfour : r.size = 4
  · rw [drainFrom_of_four_iff hfour, not_and_or, not_and_or, not_lt, Bool.not_eq_false, not_not,
      or_iff_right hlarge, and_iff_right hfour]
  · -- in a smaller ring no header can be read
    have hheader : ¬r.ReadsWithin r.tail RecordHeader.length := by
      rw [readsWithin_header_iff]
      tauto
    simp only [hlarge, hfour, false_and, or_false]
    constructor
    · intro hwithin
      by_contra hunread
      rw [not_or, not_le, Bool.not_eq_true] at hunread
      exact hwithin (drainFrom_of_not_readsWithin hunread.1 hunread.2 hheader {})
    · intro hdone hfault
      obtain ⟨hend, hroom⟩ := unread_of_drainFrom_eq_error hfault
      rcases hdone with hdone | hdone
      · exact absurd hend (not_lt.mpr hdone)
      · simp [hroom] at hdone

/-- A ring of four bytes is as good as any other, but at an odd position its first header cannot be
read. -/
theorem drain_within_iff_four_bytes :
    ∃ r : Ring, Ring.ofData #[0, 0, 0, 0] 9 1 = .ok r ∧
      r.drain (.withCapacity 1) = .error .outOfBounds := by
  refine ⟨⟨#[0, 0, 0, 0], 9, 1, by decide⟩, rfl, ?_⟩
  by_contra hwithin
  have h := (drain_within_iff _ _).mp hwithin
  revert h
  decide

end Ring

end StackProfiler
