import StackProfiler.Proofs.Ring.RoundTrip
import StackProfiler.Session.Summary

/-!
# Samples that a session loses

A sample that finds the buffer full is counted as dropped by the buffer, but a drain does not offer
it any: once the buffer is full, what is unread is discarded as bytes. So the summary of a session
over a drained ring never has a dropped sample, and its captured and dropped samples add up to the
samples of the ring only if all of these fit into the buffer.

- **a drain to the end**: `exists_ringRun_drained`, the buffer and statistics after it;
- **a loss**: `discardedBytes_pos`, what it leaves in the statistics;
- **main statement**: `drained_summary`.
-/

namespace StackProfiler

/-! ## Section 1: Samples and what is discarded of them -/

/-- Number of samples among several records that have an address in their chain. -/
def stackRecords (records : List WrittenRecord) : Nat :=
  (chainsOf records).countP (·.any (!isContextMarker ·))

/-- These are the samples that are offered to a buffer. -/
theorem length_offeredSamples (records : List WrittenRecord) :
    (offeredSamples records).length = stackRecords records := by
  rw [offeredSamples, ← List.countP_eq_length_filter, List.countP_map, stackRecords]
  apply List.countP_congr
  intro chain _
  -- a sample has a frame if a word of its chain is an address
  rw [Function.comp_apply, RawSample.isEmpty_frames_ofFrames]
  simp [addressesOf]

/-- No more samples are read than there is room for. -/
theorem length_offeredSamples_readWithRoom_le (room : Nat) (records : List WrittenRecord) :
    (offeredSamples (readWithRoom room records)).length ≤ room := by
  induction records generalizing room with
  | nil => exact Nat.zero_le _
  | cons record records ih =>
    rw [readWithRoom]
    split
    · exact Nat.zero_le _
    · have hone : (offeredSamples [record]).length ≤ 1 := length_offeredSamples_le [record]
      have hrest := ih (room - (offeredSamples [record]).length)
      rw [← List.singleton_append, offeredSamples_append, List.length_append]
      omega

/-- **A loss leaves a trace**: if there are more samples than room, bytes are discarded. -/
theorem discardedBytes_pos {room : Nat} {records : List WrittenRecord}
    (h : room < (offeredSamples records).length) :
    0 < (DrainStats.expected room records).discardedBytes := by
  obtain ⟨rest, hrest⟩ := readWithRoom_isPrefix room records
  have hread := length_offeredSamples_readWithRoom_le room records
  -- what was read has at most as many samples as there is room for, so something is left
  have hleft : rest ≠ [] := by
    rintro rfl
    rw [List.append_nil] at hrest
    rw [hrest] at hread
    omega
  have hdrop : records.drop (readWithRoom room records).length = rest := by
    have hcut : ((readWithRoom room records) ++ rest).drop (readWithRoom room records).length =
        rest := List.drop_left
    rwa [hrest] at hcut
  have hsize : rest.length ≤ totalSize rest := length_le_totalSize rest
  have hlength : 0 < rest.length := List.length_pos_iff.mpr hleft
  show 0 < totalSize (records.drop (readWithRoom room records).length)
  rw [hdrop]
  omega

/-! ## Section 2: The summary of a buffer -/

theorem SampleBuffer.size_holding (capacity : Nat) (samples : List RawSample) :
    (holding capacity samples).size = min samples.length capacity := rfl

/-- What a summary says about the buffer and the ring. -/
theorem Session.summary_of_foldBuffer {σ : Type} {buffer : SampleBuffer} {resolver : Resolver σ}
    {filter : FrameFilter} {pid : Pid} {config : SessionConfig} {elapsedMs : Nat}
    {ring : Option DrainStats} {output : SessionOutput σ}
    (h : foldBuffer buffer resolver filter pid config elapsedMs ring = .ok output) :
    output.summary.captured = buffer.size ∧ output.summary.dropped = buffer.dropped ∧
      output.summary.ring = ring := by
  simp only [foldBuffer, Checked.bind_eq_ok_iff] at h
  obtain ⟨⟨folder, resolver'⟩, -, total, -, h⟩ := h
  cases h
  exact ⟨rfl, rfl, rfl⟩

namespace Recording

/-! ## Section 3: A ring that is drained to the end -/

/-- **After a final drain** everything that was written has been read. -/
theorem exists_ringRun_drained {size start capacity : Nat} {ring : Ring}
    (hring : Ring.zeroed size start = .ok ring) (hsize : 8 ≤ size) {events : List RingEvent}
    (hsmall : ∀ record ∈ writtenRecords events, record.size ≤ 65535)
    (hunread : ∀ front, front <+: events →
      ∀ s, (State.initial ring capacity).run front = .ok s → s.unread ≤ size)
    (hhead : start + totalSize (writtenRecords events) < wordLimit 64)
    (hlost : ((writtenRecords events).map (·.lostCount)).sum < wordLimit 64) :
    ∃ s, (State.initial ring capacity).run (events ++ [.drain]) = .ok s ∧
      RingRun size start capacity (writtenRecords events) [] s := by
  obtain ⟨s, read, pending, hrun, hwritten, hinv⟩ :=
    exists_ringRun hring hsize hsmall hhead hlost hunread
  rw [← hwritten] at hsmall hhead hlost ⊢
  obtain ⟨s', hstep, hinv'⟩ := hinv.drain hsize
    (fun record h => hsmall record (List.mem_append_right _ h)) hhead hlost
  refine ⟨s', ?_, hinv'⟩
  rw [State.run_append_singleton, hrun]
  exact hstep

/--
**What a summary says about the samples of a ring.** Whatever is written into a ring and whenever it
is drained in between, under the conditions of a round trip, a session over the buffer after a final
drain has captured as many of the samples with an address as fit, and has dropped none. So captured
and dropped samples add up to the samples of the ring exactly if these fit into the buffer, and if
they do not, the loss shows in the discarded bytes of the ring.
-/
theorem drained_summary (size : Nat) (hpower : size.isPowerOfTwo) (hsize : 8 ≤ size)
    (start : Nat) :
    ∃ ring, Ring.zeroed size start = .ok ring ∧
      ∀ (capacity : Nat) (events : List RingEvent),
        (∀ record ∈ writtenRecords events, record.size ≤ 65535) →
        (∀ front, front <+: events →
          ∀ s, (State.initial ring capacity).run front = .ok s →
            s.ring.head - s.ring.tail ≤ size) →
        start + totalSize (writtenRecords events) < wordLimit 64 →
        ((writtenRecords events).map (·.lostCount)).sum < wordLimit 64 →
        ∃ s, (State.initial ring capacity).run (events ++ [.drain]) = .ok s ∧
          ∀ (σ : Type) (resolver : Resolver σ) (filter : FrameFilter) (pid : Pid)
            (config : SessionConfig) (elapsedMs : Nat) (output : SessionOutput σ),
            Session.foldBuffer s.buffer resolver filter pid config elapsedMs (some s.stats) =
              .ok output →
            output.summary.captured = min (stackRecords (writtenRecords events)) capacity ∧
              output.summary.dropped = 0 ∧
              (stackRecords (writtenRecords events) =
                  output.summary.captured + output.summary.dropped ↔
                stackRecords (writtenRecords events) ≤ capacity) ∧
              (capacity < stackRecords (writtenRecords events) →
                ∃ stats, output.summary.ring = some stats ∧ 0 < stats.discardedBytes) := by
  obtain ⟨ring, hring⟩ := exists_zeroed hpower start
  refine ⟨ring, hring, ?_⟩
  intro capacity events hsmall hunread hhead hlost
  obtain ⟨s, hrun, hinv⟩ := exists_ringRun_drained hring hsize hsmall hunread hhead hlost
  refine ⟨s, hrun, ?_⟩
  intro σ resolver filter pid config elapsedMs output hfold
  obtain ⟨hcaptured, hdropped, hringStats⟩ := Session.summary_of_foldBuffer hfold
  -- the buffer holds the first samples, and none was offered to it when it was full
  rw [hinv.buffer_eq] at hcaptured hdropped
  have hsum : output.summary.captured = min (stackRecords (writtenRecords events)) capacity := by
    rw [hcaptured, SampleBuffer.size_holding, List.length_take, length_offeredSamples]
    omega
  have hzero : output.summary.dropped = 0 := hdropped
  refine ⟨hsum, hzero, ?_, ?_⟩
  · rw [hsum, hzero]
    omega
  · intro hfull
    refine ⟨s.stats, hringStats, ?_⟩
    rw [hinv.stats_eq]
    apply discardedBytes_pos
    rwa [length_offeredSamples]

/-- Two samples, read into a buffer for one. -/
private def overfull : List RingEvent :=
  [.write (.sample [0x1000]), .write (.sample [0x2000])]

private def nameless : Resolver Unit where
  regions := []
  source := { lookup := fun _ _ _ => .ok (none, ()) }
  state := ()
  cache := { entries := #[none], probes := 1 }

private theorem overfull_unread :
    (overfull.inits.all fun front =>
      match Ring.zeroed 64 0 with
      | .error _ => false
      | .ok ring =>
        match (State.initial ring 1).run front with
        | .error _ => false
        | .ok s => decide (s.ring.head - s.ring.tail ≤ 64)) = true := by
  decide +kernel

private theorem overfull_folds :
    (match Ring.zeroed 64 0 with
      | .error _ => false
      | .ok ring =>
        match (State.initial ring 1).run (overfull ++ [.drain]) with
        | .error _ => false
        | .ok s =>
          (Session.foldBuffer s.buffer nameless .sentinels ⟨1⟩ {} 0 (some s.stats)).isOk) =
      true := by
  decide +kernel

/-- Of two samples one is captured, and the other one is not counted as dropped. -/
theorem drained_summary_overfull :
    stackRecords (writtenRecords overfull) = 2 ∧
      ∃ ring, Ring.zeroed 64 0 = .ok ring ∧
        ∃ s, (State.initial ring 1).run (overfull ++ [.drain]) = .ok s ∧
          ∃ output, Session.foldBuffer s.buffer nameless .sentinels ⟨1⟩ {} 0 (some s.stats) =
              .ok output ∧
            output.summary.captured = 1 ∧ output.summary.dropped = 0 ∧
            2 ≠ output.summary.captured + output.summary.dropped := by
  have htwo : stackRecords (writtenRecords overfull) = 2 := by decide +kernel
  refine ⟨htwo, ?_⟩
  obtain ⟨ring, hring, hall⟩ := drained_summary 64 ⟨6, rfl⟩ (by decide) 0
  have hunread : ∀ front, front <+: overfull →
      ∀ s, (State.initial ring 1).run front = .ok s → s.ring.head - s.ring.tail ≤ 64 := by
    intro front hfront s hs
    have hchecked := List.all_eq_true.mp overfull_unread front
      ((List.mem_inits front overfull).mpr hfront)
    simp only [hring, hs] at hchecked
    exact of_decide_eq_true hchecked
  obtain ⟨s, hrun, hsession⟩ :=
    hall 1 overfull (by decide +kernel) hunread (by decide +kernel) (by decide +kernel)
  refine ⟨ring, hring, s, hrun, ?_⟩
  have hfolds := overfull_folds
  simp only [hring, hrun] at hfolds
  cases hfold : Session.foldBuffer s.buffer nameless .sentinels ⟨1⟩ {} 0 (some s.stats) with
  | error fault => simp [hfold, Except.isOk, Except.toBool] at hfolds
  | ok output =>
    obtain ⟨hcaptured, hdropped, hsum, -⟩ := hsession Unit nameless .sentinels ⟨1⟩ {} 0 output hfold
    rw [htwo] at hcaptured hsum
    exact ⟨output, rfl, hcaptured, hdropped, fun heq => absurd (hsum.mp heq) (by decide)⟩

end Recording

end StackProfiler
