import StackProfiler.Proofs.Ring.CallChain

/-!
# Bodies of sample records

A body of any bytes is read as words of eight bytes (`Record.wordsOf`): the first one is a count,
and as many of the others as it says, as far as they are there, are a call chain. What the chain
comes to is said here without the loop that reads it (`DecodesTo`): the sample of its
addresses, and the markers in front of the first address that no longer fits.

The reads themselves are taken out of the loop as well. `Ring.consumeSampleWith` decodes a body
with any reader of words in the ring's place, and decodes it in the same way as the ring does
already if the reader agrees with the ring inside the body. So no word is asked for that does not
lie in the body: a reader that refuses all others is as good as the ring.

- **the body as words**: `Ring.wordsOf_window`;
- **the chain without the loop**: `markersWithin_append`, `decodesTo_ofFrames`;
- **the reads**: `Ring.readChainWith_congr`, `Ring.consumeSampleWith_congr`;
- **main statement**: `Ring.consumeSample_decodes`.
-/

namespace StackProfiler

/-! ## Section 1: The body as words -/

/-- The words that bytes spell, eight bytes each; fewer than eight bytes at the end spell none. -/
def Record.wordsOf (bytes : List UInt8) : List UInt64 :=
  (List.range (bytes.length / 8)).map fun i =>
    UInt64.ofNat (Bytes.ofLittleEndian ((bytes.drop (8 * i)).take 8))

namespace Ring

/-- The words that a window spells are the words at its positions. -/
theorem wordsOf_window (r : Ring) (position length : Nat) :
    Record.wordsOf (r.window position length) = r.wordsAt position (length / 8) := by
  rw [Record.wordsOf, length_window, wordsAt]
  apply List.map_congr_left
  intro i hi
  have hlt : i < length / 8 := List.mem_range.mp hi
  rw [take_drop_window r position (by omega), wordAt]

end Ring

/-! ## Section 2: The chain without the loop -/

/-- Markers are counted up to a place in front of which every address fits, and behind it with the
room that is left. -/
theorem markersWithin_append {room : Nat} {front : List UInt64} (back : List UInt64)
    (hfits : (addressesOf front).length ≤ room) :
    markersWithin room (front ++ back) =
      front.countP isContextMarker +
        markersWithin (room - (addressesOf front).length) back := by
  induction front generalizing room with
  | nil => simp [addressesOf]
  | cons word front ih =>
    rw [List.cons_append, markersWithin]
    by_cases hmarker : isContextMarker word = true
    · -- a marker takes no room
      rw [addressesOf_cons_of_marker front hmarker] at hfits ⊢
      rw [if_pos hmarker, ih hfits, List.countP_cons_of_pos hmarker, Nat.add_right_comm]
    · -- an address takes a place, and there is one
      rw [addressesOf_cons_of_address front hmarker, List.length_cons] at hfits ⊢
      rw [if_neg hmarker, if_neg (by omega), ih (by omega), List.countP_cons_of_neg hmarker,
        Nat.sub_sub, Nat.add_comm 1]

/-- What a call chain comes to: a sample, and a number of markers that were met on the way. -/
structure DecodesTo (chain : List UInt64) (sample : RawSample) (markers : Nat) : Prop where
  /-- The sample is the one of the words that are no markers. -/
  sample_eq : sample = RawSample.ofFrames (addressesOf chain)
  /-- Frames were cut off exactly if more than 64 words are no markers. -/
  isTruncated_iff : sample.isTruncated = true ↔ 64 < (addressesOf chain).length
  /-- If there is a 65th address, the markers in front of it are met. -/
  markers_of_cut : ∀ front address back, chain = front ++ address :: back →
    isContextMarker address = false → (addressesOf front).length = 64 →
      markers = front.countP isContextMarker
  /-- If there is none, all markers are met. -/
  markers_of_le : (addressesOf chain).length ≤ 64 → markers = chain.countP isContextMarker

/-- **A chain** that is read from the start comes to the sample of its addresses and to the markers
in front of the first address that no longer fits. -/
theorem decodesTo_ofFrames (chain : List UInt64) :
    DecodesTo chain (RawSample.ofFrames (addressesOf chain))
      (markersWithin maxStackDepth chain) where
  sample_eq := rfl
  isTruncated_iff := by
    rw [RawSample.isTruncated_ofFrames, decide_eq_true_iff]
    rfl
  markers_of_cut := by
    rintro front address back rfl haddress hfull
    have htaken : (addressesOf front).length = maxStackDepth := hfull
    -- the address finds no room
    rw [markersWithin_append _ (Nat.le_of_eq htaken), htaken, markersWithin, haddress,
      if_neg Bool.false_ne_true, if_pos (Nat.sub_self _), Nat.add_zero]
  markers_of_le := by
    intro hfits
    have hall := markersWithin_append [] hfits
    rwa [List.append_nil, markersWithin, Nat.add_zero] at hall

/-- The statistics after the sample of a body was offered to a buffer: the markers count in any
case, and the rest depends on what became of the sample. -/
def DrainStats.offered (stats : DrainStats) (markers : Nat) (sample : RawSample) :
    CaptureOutcome → DrainStats
  | .stored =>
    { stats with
      markersSkipped := stats.markersSkipped + markers
      samples := stats.samples + 1
      truncated := stats.truncated + if sample.isTruncated then 1 else 0 }
  | .empty =>
    { stats with
      markersSkipped := stats.markersSkipped + markers
      emptyStacks := stats.emptyStacks + 1 }
  | .dropped => { stats with markersSkipped := stats.markersSkipped + markers }

/-! ## Section 3: The reads -/

namespace Ring

variable {read read' : Nat → Checked UInt64}

/-- Reads a call chain of so many words, each of them with the given reader. -/
def readChainWith (read : Nat → Checked UInt64) :
    (words position : Nat) → Chain → Checked Chain
  | 0, _, chain => .ok chain
  | words + 1, position, chain => do
    let address ← read position
    if isContextMarker address then
      readChainWith read words (position + 8) { chain with markers := chain.markers + 1 }
    else if chain.frames.size = maxStackDepth then
      return { chain with truncated := true }
    else
      readChainWith read words (position + 8) { chain with frames := chain.frames.push address }

/-- Stores the sample in the body of a sample record, of which every word is read with the given
reader. -/
def consumeSampleWith (read : Nat → Checked UInt64) (body length : Nat) (sink : SampleBuffer)
    (stats : DrainStats) : Checked (SampleBuffer × DrainStats) :=
  if length < 8 then .ok (sink, { stats with emptyStacks := stats.emptyStacks + 1 })
  else do
    let count ← read body
    let chain ← readChainWith read (min count.toNat ((length - 8) / 8)) (body + 8) {}
    let stats := { stats with markersSkipped := stats.markersSkipped + chain.markers }
    match sink.push chain.sample with
    | (.stored, sink) =>
      return (sink,
        { stats with
          samples := stats.samples + 1
          truncated := if chain.truncated then stats.truncated + 1 else stats.truncated })
    | (.empty, sink) => return (sink, { stats with emptyStacks := stats.emptyStacks + 1 })
    | (.dropped, sink) => return (sink, stats)

theorem readChainWith_readWord (r : Ring) (words position : Nat) (chain : Chain) :
    readChainWith r.readWord words position chain = r.readChain words position chain := by
  induction words generalizing position chain with
  | zero => rfl
  | succ words ih => simp only [readChainWith, readChain, ih]

/-- With its own reader, a ring decodes a body as it does. -/
theorem consumeSampleWith_readWord (r : Ring) (body length : Nat) (sink : SampleBuffer)
    (stats : DrainStats) :
    consumeSampleWith r.readWord body length sink stats =
      r.consumeSample body length sink stats := by
  have hchain : readChainWith r.readWord = r.readChain := by
    funext words position chain
    exact r.readChainWith_readWord words position chain
  rw [consumeSampleWith, hchain]
  rfl

/-- **A chain is read within its words**: readers that agree there read the same chain. -/
theorem readChainWith_congr {words position : Nat} (chain : Chain)
    (h : ∀ p, position ≤ p → p + 8 ≤ position + 8 * words → read p = read' p) :
    readChainWith read words position chain = readChainWith read' words position chain := by
  induction words generalizing position chain with
  | zero => rfl
  | succ words ih =>
    have hfirst : read position = read' position := h position (Nat.le_refl _) (by omega)
    have hrest : ∀ chain, readChainWith read words (position + 8) chain =
        readChainWith read' words (position + 8) chain := by
      intro chain
      apply ih
      intro p hstart hend
      exact h p (by omega) (by omega)
    simp only [readChainWith, hfirst, hrest]

/-- **A body is read within its bytes**: readers that agree there decode it in the same way. -/
theorem consumeSampleWith_congr {body length : Nat} (sink : SampleBuffer) (stats : DrainStats)
    (h : ∀ p, body ≤ p → p + 8 ≤ body + length → read p = read' p) :
    consumeSampleWith read body length sink stats =
      consumeSampleWith read' body length sink stats := by
  by_cases hshort : length < 8
  · -- nothing is read of a body without room for a count
    rw [consumeSampleWith, consumeSampleWith, if_pos hshort, if_pos hshort]
  · have hcount : read body = read' body := h body (Nat.le_refl _) (by omega)
    have hchain : ∀ count : UInt64,
        readChainWith read (min count.toNat ((length - 8) / 8)) (body + 8) {} =
          readChainWith read' (min count.toNat ((length - 8) / 8)) (body + 8) {} := by
      intro count
      apply readChainWith_congr
      -- the words of the chain lie in the body, whatever the count is
      intro p hstart hend
      exact h p (by omega) (by omega)
    simp only [consumeSampleWith, hcount, hchain]

/-! ## Section 4: A body of any bytes -/

/-- What is offered to a buffer is the sample of the chain in the body. -/
theorem consumeSample_eq_offered {r : Ring} (hsize : 8 ≤ r.size) {body length : Nat}
    (hlength : 8 ≤ length) (sink : SampleBuffer) (stats : DrainStats) :
    r.consumeSample body length sink stats =
      let chain := r.wordsAt (body + 8) (r.chainLength body length)
      let sample := RawSample.ofFrames (addressesOf chain)
      .ok ((sink.push sample).2,
        stats.offered (markersWithin maxStackDepth chain) sample (sink.push sample).1) := by
  rw [consumeSample_eq hsize hlength]
  generalize r.wordsAt (body + 8) (r.chainLength body length) = chain
  -- the statistics depend on what became of the sample, and not on which sample it is
  dsimp only
  generalize hpush : sink.push (RawSample.ofFrames (addressesOf chain)) = pushed
  obtain ⟨outcome, sink'⟩ := pushed
  cases outcome with
  | stored =>
    simp only [DrainStats.offered, RawSample.isTruncated_ofFrames, decide_eq_true_iff]
    split <;> rfl
  | dropped => rfl
  | empty => rfl

/-- **Sample records of any body** in a ring of eight bytes or more. A body of fewer than eight
bytes counts as an empty stack, and nothing is stored. Of a longer one, the first word clamped to
the number of whole words that follow says how many of these are the call chain, and the buffer is
offered what the chain decodes to. Whatever reader stands in for the ring, it is only asked for
words inside the body. -/
theorem consumeSample_decodes (r : Ring) (hsize : 8 ≤ r.size) (body length : Nat)
    (sink : SampleBuffer) (stats : DrainStats) :
    (length < 8 →
      r.consumeSample body length sink stats =
        .ok (sink, { stats with emptyStacks := stats.emptyStacks + 1 })) ∧
    (8 ≤ length →
      ∃ count following, Record.wordsOf (r.window body length) = count :: following ∧
        following.length = (length - 8) / 8 ∧
        ∃ sample markers,
          DecodesTo (following.take (min count.toNat following.length)) sample markers ∧
          r.consumeSample body length sink stats =
            .ok ((sink.push sample).2, stats.offered markers sample (sink.push sample).1)) ∧
    ∀ read : Nat → Checked UInt64,
      (∀ position, body ≤ position → position + 8 ≤ body + length →
        read position = r.readWord position) →
      consumeSampleWith read body length sink stats = r.consumeSample body length sink stats := by
  refine ⟨fun hshort => ?_, fun hlong => ?_, fun read hread => ?_⟩
  · rw [consumeSample, if_pos hshort]
  · -- the body is the count and the words behind it
    have hwords : length / 8 = (length - 8) / 8 + 1 := by omega
    refine ⟨r.wordAt body, r.wordsAt (body + 8) ((length - 8) / 8), ?_, length_wordsAt .., ?_⟩
    · rw [wordsOf_window, hwords, wordsAt_succ]
    · rw [length_wordsAt, take_wordsAt, Nat.min_assoc, Nat.min_self]
      exact ⟨_, _, decodesTo_ofFrames _, consumeSample_eq_offered hsize hlong sink stats⟩
  · rw [consumeSampleWith_congr sink stats hread, consumeSampleWith_readWord]

/-- Sixteen bytes in which an address and a marker take turns. -/
private def alternatingBytes : Array UInt8 :=
  #[1, 0, 0, 0, 0, 0, 0, 0, 255, 255, 255, 255, 255, 255, 255, 255]

/-- The reader of a ring that refuses every word that does not lie in a body. -/
private def readerWithin (r : Ring) (body length position : Nat) : Checked UInt64 :=
  if body ≤ position ∧ position + 8 ≤ body + length then r.readWord position
  else .error .outOfBounds

/-- A body that begins at a marker states the largest count of all. Its 131 words are 66 addresses
and 65 markers, of which the last one stands behind the 65th address and is not counted. -/
theorem consumeSample_decodes_cut :
    ∃ r, ofData alternatingBytes 0 0 = .ok r ∧ 8 ≤ r.size ∧
      r.consumeSample 8 7 (.withCapacity 1) {} =
        .ok (.withCapacity 1, { emptyStacks := 1 }) ∧
      ∃ sample, sample.frames = List.replicate 64 1 ∧ sample.isTruncated = true ∧
        r.consumeSample 8 1059 (.withCapacity 1) {} =
          .ok (((SampleBuffer.withCapacity 1).push sample).2,
            { samples := 1, truncated := 1, markersSkipped := 64 }) ∧
        consumeSampleWith (r.readerWithin 8 1059) 8 1059 (.withCapacity 1) {} =
          r.consumeSample 8 1059 (.withCapacity 1) {} := by
  let r : Ring := ⟨alternatingBytes, 0, 0, by decide⟩
  have hring : ofData alternatingBytes 0 0 = .ok r := rfl
  have hsize : 8 ≤ r.size := by decide
  obtain ⟨hshort, -, -⟩ := consumeSample_decodes r hsize 8 7 (.withCapacity 1) {}
  obtain ⟨-, hlong, hreads⟩ := consumeSample_decodes r hsize 8 1059 (.withCapacity 1) {}
  obtain ⟨count, following, hwords, -, sample, markers, hdecoded, hresult⟩ := hlong (by decide)
  have hbody : Record.wordsOf (r.window 8 1059) =
      0xffffffffffffffff :: ((List.replicate 65 [1, 0xffffffffffffffff]).flatten ++ [1]) := by
    rw [wordsOf_window]
    decide +kernel
  obtain ⟨rfl, rfl⟩ := List.cons.inj (hbody.symm.trans hwords)
  have hframes : sample.frames = List.replicate 64 1 := by
    rw [hdecoded.sample_eq]
    decide +kernel
  have htruncated : sample.isTruncated = true := by
    rw [hdecoded.isTruncated_iff]
    decide +kernel
  -- the 65th address stands behind 64 addresses and as many markers
  have hmarkers : markers = 64 :=
    (hdecoded.markers_of_cut (List.replicate 64 [1, 0xffffffffffffffff]).flatten 1
      [0xffffffffffffffff, 1] (by decide +kernel) (by decide) (by decide +kernel)).trans
      (by decide +kernel)
  have hstored : ((SampleBuffer.withCapacity 1).push sample).1 = .stored := by
    rw [SampleBuffer.push_of_room (by rw [hframes]; rfl) (by decide)]
  rw [hmarkers, hstored, DrainStats.offered, htruncated] at hresult
  exact ⟨r, hring, hsize, hshort (by decide), sample, hframes, htruncated, hresult,
    hreads _ fun _ hstart hend => if_pos ⟨hstart, hend⟩⟩

end Ring

end StackProfiler
