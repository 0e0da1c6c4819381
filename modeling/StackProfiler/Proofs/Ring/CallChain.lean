import StackProfiler.Proofs.Ring.Window
import StackProfiler.Proofs.Sample.Capped

/-!
# Call chains in a ring

The reader takes a call chain out of a ring word by word. Here that loop is separated into the
words at a run of positions (`Ring.wordsAt`) and what becomes of a list of words
(`Chain.extend`), and the latter is given in closed form: the markers are left out, the first
`maxStackDepth` addresses are kept, and reading ends at the first address past them.

The main statement is `Ring.consumeSample_eq`: for a body of any content, the sample that is
offered to the buffer is the sample of the addresses among the words of the chain.
-/

namespace StackProfiler

/-- The addresses of a call chain, without the markers. -/
def addressesOf (words : List UInt64) : List UInt64 :=
  words.filter (!isContextMarker ·)

theorem addressesOf_cons_of_marker {word : UInt64} (words : List UInt64)
    (h : isContextMarker word = true) : addressesOf (word :: words) = addressesOf words := by
  simp [addressesOf, h]

theorem addressesOf_cons_of_address {word : UInt64} (words : List UInt64)
    (h : ¬isContextMarker word = true) :
    addressesOf (word :: words) = word :: addressesOf words := by
  simp [addressesOf, h]

/-- The markers in a call chain up to the first address that no longer fits. -/
def markersWithin : (room : Nat) → List UInt64 → Nat
  | _, [] => 0
  | room, word :: words =>
    if isContextMarker word then markersWithin room words + 1
    else if room = 0 then 0
    else markersWithin (room - 1) words

theorem markersWithin_le_length (room : Nat) (words : List UInt64) :
    markersWithin room words ≤ words.length := by
  induction words generalizing room with
  | nil => simp [markersWithin]
  | cons word words ih =>
    rw [markersWithin, List.length_cons]
    split
    · exact Nat.succ_le_succ (ih room)
    · split
      · exact Nat.zero_le _
      · exact Nat.le_succ_of_le (ih (room - 1))

/-! ## Section 1: Words -/

namespace Record

@[simp]
theorem length_wordBytes (w : UInt64) : (wordBytes w).length = 8 := by
  simp [wordBytes]

/-- Reading back the bytes of a word gives the word. -/
theorem ofLittleEndian_wordBytes (w : UInt64) :
    UInt64.ofNat (Bytes.ofLittleEndian (wordBytes w)) = w := by
  have hlt : w.toNat < Nat.pow 256 8 := w.toNat_lt
  rw [wordBytes, Bytes.ofLittleEndian_littleEndian, Nat.mod_eq_of_lt hlt, UInt64.ofNat_toNat]

theorem length_flatMap_wordBytes (words : List UInt64) :
    (words.flatMap wordBytes).length = 8 * words.length := by
  induction words with
  | nil => rfl
  | cons word words ih =>
    rw [List.flatMap_cons, List.length_append, length_wordBytes, ih, List.length_cons]
    omega

end Record

namespace Ring

/-- The word at a cursor position. -/
def wordAt (r : Ring) (position : Nat) : UInt64 :=
  UInt64.ofNat (Bytes.ofLittleEndian (r.window position 8))

/-- The words at a run of cursor positions. -/
def wordsAt (r : Ring) (position count : Nat) : List UInt64 :=
  (List.range count).map fun i => r.wordAt (position + 8 * i)

@[simp]
theorem length_wordsAt (r : Ring) (position count : Nat) :
    (r.wordsAt position count).length = count := by
  simp [wordsAt]

theorem take_wordsAt (r : Ring) (position count taken : Nat) :
    (r.wordsAt position count).take taken = r.wordsAt position (min taken count) := by
  rw [wordsAt, ← List.map_take, List.take_range, wordsAt]

theorem wordsAt_succ (r : Ring) (position count : Nat) :
    r.wordsAt position (count + 1) = r.wordAt position :: r.wordsAt (position + 8) count := by
  simp only [wordsAt, List.range_succ_eq_map, List.map_cons, List.map_map, Nat.mul_zero,
    Nat.add_zero, List.cons.injEq, true_and]
  apply List.map_congr_left
  intro i _
  simp only [Function.comp_apply]
  congr 1
  omega

theorem readWord_eq_wordAt {r : Ring} (hsize : 8 ≤ r.size) (position : Nat) :
    r.readWord position = .ok (r.wordAt position) := by
  simp [readWord, readBytes_eq_window hsize, wordAt, bind, Except.bind, pure, Except.pure]

/-- A word that was written is the word at its position. -/
theorem wordAt_eq {r : Ring} {position : Nat} {w : UInt64}
    (h : r.window position 8 = Record.wordBytes w) : r.wordAt position = w := by
  rw [wordAt, h, Record.ofLittleEndian_wordBytes]

/-- Words that were written one behind the other are the words at their positions. -/
theorem wordsAt_eq {r : Ring} {position : Nat} {words : List UInt64}
    (h : r.window position (8 * words.length) = words.flatMap Record.wordBytes) :
    r.wordsAt position words.length = words := by
  induction words generalizing position with
  | nil => rfl
  | cons word words ih =>
    rw [List.length_cons, Nat.mul_succ, Nat.add_comm, List.flatMap_cons] at h
    obtain ⟨hword, hwords⟩ := window_of_append (n := 8 * words.length)
      (by rw [Record.length_wordBytes]; exact h)
    rw [Record.length_wordBytes] at hword hwords
    rw [List.length_cons, wordsAt_succ, wordAt_eq hword, ih hwords]

/-! ## Section 2: Chains -/

/-- A chain with further words, up to the first address that no longer fits. -/
def Chain.extend (chain : Chain) : List UInt64 → Chain
  | [] => chain
  | word :: words =>
    if isContextMarker word then
      Chain.extend { chain with markers := chain.markers + 1 } words
    else if chain.frames.size = maxStackDepth then { chain with truncated := true }
    else Chain.extend { chain with frames := chain.frames.push word } words

/-- Reading a chain out of a ring extends it by the words at its positions. -/
theorem readChain_eq_extend {r : Ring} (hsize : 8 ≤ r.size) (count position : Nat)
    (chain : Chain) :
    r.readChain count position chain = .ok (chain.extend (r.wordsAt position count)) := by
  induction count generalizing position chain with
  | zero => rfl
  | succ count ih =>
    rw [readChain, readWord_eq_wordAt hsize, wordsAt_succ, Chain.extend]
    simp only [bind, Except.bind]
    split
    · exact ih _ _
    · split
      · rfl
      · exact ih _ _

/-- What a chain becomes: it takes over addresses until it is full, counts the markers in front of
the first address that no longer fits, and notes whether there is one. -/
theorem Chain.extend_spec (chain : Chain) (words : List UInt64)
    (hfull : chain.frames.size ≤ maxStackDepth) (htrunc : chain.truncated = false) :
    (chain.extend words).frames.toList =
        chain.frames.toList ++ (addressesOf words).take (maxStackDepth - chain.frames.size) ∧
      (chain.extend words).markers =
        chain.markers + markersWithin (maxStackDepth - chain.frames.size) words ∧
      ((chain.extend words).truncated = true ↔
        maxStackDepth < chain.frames.size + (addressesOf words).length) := by
  induction words generalizing chain with
  | nil =>
    simpa [Chain.extend, addressesOf, markersWithin, htrunc] using hfull
  | cons word words ih =>
    rw [Chain.extend]
    by_cases hmarker : isContextMarker word = true
    · -- a marker is counted and leaves no trace among the frames
      rw [if_pos hmarker, addressesOf_cons_of_marker words hmarker, markersWithin, if_pos hmarker,
        ← Nat.add_assoc, Nat.add_right_comm]
      exact ih { chain with markers := chain.markers + 1 } hfull htrunc
    · rw [if_neg hmarker, addressesOf_cons_of_address words hmarker, markersWithin, if_neg hmarker]
      by_cases hsize : chain.frames.size = maxStackDepth
      · -- the chain is full: this address ends it
        simp [hsize]
      · -- room: the address is taken over, and there is one place less for the rest
        have hfull' : (chain.frames.push word).size ≤ maxStackDepth := by
          rw [Array.size_push]
          omega
        obtain ⟨hframes, hmarkers, hcut⟩ :=
          ih { chain with frames := chain.frames.push word } hfull' htrunc
        obtain ⟨room, hroom⟩ : ∃ room, maxStackDepth - chain.frames.size = room + 1 :=
          ⟨maxStackDepth - chain.frames.size - 1, by omega⟩
        have hroom' : maxStackDepth - (chain.frames.size + 1) = room := by omega
        rw [Array.size_push, hroom'] at hframes hmarkers
        rw [Array.size_push] at hcut
        rw [if_neg hsize, hroom, if_neg (Nat.succ_ne_zero room), hframes, hmarkers, hcut]
        simp [Nat.add_assoc, Nat.add_comm 1]

/-- The sample of a chain that was read from the start is the sample of its addresses. -/
theorem Chain.sample_extend (words : List UInt64) :
    (({} : Chain).extend words).sample = RawSample.ofFrames (addressesOf words) := by
  obtain ⟨hframes, -, hcut⟩ := Chain.extend_spec {} words (Nat.zero_le _) rfl
  have hframes' : (({} : Chain).extend words).frames =
      ((addressesOf words).take maxStackDepth).toArray := by
    rw [← Array.toList_inj]
    simpa using hframes
  simp only [Chain.sample, RawSample.ofFrames, RawSample.mk.injEq, hframes', hcut]
  refine ⟨RawSample.slotsOf_take _, ?_, ?_⟩
  · simp [Nat.min_comm]
  · simp

/-! ## Section 3: The body of a sample record -/

/-- The number of words of the call chain in a sample's body: what the body says, as far as there
is room for them in it. -/
def chainLength (r : Ring) (body length : Nat) : Nat :=
  min (r.wordAt body).toNat ((length - 8) / 8)

/-- **Sample records of any content**: a body with room for a count offers the buffer the sample
of the addresses in its call chain. -/
theorem consumeSample_eq {r : Ring} (hsize : 8 ≤ r.size) {body length : Nat} (hlen : 8 ≤ length)
    (sink : SampleBuffer) (stats : DrainStats) :
    r.consumeSample body length sink stats =
      let words := r.wordsAt (body + 8) (r.chainLength body length)
      let stats :=
        { stats with markersSkipped := stats.markersSkipped + markersWithin maxStackDepth words }
      match sink.push (RawSample.ofFrames (addressesOf words)) with
      | (.stored, sink) =>
        .ok (sink,
          { stats with
            samples := stats.samples + 1
            truncated :=
              if maxStackDepth < (addressesOf words).length then stats.truncated + 1
              else stats.truncated })
      | (.empty, sink) => .ok (sink, { stats with emptyStacks := stats.emptyStacks + 1 })
      | (.dropped, sink) => .ok (sink, stats) := by
  rw [consumeSample, if_neg (by omega)]
  simp only [readWord_eq_wordAt hsize, readChain_eq_extend hsize, bind, Except.bind,
    Chain.sample_extend]
  rw [← chainLength]
  -- only the words matter from here on, not where they stand
  generalize r.wordsAt (body + 8) (r.chainLength body length) = words
  obtain ⟨-, hmarkers, hcut⟩ := Chain.extend_spec {} words (Nat.zero_le _) rfl
  simp only [Array.size_empty, Nat.zero_add, Nat.sub_zero] at hmarkers hcut
  simp only [hmarkers, hcut]
  rfl

end Ring

end StackProfiler
