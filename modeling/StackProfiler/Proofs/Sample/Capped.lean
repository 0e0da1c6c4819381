import Mathlib.Data.List.Basic
import StackProfiler.Sample.Buffer

/-!
# Samples and the buffers that hold them

A sample made of a stack has the first `maxStackDepth` frames of it and is marked exactly if there
were more. Offering a sample to a buffer with room stores it behind the others
(`SampleBuffer.push_of_room`), unless the sample has no frames. A buffer that nothing was dropped
from is determined by its capacity and the samples in it (`SampleBuffer.holding`).
-/

namespace StackProfiler

namespace RawSample

/-! ## Section 1: Samples of stacks -/

/-- The slots depend on as many frames as there are slots. -/
theorem slotsOf_take (frames : List UInt64) :
    slotsOf (frames.take maxStackDepth).toArray = slotsOf frames.toArray := by
  apply Vector.ext
  intro i hi
  simp [slotsOf]

/-- **The frames of a stack's sample** are its first ones, up to the depth limit. -/
@[simp]
theorem frames_ofFrames (frames : List UInt64) :
    (ofFrames frames).frames = frames.take maxStackDepth := by
  have hdepth : (ofFrames frames).depth.toNat = min frames.length maxStackDepth := by
    simp only [ofFrames, UInt32.toNat_ofNat']
    apply Nat.mod_eq_of_lt
    simp only [maxStackDepth]
    omega
  rw [RawSample.frames, hdepth]
  apply List.ext_getElem
  · have hslots : (ofFrames frames).slots.toList.length = maxStackDepth := Vector.length_toList
    simp only [List.length_take, hslots]
    omega
  · intro i hi hi'
    have hlt : i < frames.length := by
      rw [List.length_take] at hi'
      omega
    simp [ofFrames, slotsOf, hlt]

@[simp]
theorem isTruncated_ofFrames (frames : List UInt64) :
    (ofFrames frames).isTruncated = decide (maxStackDepth < frames.length) := by
  by_cases h : maxStackDepth < frames.length <;> simp [ofFrames, isTruncated, h]

theorem isEmpty_frames_ofFrames (frames : List UInt64) :
    (ofFrames frames).frames.isEmpty = frames.isEmpty := by
  cases frames <;> simp [maxStackDepth]

end RawSample

namespace SampleBuffer

/-! ## Section 2: Buffers in any state -/

/-- Number of samples that can still be stored. -/
def room (b : SampleBuffer) : Nat :=
  b.capacity - b.next

/-- The buffer with further samples behind those in it. -/
def storing (b : SampleBuffer) (samples : List RawSample) : SampleBuffer :=
  { b with
    next := b.next + samples.length
    truncated := b.truncated + samples.countP (·.isTruncated)
    stored := b.stored ++ samples.toArray }

@[simp]
theorem storing_nil (b : SampleBuffer) : b.storing [] = b := by
  simp [storing]

theorem storing_append (b : SampleBuffer) (front back : List RawSample) :
    b.storing (front ++ back) = (b.storing front).storing back := by
  simp [storing, Nat.add_assoc]

@[simp]
theorem room_storing (b : SampleBuffer) (samples : List RawSample) :
    (b.storing samples).room = b.room - samples.length :=
  (Nat.sub_sub ..).symm

theorem isFull_iff (b : SampleBuffer) : b.isFull = true ↔ b.room = 0 := by
  rw [isFull, decide_eq_true_iff, room, Nat.sub_eq_zero_iff_le]

/-- A sample without frames is not stored. -/
theorem push_of_isEmpty (b : SampleBuffer) {s : RawSample} (h : s.frames.isEmpty = true) :
    b.push s = (.empty, b) := by
  rw [push, if_pos h]

/-- A sample with frames is stored as long as there is room, whatever has been lost before. -/
theorem push_of_room {b : SampleBuffer} {s : RawSample} (hframes : s.frames.isEmpty = false)
    (hroom : b.room ≠ 0) : b.push s = (.stored, b.storing [s]) := by
  have hnext : b.next < b.capacity := by
    unfold room at hroom
    omega
  rw [push, hframes, if_neg Bool.false_ne_true]
  simp only [if_pos hnext]
  cases htrunc : s.isTruncated <;> simp [storing, htrunc]

/-- A sample with frames takes a number even if there is no room for it. -/
theorem push_of_full {b : SampleBuffer} {s : RawSample} (hframes : s.frames.isEmpty = false)
    (hroom : b.room = 0) : b.push s = (.dropped, { b with next := b.next + 1 }.drop) := by
  have hnext : ¬b.next < b.capacity := by
    unfold room at hroom
    omega
  rw [push, hframes, if_neg Bool.false_ne_true]
  simp only [if_neg hnext]

/-! ## Section 3: Buffers without losses -/

/-- The buffer of a capacity that holds the given samples and has lost none. -/
def holding (capacity : Nat) (samples : List RawSample) : SampleBuffer where
  capacity
  next := samples.length
  truncated := samples.countP (·.isTruncated)
  stored := samples.toArray

theorem holding_nil (capacity : Nat) : holding capacity [] = withCapacity capacity := rfl

@[simp]
theorem toList_holding (capacity : Nat) (samples : List RawSample) :
    (holding capacity samples).toList = samples := rfl

@[simp]
theorem isFull_holding (capacity : Nat) (samples : List RawSample) :
    (holding capacity samples).isFull = decide (capacity ≤ samples.length) := rfl

@[simp]
theorem room_holding (capacity : Nat) (samples : List RawSample) :
    (holding capacity samples).room = capacity - samples.length := rfl

/-- Storing further samples is holding them as well. -/
theorem storing_holding (capacity : Nat) (samples further : List RawSample) :
    (holding capacity samples).storing further = holding capacity (samples ++ further) := by
  simp [storing, holding]

end SampleBuffer

end StackProfiler
