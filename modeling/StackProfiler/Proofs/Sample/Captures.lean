import StackProfiler.Sample.Buffer

/-!
# Buffers that captures have filled

The contents of a buffer after any sequence of calls that offer samples to it. It holds as many
samples as it has slots in use (`SampleBuffer.length_toList_captureAll`), however many of them were
dropped or had no frames.
-/

namespace StackProfiler

/-- A call that offers a sample to a buffer. -/
inductive CaptureCall where
  | push (sample : RawSample)
  /-- The sample is made only if there is room for one. -/
  | captureWith (sample : RawSample)

/-- The sample that a call offers. -/
def CaptureCall.sample : CaptureCall → RawSample
  | .push sample => sample
  | .captureWith sample => sample

namespace SampleBuffer

/-- Answers one call. -/
def capture (b : SampleBuffer) : CaptureCall → CaptureOutcome × SampleBuffer
  | .push sample => b.push sample
  | .captureWith sample => (b.captureWith fun _ => sample).2

/-- Answers several calls in order. -/
def captureAll (b : SampleBuffer) (calls : List CaptureCall) : SampleBuffer :=
  calls.foldl (fun b call => (b.capture call).2) b

theorem captureAll_append (b : SampleBuffer) (front back : List CaptureCall) :
    b.captureAll (front ++ back) = (b.captureAll front).captureAll back :=
  List.foldl_append

/-- What became of what several calls offered. -/
def outcomes (b : SampleBuffer) : List CaptureCall → List CaptureOutcome
  | [] => []
  | call :: calls => (b.capture call).1 :: (b.capture call).2.outcomes calls

/-- As many samples are stored as there are slots in use. -/
structure IsFilled (b : SampleBuffer) (capacity : Nat) : Prop where
  capacity_eq : b.capacity = capacity
  size_stored : b.stored.size = min b.next b.capacity

namespace IsFilled

variable {b : SampleBuffer} {capacity : Nat}

theorem push (h : b.IsFilled capacity) (s : RawSample) : (b.push s).2.IsFilled capacity := by
  unfold SampleBuffer.push
  have hsize := h.size_stored
  by_cases hempty : s.frames.isEmpty = true
  · rw [if_pos hempty]
    exact h
  · rw [if_neg hempty]
    by_cases hroom : b.next < b.capacity
    · simp only [if_pos hroom]
      refine ⟨h.capacity_eq, ?_⟩
      simp only [Array.size_push, hsize]
      omega
    · simp only [if_neg hroom]
      refine ⟨h.capacity_eq, ?_⟩
      simp only [drop, hsize]
      omega

theorem captureWith (h : b.IsFilled capacity) (sample : Unit → RawSample) :
    (b.captureWith sample).2.2.IsFilled capacity := by
  unfold SampleBuffer.captureWith
  split
  · exact ⟨h.capacity_eq, h.size_stored⟩
  · exact h.push (sample ())

theorem capture (h : b.IsFilled capacity) (call : CaptureCall) :
    (b.capture call).2.IsFilled capacity := by
  cases call with
  | push sample => exact h.push sample
  | captureWith sample => exact h.captureWith fun _ => sample

theorem captureAll (h : b.IsFilled capacity) (calls : List CaptureCall) :
    (b.captureAll calls).IsFilled capacity := by
  induction calls generalizing b with
  | nil => exact h
  | cons call calls ih => exact ih (h.capture call)

end IsFilled

theorem isFilled_captureAll (capacity : Nat) (calls : List CaptureCall) :
    ((withCapacity capacity).captureAll calls).IsFilled capacity := by
  have hempty : (withCapacity capacity).IsFilled capacity :=
    ⟨rfl, (Nat.zero_min capacity).symm⟩
  exact hempty.captureAll calls

/-- **The size of a buffer** is the number of samples in it. -/
theorem length_toList_captureAll (capacity : Nat) (calls : List CaptureCall) :
    ((withCapacity capacity).captureAll calls).toList.length =
      ((withCapacity capacity).captureAll calls).size :=
  (isFilled_captureAll capacity calls).size_stored

theorem size_captureAll_le (capacity : Nat) (calls : List CaptureCall) :
    ((withCapacity capacity).captureAll calls).size ≤ capacity := by
  have hcapacity := (isFilled_captureAll capacity calls).capacity_eq
  unfold size
  omega

end SampleBuffer

end StackProfiler
