import StackProfiler.Proofs.Sample.Capped
import StackProfiler.Proofs.Sample.Captures
import StackProfiler.Word

/-!
# A sample buffer is a capped list

Slot numbers are handed out beyond the capacity, but only to some of the samples that find the
buffer full, so the number of the next slot says little by itself. What callers see of a buffer is
a list that takes samples as long as it is not full (`CappedList`): every call has the same outcome
on both (`SampleBuffer.Refines.capture`), and so have the calls of a whole run
(`SampleBuffer.Refines.captureAll`). The main statement, `SampleBuffer.captureAll_capped`, says what
follows for the contents and the counters of a buffer.
-/

namespace StackProfiler

/-! ## Section 1: Capped lists -/

/-- A list of samples that is never longer than its capacity. -/
structure CappedList where
  capacity : Nat
  samples : List RawSample
  length_le : samples.length ≤ capacity

namespace CappedList

def empty (capacity : Nat) : CappedList :=
  ⟨capacity, [], Nat.zero_le capacity⟩

def isFull (l : CappedList) : Bool :=
  l.samples.length == l.capacity

/-- What becomes of what a call offers. A sample without frames is seen to be empty before it is
seen that there is no room for it, unless it is not even made. -/
def outcome (l : CappedList) : CaptureCall → CaptureOutcome
  | .push sample =>
    if sample.frames.isEmpty then .empty else if l.isFull then .dropped else .stored
  | .captureWith sample =>
    if l.isFull then .dropped else if sample.frames.isEmpty then .empty else .stored

theorem outcome_of_isFull {l : CappedList} (h : l.isFull = true) (call : CaptureCall) :
    l.outcome call ≠ .stored := by
  cases call with
  | push sample => cases hempty : sample.frames.isEmpty <;> simp [outcome, h, hempty]
  | captureWith sample => simp [outcome, h]

theorem outcome_of_not_isFull {l : CappedList} (h : l.isFull = false) (call : CaptureCall) :
    l.outcome call = if call.sample.frames.isEmpty then .empty else .stored := by
  cases call <;> simp [outcome, h, CaptureCall.sample]

theorem length_lt_of_not_isFull {l : CappedList} (h : l.isFull = false) :
    l.samples.length < l.capacity :=
  Nat.lt_of_le_of_ne l.length_le (by simpa [isFull] using h)

/-- The list after a call: it has one sample more if the sample was stored. -/
def capture (l : CappedList) (call : CaptureCall) : CappedList :=
  if h : l.outcome call = .stored then
    { l with
      samples := l.samples ++ [call.sample]
      length_le := by
        have hroom : l.isFull = false := by
          cases hfull : l.isFull with
          | false => rfl
          | true => exact absurd h (outcome_of_isFull hfull call)
        rw [List.length_append, List.length_singleton]
        exact length_lt_of_not_isFull hroom }
  else l

def captureAll (l : CappedList) (calls : List CaptureCall) : CappedList :=
  calls.foldl capture l

def outcomes (l : CappedList) : List CaptureCall → List CaptureOutcome
  | [] => []
  | call :: calls => l.outcome call :: (l.capture call).outcomes calls

variable {l : CappedList}

theorem capture_of_not_stored {call : CaptureCall} (h : l.outcome call ≠ .stored) :
    l.capture call = l :=
  dif_neg h

theorem samples_capture_of_stored {call : CaptureCall} (h : l.outcome call = .stored) :
    (l.capture call).samples = l.samples ++ [call.sample] := by
  rw [capture, dif_pos h]

theorem capacity_capture (l : CappedList) (call : CaptureCall) :
    (l.capture call).capacity = l.capacity := by
  unfold capture
  split <;> rfl

/-- A list that is full stays as it is. -/
theorem captureAll_of_isFull (h : l.isFull = true) (calls : List CaptureCall) :
    l.captureAll calls = l := by
  induction calls with
  | nil => rfl
  | cons call calls ih =>
    rw [captureAll, List.foldl_cons, capture_of_not_stored (outcome_of_isFull h call)]
    exact ih

/-- **What the list holds** are the first samples with frames, as many as there is room for. -/
theorem samples_captureAll (l : CappedList) (calls : List CaptureCall) :
    (l.captureAll calls).samples =
      (l.samples ++ (calls.map (·.sample)).filter (!·.frames.isEmpty)).take l.capacity := by
  induction calls generalizing l with
  | nil =>
    rw [List.map_nil, List.filter_nil, List.append_nil, List.take_of_length_le l.length_le]
    rfl
  | cons call calls ih =>
    cases hfull : l.isFull with
    | true =>
      have hlength : l.samples.length = l.capacity := by simpa [isFull] using hfull
      rw [captureAll_of_isFull hfull, ← hlength, List.take_left]
    | false =>
      have hoff := outcome_of_not_isFull hfull call
      rw [captureAll, List.foldl_cons, ← captureAll, ih, capacity_capture, List.map_cons]
      cases hempty : call.sample.frames.isEmpty with
      | true =>
        rw [hempty, if_pos rfl] at hoff
        rw [capture_of_not_stored (by simp [hoff]), List.filter_cons_of_neg (by simp [hempty])]
      | false =>
        rw [hempty, if_neg Bool.false_ne_true] at hoff
        rw [samples_capture_of_stored hoff, List.filter_cons_of_pos (by simp [hempty]),
          List.append_assoc, List.singleton_append]

/-- No sample in the list is ever changed or removed. -/
theorem samples_prefix_captureAll (l : CappedList) (calls : List CaptureCall) :
    l.samples <+: (l.captureAll calls).samples := by
  rw [samples_captureAll, List.prefix_take_iff]
  exact ⟨List.prefix_append _ _, l.length_le⟩

theorem length_outcomes (l : CappedList) (calls : List CaptureCall) :
    (l.outcomes calls).length = calls.length := by
  induction calls generalizing l with
  | nil => rfl
  | cons call calls ih => rw [outcomes, List.length_cons, List.length_cons, ih]

end CappedList

namespace SampleBuffer

/-! ## Section 2: A buffer seen as a capped list -/

/-- What callers see of the buffer is the list. -/
structure Refines (b : SampleBuffer) (l : CappedList) : Prop where
  capacity_eq : b.capacity = l.capacity
  toList_eq : b.toList = l.samples
  size_eq : b.size = l.samples.length
  truncated_eq : b.truncated = l.samples.countP (·.isTruncated)

namespace Refines

variable {b : SampleBuffer} {l : CappedList}

theorem empty (capacity : Nat) : (withCapacity capacity).Refines (.empty capacity) :=
  ⟨rfl, rfl, Nat.zero_min capacity, rfl⟩

/-- However far the slot numbers have gone beyond the capacity, both are full together. -/
theorem isFull_eq (h : b.Refines l) : b.isFull = l.isFull := by
  have hsize := h.size_eq
  rw [size, h.capacity_eq] at hsize
  rw [isFull, CappedList.isFull, h.capacity_eq, Bool.eq_iff_iff, decide_eq_true_iff, beq_iff_eq]
  omega

theorem room_eq_zero_iff (h : b.Refines l) : b.room = 0 ↔ l.isFull = true := by
  rw [← isFull_iff, h.isFull_eq]

/-- A sample with frames is stored behind the others if there is room. -/
theorem storing (h : b.Refines l) (hroom : l.isFull = false) {call : CaptureCall}
    (hstored : l.outcome call = .stored) :
    (b.storing [call.sample]).Refines (l.capture call) := by
  have hlt := CappedList.length_lt_of_not_isFull hroom
  have hsize := h.size_eq
  rw [size, h.capacity_eq] at hsize
  refine ⟨?_, ?_, ?_, ?_⟩
  · rw [CappedList.capacity_capture]
    exact h.capacity_eq
  · rw [CappedList.samples_capture_of_stored hstored, ← h.toList_eq]
    simp [toList, SampleBuffer.storing]
  · rw [CappedList.samples_capture_of_stored hstored, List.length_append, List.length_singleton]
    simp only [size, SampleBuffer.storing, List.length_singleton, h.capacity_eq]
    omega
  · rw [CappedList.samples_capture_of_stored hstored, List.countP_append, ← h.truncated_eq]
    rfl

/-- Counters that callers do not see as samples may go up. -/
theorem of_full (h : b.Refines l) (hfull : l.isFull = true) (next dropped : Nat)
    (hnext : b.next ≤ next) : { b with next, dropped }.Refines l := by
  have hlength : l.samples.length = l.capacity := by simpa [CappedList.isFull] using hfull
  have hsize := h.size_eq
  rw [size, h.capacity_eq] at hsize
  refine ⟨h.capacity_eq, h.toList_eq, ?_, h.truncated_eq⟩
  simp only [size, h.capacity_eq]
  omega

/-- **Offering a sample** comes to the same, even if it takes a number beyond the capacity. -/
theorem push (h : b.Refines l) (s : RawSample) :
    (b.push s).1 = l.outcome (.push s) ∧ (b.push s).2.Refines (l.capture (.push s)) ∧
      (b.push s).2.dropped = b.dropped + [l.outcome (.push s)].count .dropped ∧
      (b.push s).2.next ≤ b.next + 1 := by
  cases hframes : s.frames.isEmpty with
  | true =>
    have hoff : l.outcome (.push s) = .empty := by simp [CappedList.outcome, hframes]
    rw [push_of_isEmpty b hframes, CappedList.capture_of_not_stored (by simp [hoff]), hoff]
    exact ⟨rfl, h, rfl, Nat.le_succ _⟩
  | false =>
    cases hfull : l.isFull with
    | true =>
      have hoff : l.outcome (.push s) = .dropped := by simp [CappedList.outcome, hframes, hfull]
      rw [push_of_full hframes (h.room_eq_zero_iff.mpr hfull),
        CappedList.capture_of_not_stored (by simp [hoff]), hoff]
      exact ⟨rfl, h.of_full hfull _ _ (Nat.le_succ _), rfl, Nat.le_refl _⟩
    | false =>
      have hoff : l.outcome (.push s) = .stored := by simp [CappedList.outcome, hframes, hfull]
      have hroom : b.room ≠ 0 := by
        rw [ne_eq, h.room_eq_zero_iff, hfull]
        exact Bool.false_ne_true
      rw [push_of_room hframes hroom]
      exact ⟨hoff.symm, h.storing hfull hoff, by rw [hoff]; rfl, Nat.le_refl _⟩

/-- **One call** has the same outcome on both, and a loss is counted. -/
theorem capture (h : b.Refines l) (call : CaptureCall) :
    (b.capture call).1 = l.outcome call ∧ (b.capture call).2.Refines (l.capture call) ∧
      (b.capture call).2.dropped = b.dropped + [l.outcome call].count .dropped ∧
      (b.capture call).2.next ≤ b.next + 1 := by
  cases call with
  | push s => exact h.push s
  | captureWith s =>
    rw [SampleBuffer.capture, captureWith, h.isFull_eq]
    cases hfull : l.isFull with
    | true =>
      -- the sample is not made, and no number is taken
      have hoff : l.outcome (.captureWith s) = .dropped := by simp [CappedList.outcome, hfull]
      rw [if_pos rfl, CappedList.capture_of_not_stored (by simp [hoff]), hoff]
      exact ⟨rfl, h.of_full hfull _ _ (Nat.le_refl _), rfl, Nat.le_succ _⟩
    | false =>
      have hsame : l.outcome (.captureWith s) = l.outcome (.push s) := by
        rw [CappedList.outcome_of_not_isFull hfull, CappedList.outcome_of_not_isFull hfull]
        rfl
      have hcapture : l.capture (.captureWith s) = l.capture (.push s) := by
        simp only [CappedList.capture, hsame, CaptureCall.sample]
      rw [if_neg Bool.false_ne_true, hsame, hcapture]
      exact h.push s

/-- **A run of calls** has the same outcomes on both, and all losses are counted. -/
theorem captureAll (h : b.Refines l) (calls : List CaptureCall) :
    b.outcomes calls = l.outcomes calls ∧ (b.captureAll calls).Refines (l.captureAll calls) ∧
      (b.captureAll calls).dropped = b.dropped + (l.outcomes calls).count .dropped ∧
      (b.captureAll calls).next ≤ b.next + calls.length := by
  induction calls generalizing b l with
  | nil => exact ⟨rfl, h, rfl, Nat.le_refl _⟩
  | cons call calls ih =>
    obtain ⟨houtcome, hcall, hdropped, hnext⟩ := h.capture call
    obtain ⟨houtcomes, hrest, hdroppedRest, hnextRest⟩ := ih hcall
    refine ⟨?_, hrest, ?_, ?_⟩
    · rw [outcomes, CappedList.outcomes, houtcome, houtcomes]
    · have hcount : ((l.outcomes (call :: calls)).count .dropped : Nat) =
          [l.outcome call].count .dropped + ((l.capture call).outcomes calls).count .dropped := by
        rw [CappedList.outcomes, ← List.singleton_append, List.count_append]
      rw [hcount, ← Nat.add_assoc, ← hdropped]
      exact hdroppedRest
    · rw [List.length_cons]
      have hlast : (b.captureAll (call :: calls)).next ≤
          (b.capture call).2.next + calls.length := hnextRest
      omega

end Refines

/-! ## Section 3: Runs of calls -/

/--
**A sample buffer is a capped list.** Whatever calls offer samples of whatever contents to a new
buffer, each has the outcome that it has on a list of that capacity: a sample without frames is
`empty` if it is pushed, even into a full buffer, and no sample is even made for a buffer that is
full. The buffer holds the first samples with frames, as many as it has room for, and none of them
is ever changed or removed; its size is their number. The counters are those of the losses and of
the marked samples. A buffer is full if it holds as many samples as its capacity, and then stays
full. None of the counters leaves the range of a word as long as the number of calls does not.
-/
theorem captureAll_capped (capacity : Nat) (calls : List CaptureCall) :
    let b := (withCapacity capacity).captureAll calls
    let l := (CappedList.empty capacity).captureAll calls
    let outcomes := (withCapacity capacity).outcomes calls
    outcomes = (CappedList.empty capacity).outcomes calls ∧
      b.toList = l.samples ∧
      l.samples = ((calls.map (·.sample)).filter (!·.frames.isEmpty)).take capacity ∧
      (∀ further, b.toList <+: (b.captureAll further).toList) ∧
      b.size = b.toList.length ∧
      (∀ sample, (b.captureWith sample).1 = !b.isFull) ∧
      (∀ sample, b.isFull = true → (b.captureWith sample).2.1 = .dropped) ∧
      (∀ sample, sample.frames.isEmpty = true → b.push sample = (.empty, b)) ∧
      b.dropped = outcomes.count .dropped ∧
      b.truncated = b.toList.countP (·.truncated != 0) ∧
      b.capacity = capacity ∧
      (b.isFull = true ↔ b.size = b.capacity) ∧
      (∀ further, b.isFull = true → (b.captureAll further).isFull = true) ∧
      (calls.length < wordLimit 64 →
        b.next < wordLimit 64 ∧ b.dropped < wordLimit 64 ∧ b.truncated < wordLimit 64) := by
  intro b l outcomes
  obtain ⟨houtcomes, href, hdropped, hnext⟩ := (Refines.empty capacity).captureAll calls
  have hall : b.Refines l := href
  have hlater : ∀ further, (b.captureAll further).Refines (l.captureAll further) :=
    fun further => (hall.captureAll further).2.1
  have hcount : b.dropped = outcomes.count .dropped := by
    rw [show outcomes = (CappedList.empty capacity).outcomes calls from houtcomes]
    exact hdropped.trans (Nat.zero_add _)
  have hlength : b.size = b.toList.length := by rw [hall.size_eq, hall.toList_eq]
  have htruncated : b.truncated = b.toList.countP (·.isTruncated) := by
    rw [hall.truncated_eq, hall.toList_eq]
  refine ⟨houtcomes, hall.toList_eq, ?_, fun further => ?_, hlength, fun sample => ?_,
    fun sample hfull => ?_, fun sample h => push_of_isEmpty b h, hcount, htruncated,
    (isFilled_captureAll capacity calls).capacity_eq, ?_, fun further hfull => ?_, fun hfew => ?_⟩
  · exact CappedList.samples_captureAll (.empty capacity) calls
  · rw [hall.toList_eq, (hlater further).toList_eq]
    exact CappedList.samples_prefix_captureAll l further
  · unfold captureWith
    cases b.isFull <;> rfl
  · rw [captureWith, if_pos hfull]
  · rw [isFull, decide_eq_true_iff, size]
    omega
  · rw [(hlater further).isFull_eq]
    rw [hall.isFull_eq] at hfull
    rw [CappedList.captureAll_of_isFull hfull, hfull]
  · -- each counter is at most the number of calls
    have hnext' : b.next ≤ calls.length := Nat.le_trans hnext (Nat.le_of_eq (Nat.zero_add _))
    have hsize : b.size ≤ b.next := Nat.min_le_left _ _
    have hdropped' : b.dropped ≤ calls.length := by
      rw [hcount, ← CappedList.length_outcomes (.empty capacity) calls, ← houtcomes]
      exact List.count_le_length
    have htruncated' : b.truncated ≤ b.size := by
      rw [htruncated, hlength]
      exact List.countP_le_length
    omega

/-- A sample that claims more frames than there are slots, and a mark that is neither 0 nor 1. -/
def forgedSample : RawSample :=
  { RawSample.ofFrames [7, 8] with depth := 1000, truncated := 9 }

/-- Every kind of call on a buffer with room for one sample. -/
def forgedCalls : List CaptureCall :=
  [.captureWith .empty, .captureWith forgedSample, .push .empty, .captureWith .empty,
    .push forgedSample, .captureWith (.ofFrames [5])]

/-- A forged sample is stored, and counts as marked; the others are lost on the full buffer. -/
theorem captureAll_capped_forged :
    let b := (withCapacity 1).captureAll forgedCalls
    (withCapacity 1).outcomes forgedCalls =
        [.empty, .stored, .empty, .dropped, .dropped, .dropped] ∧
      b.size = 1 ∧ b.toList.map (·.frames.length) = [maxStackDepth] ∧ b.dropped = 3 ∧
      b.truncated = 1 ∧ b.isFull = true ∧ b.next = 2 ∧ forgedCalls.length < wordLimit 64 ∧
      (b.captureWith fun _ => forgedSample).2.1 = .dropped ∧ b.dropped < wordLimit 64 := by
  intro b
  obtain ⟨-, -, -, -, -, -, hdropped, -, -, -, -, -, -, hwords⟩ :=
    captureAll_capped 1 forgedCalls
  have hfull : b.isFull = true := by rfl
  have hfew : forgedCalls.length < wordLimit 64 := by decide
  exact ⟨by rfl, by rfl, by rfl, by rfl, by rfl, hfull, by rfl, hfew, hdropped _ hfull,
    (hwords hfew).2.1⟩

end SampleBuffer

end StackProfiler
