import Mathlib.Data.List.Count
import Mathlib.Data.Option.Basic
import StackProfiler.Proofs.Sample.CappedList
import StackProfiler.Proofs.Sample.Completion

/-!
# Captures that interleave, put in order

However captures interleave, what becomes of each of them is decided in one step of its own: a
sample without frames is left out when it is looked at, and any other one is stored or dropped when
it takes its number. In the order of these steps the captures could as well have run one after the
other, each in one go: a `SampleBuffer` that the samples are pushed into in this order ends with the
same contents and the same counters as the slots that the captures share, and answers every push
with what became of the capture.

- **one step**: `Decided.step`, a step that decides nothing changes nothing, and one that decides is
  a push;
- **any schedule**: `Decided.run`, and `isFinished_run`, that no capture waits for another one;
- **main statements**: `run_linearized`, and `run_oneByOne` for captures that do not interleave.
-/

namespace StackProfiler

/-! ## Section 1: What is decided -/

namespace Capture

/-- What a capture will come to, once that is decided. -/
def verdict? (c : Capture) : Option CaptureOutcome :=
  match c.progress with
  | .begun => none
  | .checked => none
  | .holding _ => some .stored
  | .copied _ => some .stored
  | .published _ => some .stored
  | .overflowing => some .dropped
  | .finished outcome => some outcome

/-- Whether the next step of a capture decides what it will come to. -/
def decidesNext (c : Capture) : Bool :=
  match c.progress with
  | .begun => c.sample.frames.isEmpty
  | .checked => true
  | _ => false

theorem verdict?_of_decidesNext {c : Capture} (h : c.decidesNext = true) : c.verdict? = none := by
  obtain ⟨sample, progress⟩ := c
  cases progress <;> simp_all [decidesNext, verdict?]

/-- It is decided when a sample is seen to have no frames, and else when a number is taken. -/
theorem cases_of_decidesNext {c : Capture} (h : c.decidesNext = true) :
    c.progress = .begun ∧ c.sample.frames.isEmpty = true ∨ c.progress = .checked := by
  obtain ⟨sample, progress⟩ := c
  cases progress <;> simp_all [decidesNext]

/-- A step that decides nothing keeps what has been decided. -/
theorem verdict?_advance {c : Capture} (h : c.decidesNext = false) (b : SharedBuffer) :
    (c.advance b).1.verdict? = c.verdict? := by
  obtain ⟨sample, progress⟩ := c
  cases progress <;> simp_all [decidesNext, advance, verdict?]

/-- A capture that has finished has come to what was decided. -/
theorem verdict?_of_outcome? {c : Capture} (h : c.outcome?.isSome = true) :
    c.verdict? = c.outcome? := by
  obtain ⟨sample, progress⟩ := c
  cases progress <;> simp_all [outcome?, verdict?]

/-- The steps that a capture has still to make at most. -/
def remaining (c : Capture) : Nat :=
  match c.progress with
  | .begun => 5
  | .checked => 4
  | .holding _ => 3
  | .copied _ => 2
  | .published _ => 1
  | .overflowing => 1
  | .finished _ => 0

theorem remaining_advance (c : Capture) (b : SharedBuffer) :
    (c.advance b).1.remaining ≤ c.remaining - 1 := by
  obtain ⟨sample, progress⟩ := c
  cases progress with
  | begun => cases hframes : sample.frames.isEmpty <;> simp [advance, remaining, hframes]
  | checked => by_cases hroom : b.next < b.capacity <;> simp [advance, remaining, hroom]
  | _ => exact Nat.le_refl _

theorem isSome_outcome?_of_remaining {c : Capture} (h : c.remaining = 0) :
    c.outcome?.isSome = true := by
  obtain ⟨sample, progress⟩ := c
  cases progress <;> simp_all [remaining, outcome?]

end Capture

namespace CaptureGroup

/-- What a capture will come to, once that is decided. -/
def verdict? (g : CaptureGroup) (i : Nat) : Option CaptureOutcome :=
  (g.captures[i]?).bind (·.verdict?)

/-- The capture, if its next step decides what it will come to. -/
def decides? (g : CaptureGroup) (i : Nat) : Option Nat :=
  match g.captures[i]? with
  | some c => if c.decidesNext then some i else none
  | none => none

/-- The captures that are decided along a schedule, in this order. -/
def decisions (g : CaptureGroup) : List Nat → List Nat
  | [] => []
  | i :: schedule => (g.decides? i).toList ++ (g.step i).decisions schedule

/-- Every capture is decided in a step of its own. -/
theorem decisions_sublist (g : CaptureGroup) (schedule : List Nat) :
    (g.decisions schedule).Sublist schedule := by
  induction schedule generalizing g with
  | nil => exact List.Sublist.refl []
  | cons i schedule ih =>
    have hfirst : (g.decides? i).toList.Sublist [i] := by
      unfold decides?
      cases g.captures[i]? with
      | none => exact List.nil_sublist _
      | some c => cases c.decidesNext <;> simp
    exact hfirst.append (ih (g.step i))

theorem verdict?_step {g : CaptureGroup} {i : Nat} {c : Capture} (h : g.captures[i]? = some c)
    (j : Nat) :
    (g.step i).verdict? j = if i = j then (c.advance g.buffer).1.verdict? else g.verdict? j := by
  rw [verdict?, step_eq h, getElem?_set h]
  by_cases hij : i = j
  · rw [if_pos hij, if_pos hij]
    rfl
  · rw [if_neg hij, if_neg hij]
    rfl

end CaptureGroup

/-! ## Section 2: Pushes one after the other -/

namespace SampleBuffer

theorem outcomes_append (b : SampleBuffer) (front back : List CaptureCall) :
    b.outcomes (front ++ back) = b.outcomes front ++ (b.captureAll front).outcomes back := by
  induction front generalizing b with
  | nil => rfl
  | cons call front ih =>
    rw [List.cons_append, outcomes, outcomes, ih]
    rfl

/-- What becomes of a sample with frames depends on the number that it takes. -/
theorem fst_push_of_frames (b : SampleBuffer) {s : RawSample} (h : s.frames.isEmpty = false) :
    (b.push s).1 = if b.next < b.capacity then .stored else .dropped := by
  rw [push, h, if_neg Bool.false_ne_true]
  by_cases hroom : b.next < b.capacity <;> simp [hroom]

/-- A push takes a number exactly if the sample has frames. -/
theorem next_push (b : SampleBuffer) (s : RawSample) :
    (b.push s).2.next = b.next + [s].countP (!·.frames.isEmpty) := by
  unfold push
  cases hframes : s.frames.isEmpty with
  | true => simp [hframes]
  | false => by_cases hroom : b.next < b.capacity <;> simp [hframes, hroom, drop]

/-- Pushes take as many numbers as they have samples with frames. -/
theorem next_captureAll (b : SampleBuffer) (samples : List RawSample) :
    (b.captureAll (samples.map .push)).next = b.next + samples.countP (!·.frames.isEmpty) := by
  induction samples generalizing b with
  | nil => rfl
  | cons s samples ih =>
    have hrest := ih (b.push s).2
    rw [next_push, Nat.add_assoc, ← List.countP_append] at hrest
    exact hrest

end SampleBuffer

namespace CaptureGroup

/-- The samples of captures, in an order of these. -/
def inOrder (samples : List RawSample) (order : List Nat) : List RawSample :=
  order.filterMap (samples[·]?)

/-- The buffer that the samples of captures are pushed into, in an order of these. -/
def pushed (capacity : Nat) (samples : List RawSample) (order : List Nat) : SampleBuffer :=
  (SampleBuffer.withCapacity capacity).captureAll ((inOrder samples order).map .push)

/-- What becomes of the samples of captures that are pushed, in an order of these. -/
def pushOutcomes (capacity : Nat) (samples : List RawSample) (order : List Nat) :
    List CaptureOutcome :=
  (SampleBuffer.withCapacity capacity).outcomes ((inOrder samples order).map .push)

theorem capacity_pushed (capacity : Nat) (samples : List RawSample) (order : List Nat) :
    (pushed capacity samples order).capacity = capacity :=
  (SampleBuffer.isFilled_captureAll capacity _).capacity_eq

theorem next_pushed (capacity : Nat) (samples : List RawSample) (order : List Nat) :
    (pushed capacity samples order).next =
      ((inOrder samples order).filter (!·.frames.isEmpty)).length := by
  rw [pushed, SampleBuffer.next_captureAll, List.countP_eq_length_filter]
  exact Nat.zero_add _

theorem toList_pushed (capacity : Nat) (samples : List RawSample) (order : List Nat) :
    (pushed capacity samples order).toList =
      ((inOrder samples order).filter (!·.frames.isEmpty)).take capacity := by
  have hrefines := ((SampleBuffer.Refines.empty capacity).captureAll
    ((inOrder samples order).map .push)).2.1
  have hsample : CaptureCall.sample ∘ CaptureCall.push = id := rfl
  have hcontents := hrefines.toList_eq
  rw [CappedList.samples_captureAll, List.map_map, hsample, List.map_id] at hcontents
  exact hcontents

theorem dropped_pushed (capacity : Nat) (samples : List RawSample) (order : List Nat) :
    (pushed capacity samples order).dropped =
      (pushOutcomes capacity samples order).count .dropped := by
  obtain ⟨houtcomes, -, hdropped, -⟩ := (SampleBuffer.Refines.empty capacity).captureAll
    ((inOrder samples order).map .push)
  rw [pushOutcomes, houtcomes]
  exact hdropped.trans (Nat.zero_add _)

theorem truncated_pushed (capacity : Nat) (samples : List RawSample) (order : List Nat) :
    (pushed capacity samples order).truncated =
      (pushed capacity samples order).toList.countP (·.isTruncated) := by
  have hrefines := ((SampleBuffer.Refines.empty capacity).captureAll
    ((inOrder samples order).map .push)).2.1
  exact hrefines.truncated_eq.trans (by rw [← hrefines.toList_eq]; rfl)

/-! ## Section 3: The invariant -/

theorem Owned.getElem?_samples {capacity i : Nat} {samples : List RawSample}
    {taken : List (Nat × Nat)} {g : CaptureGroup} {c : Capture} (h : Owned capacity samples taken g)
    (hi : g.captures[i]? = some c) : samples[i]? = some c.sample := by
  rw [← h.samples_eq, List.getElem?_map, Array.getElem?_toList, hi]
  rfl

/--
The invariant of captures of which some have been decided, in the given order: as many of them have
taken numbers as have samples with frames, in the same order, and what was decided is what becomes
of the samples if they are pushed.
-/
structure Decided (capacity : Nat) (samples : List RawSample) (taken : List (Nat × Nat))
    (order : List Nat) (g : CaptureGroup) : Prop where
  nodup : order.Nodup
  mem_iff : ∀ i, i ∈ order ↔ (g.verdict? i).isSome = true
  taken_eq : taken.map (fun claim => samples[claim.1]?) =
    ((inOrder samples order).filter (!·.frames.isEmpty)).map some
  verdicts_eq : order.map g.verdict? = (pushOutcomes capacity samples order).map some

namespace Decided

variable {capacity i : Nat} {samples : List RawSample} {taken : List (Nat × Nat)}
variable {order : List Nat} {g : CaptureGroup} {c : Capture}

theorem init (capacity : Nat) (samples : List RawSample) :
    Decided capacity samples [] [] (ofSamples capacity samples) := by
  refine ⟨List.nodup_nil, fun i => ?_, rfl, rfl⟩
  rw [verdict?]
  cases hi : (ofSamples capacity samples).captures[i]? with
  | none => simp
  | some c =>
    simp only [ofSamples, List.getElem?_toArray, List.getElem?_map, Option.map_eq_some_iff] at hi
    obtain ⟨sample, -, rfl⟩ := hi
    simp [Capture.verdict?]

/-- The pushes have taken as many numbers as the captures. -/
theorem next_eq (h : Decided capacity samples taken order g) :
    (pushed capacity samples order).next = taken.length := by
  have hlength := congrArg List.length h.taken_eq
  rw [List.length_map, List.length_map] at hlength
  rw [next_pushed, hlength]

/-- A step that decides nothing takes no number and changes nothing that was decided. -/
theorem silent (h : Decided capacity samples taken order g) (hi : g.captures[i]? = some c)
    (hsilent : c.decidesNext = false) : Decided capacity samples taken order (g.step i) := by
  have hverdict : (g.step i).verdict? = g.verdict? := by
    funext j
    rw [verdict?_step hi]
    by_cases hij : i = j
    · subst hij
      rw [if_pos rfl, Capture.verdict?_advance hsilent, verdict?, hi]
      rfl
    · exact if_neg hij
  exact ⟨h.nodup, fun j => by rw [hverdict]; exact h.mem_iff j, h.taken_eq,
    by rw [hverdict]; exact h.verdicts_eq⟩

/-- A step that decides is the push of the sample. -/
theorem push (h : Decided capacity samples taken order g) (hi : g.captures[i]? = some c)
    (hdecides : c.decidesNext = true) (hsample : samples[i]? = some c.sample)
    {claims : List (Nat × Nat)}
    (hclaims : claims.map (fun claim => samples[claim.1]?) =
      ([c.sample].filter (!·.frames.isEmpty)).map some)
    (hpush : (c.advance g.buffer).1.verdict? =
      some ((pushed capacity samples order).push c.sample).1) :
    Decided capacity samples (taken ++ claims) (order ++ [i]) (g.step i) := by
  have hopen : g.verdict? i = none := by
    rw [verdict?, hi]
    exact Capture.verdict?_of_decidesNext hdecides
  have hnew : i ∉ order := by
    rw [h.mem_iff, hopen]
    exact Bool.false_ne_true
  have hverdict : ∀ j, (g.step i).verdict? j =
      if i = j then some ((pushed capacity samples order).push c.sample).1
        else g.verdict? j := by
    intro j
    rw [verdict?_step hi, hpush]
  have hinOrder : inOrder samples (order ++ [i]) = inOrder samples order ++ [c.sample] := by
    rw [inOrder, List.filterMap_append, List.filterMap_cons, hsample]
    rfl
  refine ⟨?_, fun j => ?_, ?_, ?_⟩
  · exact List.Nodup.append h.nodup (List.nodup_singleton i) (by simpa using hnew)
  · rw [hverdict, List.mem_append, List.mem_singleton, h.mem_iff]
    by_cases hij : i = j
    · simp [hij]
    · simp [hij, Ne.symm hij]
  · rw [List.map_append, hinOrder, List.filter_append, List.map_append, h.taken_eq, hclaims]
  · have hkept : order.map (g.step i).verdict? = order.map g.verdict? := by
      apply List.map_congr_left
      intro j hj
      rw [hverdict, if_neg (ne_of_mem_of_not_mem hj hnew).symm]
    rw [List.map_append, hkept, h.verdicts_eq, pushOutcomes, pushOutcomes, hinOrder,
      List.map_append, SampleBuffer.outcomes_append, List.map_append, List.map_singleton,
      hverdict, if_pos rfl]
    rfl

/-- **One step** of any capture keeps the invariant. -/
theorem step (h : Decided capacity samples taken order g) (howned : Owned capacity samples taken g)
    (i : Nat) :
    Decided capacity samples (taken ++ (g.claim? i).toList) (order ++ (g.decides? i).toList)
      (g.step i) := by
  cases hi : g.captures[i]? with
  | none =>
    have hclaim : g.claim? i = none := by rw [claim?, hi]
    have hdecides : g.decides? i = none := by rw [decides?, hi]
    have hstep : g.step i = g := by rw [CaptureGroup.step, hi]
    simpa [hclaim, hdecides, hstep] using h
  | some c =>
    have hsample := howned.getElem?_samples hi
    cases hdecides : c.decidesNext with
    | false =>
      have hchecked : c.progress ≠ .checked := by
        intro hchecked
        rw [Capture.decidesNext, hchecked] at hdecides
        cases hdecides
      have hnone : g.decides? i = none := by simp [decides?, hi, hdecides]
      simpa [claim?_eq_none hi hchecked, hnone] using h.silent hi hdecides
    | true =>
      have hsome : g.decides? i = some i := by simp [decides?, hi, hdecides]
      rw [hsome]
      rcases Capture.cases_of_decidesNext hdecides with ⟨hbegun, hframes⟩ | hchecked
      · -- the sample has no frames: no number is taken, and a push leaves it out as well
        have hclaim : g.claim? i = none := claim?_eq_none hi (by rw [hbegun]; decide)
        refine h.push hi hdecides hsample ?_ ?_
        · simp [hclaim, hframes]
        · rw [SampleBuffer.push_of_isEmpty _ hframes]
          simp [Capture.advance, hbegun, hframes, Capture.verdict?]
      · -- the capture takes the number that the push takes
        have hclaim : g.claim? i = some (i, g.buffer.next) := claim?_eq_some hi hchecked
        obtain ⟨number, hfits, -⟩ := howned.fits i c hi
        rw [hchecked] at hfits
        cases hfits with
        | checked hframes =>
          refine h.push hi hdecides hsample ?_ ?_
          · simp [hclaim, hframes, hsample]
          · rw [SampleBuffer.fst_push_of_frames _ hframes, h.next_eq, ← howned.next_eq,
              capacity_pushed, ← howned.size_eq, ← SharedBuffer.capacity]
            by_cases hroom : g.buffer.next < g.buffer.capacity <;>
              simp [Capture.advance, hchecked, hroom, Capture.verdict?]

/-- **Any schedule** keeps the invariant. -/
theorem run (h : Decided capacity samples taken order g) (howned : Owned capacity samples taken g)
    (hfew : samples.length < wordLimit 64) (schedule : List Nat) :
    Decided capacity samples (taken ++ g.claims schedule) (order ++ g.decisions schedule)
      (g.run schedule) := by
  induction schedule generalizing taken order g with
  | nil => simpa [claims, decisions, CaptureGroup.run] using h
  | cons i schedule ih =>
    have hrest := ih (h.step howned i) (howned.step hfew i)
    rwa [List.append_assoc, List.append_assoc] at hrest

/-! ## Section 4: When all captures have finished -/

theorem outcome?_eq (hfinished : g.isFinished = true) :
    g.verdict? = fun i => (g.captures[i]?).bind (·.outcome?) := by
  funext i
  rw [verdict?]
  cases hi : g.captures[i]? with
  | none => rfl
  | some c => exact Capture.verdict?_of_outcome? (isSome_outcome? hfinished hi)

/-- In the end all captures are decided. -/
theorem order_perm (h : Decided capacity samples taken order g) (hfinished : g.isFinished = true)
    (hsize : g.captures.size = samples.length) : order.Perm (List.range samples.length) := by
  refine (List.perm_ext_iff_of_nodup h.nodup List.nodup_range).mpr fun i => ?_
  rw [h.mem_iff, outcome?_eq hfinished, List.mem_range, ← hsize]
  by_cases hi : i < g.captures.size
  · have hget : g.captures[i]? = some g.captures[i] := Array.getElem?_eq_getElem hi
    simpa [hget, hi] using isSome_outcome? hfinished hget
  · have hget : g.captures[i]? = none := Array.getElem?_eq_none (Nat.le_of_not_lt hi)
    simp [hi]

/-- What becomes of the captures and of the pushes. -/
theorem outcomes_eq (h : Decided capacity samples taken order g) (hfinished : g.isFinished = true) :
    order.map (fun i => (g.captures[i]?).bind (·.outcome?)) =
      (pushOutcomes capacity samples order).map some := by
  rw [← outcome?_eq hfinished]
  exact h.verdicts_eq

end Decided

/-- The slots hold the samples of the captures in the order of their numbers. -/
theorem Owned.map_some_toList {capacity : Nat} {samples : List RawSample}
    {taken : List (Nat × Nat)} {g : CaptureGroup} (h : Owned capacity samples taken g)
    (hfinished : g.isFinished = true) :
    g.buffer.toList.map some = (taken.take capacity).map fun claim => samples[claim.1]? := by
  have hslots := congrArg (List.map (Option.map Slot.sample)) h.slots_eq
  rw [List.map_map, List.map_map] at hslots
  rw [SharedBuffer.toList, List.filter_eq_self.mpr (h.ready_of_isFinished hfinished), List.map_map]
  refine hslots.symm.trans (List.map_congr_left fun claim hclaim => ?_)
  obtain ⟨c, hc, hstored⟩ := (h.mem_take_iff hfinished).mp (List.mem_map_of_mem hclaim)
  rw [Array.getElem?_toList] at hc
  rw [Function.comp_apply, hc, h.getElem?_samples hc, Option.map_some, Option.map_some,
    Capture.slot_of_hasEnded hstored]

theorem map_outcome?_range (g : CaptureGroup) :
    ((List.range g.captures.size).map fun i => (g.captures[i]?).bind (·.outcome?)) =
      g.captures.toList.map (·.outcome?) := by
  apply List.ext_getElem
  · simp
  · intro i hi _
    have hlt : i < g.captures.size := by simpa using hi
    simp [hlt]

/-- How many captures have come to an end, counted along the captures. -/
theorem count_outcomes (g : CaptureGroup) (outcome : CaptureOutcome) :
    ((List.range g.captures.size).map fun i => (g.captures[i]?).bind (·.outcome?)).count
        (some outcome) = g.captures.toList.countP (·.hasEnded outcome) := by
  rw [map_outcome?_range, List.count, List.countP_map]
  rfl

/--
**Captures that interleave could as well have run one after the other.** However the steps of fewer
than `2 ^ 64` captures interleave, every capture is decided in a step of its own. The samples may be
pushed into a buffer in this order: as many numbers are taken, and when all captures have finished,
each of them has come to what becomes of its push, the contents are the same in the same order, and
so are both counters.
-/
theorem run_linearized (capacity : Nat) (samples : List RawSample)
    (hfew : samples.length < wordLimit 64) (schedule : List Nat) :
    let start := ofSamples capacity samples
    let g := start.run schedule
    let order := start.decisions schedule
    let b := pushed capacity samples order
    order.Sublist schedule ∧ g.buffer.next = b.next ∧
      (g.isFinished = true →
        order.Perm (List.range samples.length) ∧
          order.map (fun i => (g.captures[i]?).bind (·.outcome?)) =
            (pushOutcomes capacity samples order).map some ∧
          g.buffer.toList = b.toList ∧ g.buffer.dropped = b.dropped ∧
          g.buffer.truncated = b.truncated) := by
  intro start g order b
  have hstart := Owned.init capacity samples
  have howned : Owned capacity samples (start.claims schedule) g := hstart.run hfew schedule
  have htallied : Tallied g :=
    (Tallied.init capacity samples).run (by rwa [hstart.length_captures]) schedule
  have hdecided : Decided capacity samples (start.claims schedule) order g :=
    (Decided.init capacity samples).run hstart hfew schedule
  refine ⟨decisions_sublist start schedule, howned.next_eq.trans hdecided.next_eq.symm,
    fun hfinished => ?_⟩
  have hperm := hdecided.order_perm hfinished howned.length_captures
  have hends := hdecided.outcomes_eq hfinished
  have hcontents : g.buffer.toList = b.toList := by
    have hmap := howned.map_some_toList hfinished
    rw [List.map_take, hdecided.taken_eq, ← List.map_take, ← toList_pushed] at hmap
    exact List.map_injective_iff.mpr (Option.some_injective _) hmap
  refine ⟨hperm, hends, hcontents, ?_, ?_⟩
  · -- the losses of the captures, counted in the order of the pushes
    have hcount := (hperm.map fun i => (g.captures[i]?).bind (·.outcome?)).count_eq
      (some CaptureOutcome.dropped)
    rw [← howned.length_captures, count_outcomes, ← htallied.dropped_eq, hends,
      List.count_map_of_injective _ _ (Option.some_injective _), ← dropped_pushed] at hcount
    exact hcount.symm
  · rw [howned.truncated_eq htallied hfinished, hcontents, truncated_pushed]

/-! ## Section 5: Captures that do not interleave -/

/-- **No capture waits for another one**: with every step of its own it has one less to make. -/
theorem exists_remaining_le {g : CaptureGroup} {i : Nat} {c : Capture}
    (hi : g.captures[i]? = some c) (schedule : List Nat) :
    ∃ c', (g.run schedule).captures[i]? = some c' ∧
      c'.remaining ≤ c.remaining - schedule.count i := by
  induction schedule generalizing g c with
  | nil => exact ⟨c, hi, Nat.le_refl _⟩
  | cons j schedule ih =>
    cases hj : g.captures[j]? with
    | none =>
      have hstep : g.step j = g := by rw [CaptureGroup.step, hj]
      have hne : j ≠ i := by
        rintro rfl
        rw [hi] at hj
        cases hj
      obtain ⟨c', hc', hle⟩ := ih (g := g) hi
      rw [List.count_cons_of_ne hne]
      exact ⟨c', by rw [run, List.foldl_cons, hstep]; exact hc', hle⟩
    | some d =>
      have hget := getElem?_set hj (d.advance g.buffer).1 i
      by_cases hji : j = i
      · subst hji
        cases hi.symm.trans hj
        rw [if_pos rfl] at hget
        obtain ⟨c', hc', hle⟩ := ih (g := g.step j) (by rw [step_eq hj]; exact hget)
        have hone := c.remaining_advance g.buffer
        rw [List.count_cons_self]
        exact ⟨c', hc', by omega⟩
      · rw [if_neg hji, hi] at hget
        obtain ⟨c', hc', hle⟩ := ih (g := g.step j) (by rw [step_eq hj]; exact hget)
        rw [List.count_cons_of_ne hji]
        exact ⟨c', hc', hle⟩

theorem size_captures_run (g : CaptureGroup) (schedule : List Nat) :
    (g.run schedule).captures.size = g.captures.size := by
  induction schedule generalizing g with
  | nil => rfl
  | cons i schedule ih => exact (ih (g.step i)).trans (size_captures_step g i)

/-- All captures have finished when each of them has made five steps, whatever the others do. -/
theorem isFinished_run (capacity : Nat) (samples : List RawSample) {schedule : List Nat}
    (h : ∀ i < samples.length, 5 ≤ schedule.count i) :
    ((ofSamples capacity samples).run schedule).isFinished = true := by
  refine Array.all_eq_true'.mpr fun c' hmem => ?_
  obtain ⟨i, hi⟩ := Array.mem_iff_getElem?.mp hmem
  obtain ⟨hlt, -⟩ := Array.getElem?_eq_some_iff.mp hi
  have hsize : i < samples.length := by simpa [size_captures_run, ofSamples] using hlt
  have hfirst : (ofSamples capacity samples).captures[i]? = some { sample := samples[i] } := by
    simp [ofSamples, hsize]
  obtain ⟨c, hc, hle⟩ := exists_remaining_le hfirst schedule
  cases hi.symm.trans hc
  have hfive : ({ sample := samples[i] } : Capture).remaining ≤ schedule.count i := h i hsize
  exact Capture.isSome_outcome?_of_remaining (by omega)

/-- Every capture makes its five steps before the next one begins. -/
def oneByOne (count : Nat) : List Nat :=
  (List.range count).flatMap (List.replicate 5)

theorem pairwise_oneByOne (count : Nat) : (oneByOne count).Pairwise (· ≤ ·) := by
  rw [oneByOne, List.pairwise_flatMap]
  refine ⟨fun i _ => List.pairwise_replicate.mpr (.inr (Nat.le_refl i)), ?_⟩
  refine List.pairwise_le_range.imp fun {i j} hle x hx y hy => ?_
  rw [List.eq_of_mem_replicate hx, List.eq_of_mem_replicate hy]
  exact hle

theorem five_le_count_oneByOne {count i : Nat} (h : i < count) : 5 ≤ (oneByOne count).count i := by
  rw [← List.replicate_sublist_iff, oneByOne, List.flatMap]
  exact List.sublist_flatten_of_mem (List.mem_map_of_mem (List.mem_range.mpr h))

/--
**A sample buffer is what captures that do not interleave share**: when each of fewer than `2 ^ 64`
captures makes its steps before the next one begins, all of them finish, each with what becomes of
its sample if the samples are pushed into a buffer, with the same contents and the same counters.
-/
theorem run_oneByOne (capacity : Nat) (samples : List RawSample)
    (hfew : samples.length < wordLimit 64) :
    let g := (ofSamples capacity samples).run (oneByOne samples.length)
    let calls := samples.map CaptureCall.push
    let b := (SampleBuffer.withCapacity capacity).captureAll calls
    g.isFinished = true ∧
      g.captures.toList.map (·.outcome?) =
        ((SampleBuffer.withCapacity capacity).outcomes calls).map some ∧
      g.buffer.toList = b.toList ∧ g.buffer.next = b.next ∧ g.buffer.dropped = b.dropped ∧
      g.buffer.truncated = b.truncated := by
  intro g calls b
  have hfinished : g.isFinished = true :=
    isFinished_run capacity samples fun i hi => five_le_count_oneByOne hi
  obtain ⟨hsublist, hnext, hend⟩ := run_linearized capacity samples hfew (oneByOne samples.length)
  obtain ⟨hperm, houtcomes, hcontents, hdropped, htruncated⟩ := hend hfinished
  -- the captures are decided in the order in which they run
  have horder := List.Perm.eq_of_pairwise (fun i j _ _ => Nat.le_antisymm)
    ((pairwise_oneByOne samples.length).sublist hsublist) List.pairwise_le_range hperm
  have hsize : g.captures.size = samples.length := by
    simp only [g, size_captures_run]
    simp [ofSamples]
  have hall := map_outcome?_range g
  rw [hsize] at hall
  simp only [horder, pushOutcomes, pushed, inOrder, filterMap_getElem?_range]
    at houtcomes hnext hcontents hdropped htruncated
  exact ⟨hfinished, hall.symm.trans houtcomes, hcontents, hnext, hdropped, htruncated⟩

end CaptureGroup

end StackProfiler
