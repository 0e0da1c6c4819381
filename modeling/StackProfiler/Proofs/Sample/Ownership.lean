import Mathlib.Data.List.Nodup
import Mathlib.Data.List.Perm.Subperm
import StackProfiler.Sample.Interleaving

/-!
# Slots and the captures that own them

Captures that interleave never share a slot. A slot belongs to the capture that has taken its
number, nobody else writes to it, and once it is ready it stays as it is; so a reader finds whole
samples only, whenever it looks.

- **one step**: `Owned.step`, what a step of one capture preserves for all of them;
- **any schedule**: `Owned.run`, the invariant after a run, and `Owned.ready_run`, that a slot which
  is ready stays as it is.
-/

namespace StackProfiler

/-! ## Section 1: Numbers and slots -/

/--
How far a capture can be that has taken the given slot number, or none: a number below the capacity
leads to a slot, any other one to a loss.
-/
inductive Fits (capacity : Nat) (sample : RawSample) : CaptureProgress → Option Nat → Prop where
  | begun : Fits capacity sample .begun none
  | checked (hframes : sample.frames.isEmpty = false) : Fits capacity sample .checked none
  | holding {k : Nat} (hframes : sample.frames.isEmpty = false) (hk : k < capacity) :
      Fits capacity sample (.holding k) (some k)
  | copied {k : Nat} (hframes : sample.frames.isEmpty = false) (hk : k < capacity) :
      Fits capacity sample (.copied k) (some k)
  | published {k : Nat} (hframes : sample.frames.isEmpty = false) (hk : k < capacity) :
      Fits capacity sample (.published k) (some k)
  | overflowing {k : Nat} (hframes : sample.frames.isEmpty = false) (hk : capacity ≤ k) :
      Fits capacity sample .overflowing (some k)
  | stored {k : Nat} (hframes : sample.frames.isEmpty = false) (hk : k < capacity) :
      Fits capacity sample (.finished .stored) (some k)
  | dropped {k : Nat} (hframes : sample.frames.isEmpty = false) (hk : capacity ≤ k) :
      Fits capacity sample (.finished .dropped) (some k)
  | empty (hframes : sample.frames.isEmpty = true) : Fits capacity sample (.finished .empty) none

namespace Capture

/-- What a capture has made of the slot whose number it has taken. -/
def slot (c : Capture) : Slot :=
  match c.progress with
  | .copied _ => { sample := c.sample }
  | .published _ => { sample := c.sample, ready := true }
  | .finished .stored => { sample := c.sample, ready := true }
  | _ => {}

/-- Whether a capture has come to the given end. -/
def hasEnded (outcome : CaptureOutcome) (c : Capture) : Bool :=
  c.outcome? == some outcome

theorem sample_advance (c : Capture) (b : SharedBuffer) : (c.advance b).1.sample = c.sample := by
  unfold advance
  split <;> rfl

/-- A capture leaves its slot as it is once that is ready. -/
theorem slot_advance {c : Capture} (b : SharedBuffer) (h : c.slot.ready = true) :
    (c.advance b).1.slot = c.slot := by
  obtain ⟨sample, progress⟩ := c
  cases progress <;> simp_all [slot, advance]

theorem sample_slot {c : Capture} (h : c.slot.ready = true) : c.slot.sample = c.sample := by
  unfold slot at h ⊢
  split <;> simp_all

theorem hasEnded_iff {c : Capture} {outcome : CaptureOutcome} :
    c.hasEnded outcome = true ↔ c.progress = .finished outcome := by
  obtain ⟨sample, progress⟩ := c
  cases progress <;> simp [hasEnded, outcome?]

/-- A capture that is stored has left its sample in its slot. -/
theorem slot_of_hasEnded {c : Capture} (h : c.hasEnded .stored = true) :
    c.slot = { sample := c.sample, ready := true } := by
  rw [slot, hasEnded_iff.mp h]

end Capture

namespace CaptureGroup

/-- The slot number that the next step of a capture takes, with the capture. -/
def claim? (g : CaptureGroup) (i : Nat) : Option (Nat × Nat) :=
  match g.captures[i]? with
  | some { progress := .checked, .. } => some (i, g.buffer.next)
  | _ => none

/-- The slot numbers that are taken along a schedule, each with the capture that takes it. -/
def claims (g : CaptureGroup) : List Nat → List (Nat × Nat)
  | [] => []
  | i :: schedule => (g.claim? i).toList ++ (g.step i).claims schedule

theorem step_eq {g : CaptureGroup} {i : Nat} {c : Capture} (h : g.captures[i]? = some c) :
    g.step i =
      { buffer := (c.advance g.buffer).2
        captures := g.captures.setIfInBounds i (c.advance g.buffer).1 } := by
  rw [step, h]

/-- Only a capture that has looked at its sample takes a number. -/
theorem claim?_eq_none {g : CaptureGroup} {i : Nat} {c : Capture} (h : g.captures[i]? = some c)
    (hprogress : c.progress ≠ .checked) : g.claim? i = none := by
  unfold claim?
  rw [h]
  obtain ⟨sample, progress⟩ := c
  cases progress <;> simp_all

theorem claim?_eq_some {g : CaptureGroup} {i : Nat} {c : Capture} (h : g.captures[i]? = some c)
    (hprogress : c.progress = .checked) : g.claim? i = some (i, g.buffer.next) := by
  unfold claim?
  rw [h]
  obtain ⟨sample, progress⟩ := c
  cases hprogress
  rfl

/-- After a step of one capture, the others are as they were. -/
theorem getElem?_set {g : CaptureGroup} {i : Nat} {c : Capture} (h : g.captures[i]? = some c)
    (c' : Capture) (j : Nat) :
    (g.captures.setIfInBounds i c')[j]? = if i = j then some c' else g.captures[j]? := by
  obtain ⟨hlt, -⟩ := Array.getElem?_eq_some_iff.mp h
  rw [Array.getElem?_setIfInBounds]
  simp [hlt]

/-- Captures keep their samples. -/
theorem samples_set {g : CaptureGroup} {i : Nat} {c c' : Capture} (h : g.captures[i]? = some c)
    (hsample : c'.sample = c.sample) :
    (g.captures.setIfInBounds i c').toList.map (·.sample) = g.captures.toList.map (·.sample) := by
  apply List.ext_getElem?
  intro j
  have hj := congrArg (Option.map (·.sample)) (getElem?_set h c' j)
  rw [List.getElem?_map, List.getElem?_map, Array.getElem?_toList, Array.getElem?_toList, hj]
  by_cases hij : i = j
  · subst hij
    simp [h, hsample]
  · simp [hij]

/-! ## Section 2: The invariant -/

/--
The invariant of captures that have taken the given numbers: these were given out in order, one to
a capture at most, and every slot is what the capture with its number has made of it.
-/
structure Owned (capacity : Nat) (samples : List RawSample) (taken : List (Nat × Nat))
    (g : CaptureGroup) : Prop where
  samples_eq : g.captures.toList.map (·.sample) = samples
  size_eq : g.buffer.slots.size = capacity
  numbers_eq : taken.map Prod.snd = List.range taken.length
  next_eq : g.buffer.next = taken.length
  exists_capture : ∀ i k, (i, k) ∈ taken → ∃ c, g.captures[i]? = some c
  fits : ∀ i c, g.captures[i]? = some c →
    ∃ number, Fits capacity c.sample c.progress number ∧ ∀ k, (i, k) ∈ taken ↔ number = some k
  slot_eq : ∀ i k c, (i, k) ∈ taken → k < capacity → g.captures[i]? = some c →
    g.buffer.slots[k]? = some c.slot
  vacant : ∀ k, taken.length ≤ k → k < capacity → g.buffer.slots[k]? = some {}

namespace Owned

variable {capacity i k : Nat} {samples : List RawSample} {taken : List (Nat × Nat)}
variable {g : CaptureGroup} {c c' : Capture} {b' : SharedBuffer}

/-- The number that was taken at each place is the number of the place. -/
theorem snd_getElem (h : Owned capacity samples taken g) (hlt : k < taken.length) :
    taken[k].2 = k := by
  have hget : (taken.map Prod.snd)[k]? = some taken[k].2 := by simp [hlt]
  rw [h.numbers_eq, List.getElem?_range hlt] at hget
  exact (Option.some.inj hget).symm

theorem mem_taken_iff (h : Owned capacity samples taken g) :
    (i, k) ∈ taken ↔ ∃ hlt : k < taken.length, taken[k].1 = i := by
  rw [List.mem_iff_getElem]
  constructor
  · rintro ⟨j, hlt, heq⟩
    have hj := h.snd_getElem hlt
    rw [heq] at hj
    subst hj
    exact ⟨hlt, by rw [heq]⟩
  · rintro ⟨hlt, rfl⟩
    exact ⟨k, hlt, Prod.ext rfl (h.snd_getElem hlt)⟩

/-- **No slot number is taken twice.** -/
theorem nodup_numbers (h : Owned capacity samples taken g) : (taken.map Prod.snd).Nodup := by
  rw [h.numbers_eq]
  exact List.nodup_range

/-- No capture takes two numbers. -/
theorem nodup_captures (h : Owned capacity samples taken g) : (taken.map Prod.fst).Nodup := by
  refine List.Nodup.map_on ?_ (List.Nodup.of_map Prod.snd h.nodup_numbers)
  rintro ⟨i, k⟩ hk ⟨j, k'⟩ hk' heq
  cases heq
  obtain ⟨c, hc⟩ := h.exists_capture i k hk
  obtain ⟨number, -, hnumber⟩ := h.fits i c hc
  have hsome := (hnumber k).mp hk
  rw [(hnumber k').mp hk'] at hsome
  rw [Option.some.inj hsome]

theorem length_captures (h : Owned capacity samples taken g) :
    g.captures.size = samples.length := by
  rw [← h.samples_eq]
  simp

/-- There are more captures than numbers taken, as long as one of them has none. -/
theorem length_taken_lt (h : Owned capacity samples taken g) (hi : g.captures[i]? = some c)
    (hfree : ∀ k, (i, k) ∉ taken) : taken.length < samples.length := by
  obtain ⟨hlt, -⟩ := Array.getElem?_eq_some_iff.mp hi
  have hnodup : (i :: taken.map Prod.fst).Nodup := by
    refine List.nodup_cons.mpr ⟨?_, h.nodup_captures⟩
    rintro hmem
    obtain ⟨⟨j, k⟩, hk, rfl⟩ := List.mem_map.mp hmem
    exact hfree k hk
  have hsubset : i :: taken.map Prod.fst ⊆ List.range g.captures.size := by
    intro j hj
    rw [List.mem_range]
    rcases List.mem_cons.mp hj with rfl | hj
    · exact hlt
    · obtain ⟨⟨j, k⟩, hk, rfl⟩ := List.mem_map.mp hj
      obtain ⟨d, hd⟩ := h.exists_capture j k hk
      exact (Array.getElem?_eq_some_iff.mp hd).1
  have hle := (hnodup.subperm hsubset).length_le
  rw [List.length_cons, List.length_map, List.length_range, h.length_captures] at hle
  exact hle

theorem init (capacity : Nat) (samples : List RawSample) :
    Owned capacity samples [] (ofSamples capacity samples) := by
  refine ⟨?_, ?_, rfl, rfl, ?_, ?_, ?_, ?_⟩
  · simp [ofSamples, Function.comp_def]
  · simp [ofSamples, SharedBuffer.withCapacity]
  · intro i k hk
    exact absurd hk List.not_mem_nil
  · intro i c hc
    have hbegun : ∃ sample, c = { sample } := by
      simp only [ofSamples, List.getElem?_toArray, List.getElem?_map, Option.map_eq_some_iff] at hc
      obtain ⟨sample, -, rfl⟩ := hc
      exact ⟨sample, rfl⟩
    obtain ⟨sample, rfl⟩ := hbegun
    exact ⟨none, .begun, by simp⟩
  · intro i k c hk
    exact absurd hk List.not_mem_nil
  · intro k _ hk
    simp [ofSamples, SharedBuffer.withCapacity, hk]

/-! ## Section 3: One step -/

/-- A capture may go on without taking a number, if it keeps to its own slot. -/
theorem move (h : Owned capacity samples taken g) (hi : g.captures[i]? = some c)
    {number : Option Nat} (hnumber : ∀ k, (i, k) ∈ taken ↔ number = some k)
    (hsample : c'.sample = c.sample) (hfits : Fits capacity c.sample c'.progress number)
    (hnext : b'.next = g.buffer.next) (hsize : b'.slots.size = g.buffer.slots.size)
    (hown : ∀ k, number = some k → k < capacity → b'.slots[k]? = some c'.slot)
    (hothers : ∀ k, number ≠ some k → b'.slots[k]? = g.buffer.slots[k]?) :
    Owned capacity samples taken
      { buffer := b', captures := g.captures.setIfInBounds i c' } := by
  have hget := getElem?_set hi c'
  refine ⟨?_, hsize.trans h.size_eq, h.numbers_eq, hnext.trans h.next_eq, ?_, ?_, ?_, ?_⟩
  · exact (samples_set hi hsample).trans h.samples_eq
  · intro j k hk
    obtain ⟨d, hd⟩ := h.exists_capture j k hk
    by_cases hij : i = j
    · exact ⟨c', (hget j).trans (if_pos hij)⟩
    · exact ⟨d, (hget j).trans ((if_neg hij).trans hd)⟩
  · intro j d hd
    rw [hget] at hd
    by_cases hij : i = j
    · subst hij
      rw [if_pos rfl] at hd
      cases hd
      exact ⟨number, hsample ▸ hfits, hnumber⟩
    · rw [if_neg hij] at hd
      exact h.fits j d hd
  · intro j k d hk hlt hd
    rw [hget] at hd
    by_cases hij : i = j
    · subst hij
      rw [if_pos rfl] at hd
      cases hd
      exact hown k ((hnumber k).mp hk) hlt
    · -- a slot has one owner
      rw [if_neg hij] at hd
      rw [hothers k, h.slot_eq j k d hk hlt hd]
      intro hsome
      obtain ⟨_, hj⟩ := h.mem_taken_iff.mp hk
      obtain ⟨_, hi'⟩ := h.mem_taken_iff.mp ((hnumber k).mpr hsome)
      exact hij (hi'.symm.trans hj)
  · intro k hle hlt
    rw [hothers k, h.vacant k hle hlt]
    intro hsome
    obtain ⟨hk, -⟩ := h.mem_taken_iff.mp ((hnumber k).mpr hsome)
    omega

/-- A capture that has none may take the next number. -/
theorem take (h : Owned capacity samples taken g) (hi : g.captures[i]? = some c)
    (hfree : ∀ k, (i, k) ∉ taken) (hsample : c'.sample = c.sample) (hslot : c'.slot = {})
    (hfits : Fits capacity c.sample c'.progress (some taken.length))
    (hnext : b'.next = taken.length + 1) (hslots : b'.slots = g.buffer.slots) :
    Owned capacity samples (taken ++ [(i, taken.length)])
      { buffer := b', captures := g.captures.setIfInBounds i c' } := by
  have hget := getElem?_set hi c'
  have hmem : ∀ j k, (j, k) ∈ taken ++ [(i, taken.length)] ↔
      (j, k) ∈ taken ∨ j = i ∧ k = taken.length := by
    intro j k
    simp
  refine ⟨?_, ?_, ?_, ?_, ?_, ?_, ?_, ?_⟩
  · exact (samples_set hi hsample).trans h.samples_eq
  · exact (congrArg Array.size hslots).trans h.size_eq
  · rw [List.map_append, h.numbers_eq, List.length_append, List.length_singleton, List.range_succ]
    rfl
  · rw [List.length_append]
    exact hnext
  · intro j k hk
    by_cases hij : i = j
    · exact ⟨c', (hget j).trans (if_pos hij)⟩
    · have hold := ((hmem j k).mp hk).resolve_right fun hnew => hij hnew.1.symm
      obtain ⟨d, hd⟩ := h.exists_capture j k hold
      exact ⟨d, (hget j).trans ((if_neg hij).trans hd)⟩
  · intro j d hd
    rw [hget] at hd
    by_cases hij : i = j
    · subst hij
      rw [if_pos rfl] at hd
      cases hd
      refine ⟨some taken.length, hsample ▸ hfits, fun k => ?_⟩
      rw [hmem]
      simp [hfree, eq_comm]
    · rw [if_neg hij] at hd
      obtain ⟨number, hfits', hnumber⟩ := h.fits j d hd
      refine ⟨number, hfits', fun k => ?_⟩
      rw [hmem, ← hnumber]
      simp [Ne.symm hij]
  · intro j k d hk hlt hd
    rw [hget] at hd
    show b'.slots[k]? = _
    rw [hslots]
    by_cases hij : i = j
    · -- the slot of the new number has been vacant so far
      subst hij
      rw [if_pos rfl] at hd
      cases hd
      obtain ⟨-, rfl⟩ := ((hmem i k).mp hk).resolve_left (hfree k)
      rw [hslot]
      exact h.vacant _ (Nat.le_refl _) hlt
    · rw [if_neg hij] at hd
      have hold := ((hmem j k).mp hk).resolve_right fun hnew => hij hnew.1.symm
      exact h.slot_eq j k d hold hlt hd
  · intro k hle hlt
    rw [List.length_append] at hle
    show b'.slots[k]? = _
    rw [hslots]
    exact h.vacant k (Nat.le_of_succ_le hle) hlt

/-- A capture with a sample that has frames takes the next number. -/
theorem step_take (h : Owned capacity samples taken g) (hfew : samples.length < wordLimit 64)
    (hi : g.captures[i]? = some c) (hchecked : c.progress = .checked) :
    Owned capacity samples (taken ++ [(i, taken.length)]) (g.step i) := by
  obtain ⟨number, hfits, hnumber⟩ := h.fits i c hi
  obtain ⟨sample, progress⟩ := c
  subst hchecked
  cases hfits with
  | checked hframes =>
    have hfree : ∀ k, (i, k) ∉ taken := fun k hk => nomatch (hnumber k).mp hk
    have hlt := h.length_taken_lt hi hfree
    -- there are too few captures for the counter to start over
    have hnext : countUp g.buffer.next = taken.length + 1 := by
      rw [countUp, h.next_eq]
      exact Nat.mod_eq_of_lt (by omega)
    rw [step_eq hi]
    by_cases hroom : taken.length < capacity
    · refine h.take hi hfree rfl ?_ ?_ hnext rfl
      all_goals
        simp only [Capture.advance, SharedBuffer.capacity, h.size_eq, h.next_eq, if_pos hroom]
      · rfl
      · exact .holding hframes hroom
    · refine h.take hi hfree rfl ?_ ?_ hnext rfl
      all_goals
        simp only [Capture.advance, SharedBuffer.capacity, h.size_eq, h.next_eq, if_neg hroom]
      · rfl
      · exact .overflowing hframes (Nat.le_of_not_lt hroom)

/-- In any other step a capture keeps to the slot that it has. -/
theorem step_move (h : Owned capacity samples taken g) (hi : g.captures[i]? = some c)
    (hchecked : c.progress ≠ .checked) : Owned capacity samples taken (g.step i) := by
  obtain ⟨number, hfits, hnumber⟩ := h.fits i c hi
  -- what the capture has made of its slot, if it has one
  have hslot : ∀ k, number = some k → k < capacity → g.buffer.slots[k]? = some c.slot :=
    fun k hk hlt => h.slot_eq i k c ((hnumber k).mpr hk) hlt hi
  obtain ⟨sample, progress⟩ := c
  rw [step_eq hi]
  cases hfits with
  | begun =>
    refine h.move hi hnumber rfl ?_ rfl rfl (fun _ hk => nomatch hk) fun _ _ => rfl
    cases hframes : sample.frames.isEmpty with
    | true => simpa [Capture.advance, hframes] using Fits.empty hframes
    | false => simpa [Capture.advance, hframes] using Fits.checked hframes
  | checked => exact absurd rfl hchecked
  | @holding k hframes hk =>
    refine h.move hi hnumber rfl (.copied hframes hk) rfl (by simp [Capture.advance]) ?_ ?_
    · rintro _ ⟨⟩ hlt
      simp [Capture.advance, Array.getElem?_modify, hslot k rfl hlt, Capture.slot]
    · intro j hj
      simp [Capture.advance, Array.getElem?_modify, show k ≠ j from fun h => hj (h ▸ rfl)]
  | @copied k hframes hk =>
    refine h.move hi hnumber rfl (.published hframes hk) rfl (by simp [Capture.advance]) ?_ ?_
    · rintro _ ⟨⟩ hlt
      simp [Capture.advance, Array.getElem?_modify, hslot k rfl hlt, Capture.slot]
    · intro j hj
      simp [Capture.advance, Array.getElem?_modify, show k ≠ j from fun h => hj (h ▸ rfl)]
  | published hframes hk =>
    exact h.move hi hnumber rfl (.stored hframes hk) rfl rfl hslot fun _ _ => rfl
  | overflowing hframes hk =>
    exact h.move hi hnumber rfl (.dropped hframes hk) rfl rfl hslot fun _ _ => rfl
  | stored hframes hk =>
    exact h.move hi hnumber rfl (.stored hframes hk) rfl rfl hslot fun _ _ => rfl
  | dropped hframes hk =>
    exact h.move hi hnumber rfl (.dropped hframes hk) rfl rfl hslot fun _ _ => rfl
  | empty hframes =>
    exact h.move hi hnumber rfl (.empty hframes) rfl rfl (fun _ hk => nomatch hk) fun _ _ => rfl

/-- **One step** of any capture keeps the invariant. -/
theorem step (h : Owned capacity samples taken g) (hfew : samples.length < wordLimit 64) (i : Nat) :
    Owned capacity samples (taken ++ (g.claim? i).toList) (g.step i) := by
  cases hi : g.captures[i]? with
  | none =>
    have hnone : g.claim? i = none := by rw [claim?, hi]
    have hstep : g.step i = g := by rw [CaptureGroup.step, hi]
    rwa [hnone, hstep, Option.toList_none, List.append_nil]
  | some c =>
    by_cases hchecked : c.progress = .checked
    · rw [claim?_eq_some hi hchecked, h.next_eq]
      exact h.step_take hfew hi hchecked
    · rw [claim?_eq_none hi hchecked, Option.toList_none, List.append_nil]
      exact h.step_move hi hchecked

/-! ## Section 4: Any schedule -/

/-- **Any schedule** keeps the invariant. -/
theorem run (h : Owned capacity samples taken g) (hfew : samples.length < wordLimit 64)
    (schedule : List Nat) :
    Owned capacity samples (taken ++ g.claims schedule) (g.run schedule) := by
  induction schedule generalizing taken g with
  | nil => simpa [claims, CaptureGroup.run] using h
  | cons i schedule ih =>
    have hrest := ih (h.step hfew i)
    rwa [List.append_assoc] at hrest

/-- A slot that is ready is so because of the capture that has taken its number. -/
theorem exists_owner (h : Owned capacity samples taken g) {slot : Slot}
    (hk : g.buffer.slots[k]? = some slot) (hready : slot.ready = true) :
    k < capacity ∧ ∃ i c, (i, k) ∈ taken ∧ g.captures[i]? = some c ∧ c.slot = slot := by
  obtain ⟨hlt, -⟩ := Array.getElem?_eq_some_iff.mp hk
  rw [h.size_eq] at hlt
  refine ⟨hlt, ?_⟩
  by_cases htaken : k < taken.length
  · have hmem : (taken[k].1, k) ∈ taken := h.mem_taken_iff.mpr ⟨htaken, rfl⟩
    obtain ⟨c, hc⟩ := h.exists_capture _ k hmem
    have hslot := h.slot_eq _ k c hmem hlt hc
    rw [hk] at hslot
    exact ⟨_, c, hmem, hc, (Option.some.inj hslot).symm⟩
  · have hvacant := h.vacant k (Nat.le_of_not_lt htaken) hlt
    rw [hk] at hvacant
    cases hvacant
    contradiction

/-- The sample in a slot that is ready is that of the one capture with its number. -/
theorem exists_sample (h : Owned capacity samples taken g) {slot : Slot}
    (hk : g.buffer.slots[k]? = some slot) (hready : slot.ready = true) :
    ∃ i, (∀ j, (j, k) ∈ taken ↔ j = i) ∧ samples[i]? = some slot.sample := by
  obtain ⟨-, i, c, hmem, hc, rfl⟩ := h.exists_owner hk hready
  obtain ⟨hlt, hi⟩ := h.mem_taken_iff.mp hmem
  refine ⟨i, fun j => ?_, ?_⟩
  · rw [h.mem_taken_iff]
    exact ⟨fun ⟨_, hj⟩ => hj.symm.trans hi, fun hj => ⟨hlt, hi.trans hj.symm⟩⟩
  · rw [← h.samples_eq, List.getElem?_map, Array.getElem?_toList, hc, Capture.sample_slot hready]
    rfl

theorem ready_step (h : Owned capacity samples taken g) (hfew : samples.length < wordLimit 64)
    {slot : Slot} (hk : g.buffer.slots[k]? = some slot) (hready : slot.ready = true) (i : Nat) :
    (g.step i).buffer.slots[k]? = some slot := by
  obtain ⟨hlt, j, c, hmem, hc, rfl⟩ := h.exists_owner hk hready
  -- the owner still is what it was to its slot, whoever made the step
  have hown : ∃ c', (g.step i).captures[j]? = some c' ∧ c'.slot = c.slot := by
    cases hi : g.captures[i]? with
    | none => exact ⟨c, by rw [CaptureGroup.step, hi]; exact hc, rfl⟩
    | some d =>
      rw [step_eq hi, getElem?_set hi]
      by_cases hij : i = j
      · subst hij
        rw [hc] at hi
        cases hi
        exact ⟨_, if_pos rfl, Capture.slot_advance _ hready⟩
      · exact ⟨c, (if_neg hij).trans hc, rfl⟩
  obtain ⟨c', hc', hslot⟩ := hown
  rw [← hslot]
  exact (h.step hfew i).slot_eq j k c' (List.mem_append_left _ hmem) hlt hc'

/-- **A slot that is ready** stays as it is. -/
theorem ready_run (h : Owned capacity samples taken g) (hfew : samples.length < wordLimit 64)
    {slot : Slot} (hk : g.buffer.slots[k]? = some slot) (hready : slot.ready = true)
    (schedule : List Nat) : (g.run schedule).buffer.slots[k]? = some slot := by
  induction schedule generalizing taken g with
  | nil => exact hk
  | cons i schedule ih => exact ih (h.step hfew i) (h.ready_step hfew hk hready i)

/-- What a reader finds while the captures go on stands in a slot that is ready in the end. -/
theorem exists_of_mem_readFrom (h : Owned capacity samples taken g)
    (hfew : samples.length < wordLimit 64) {index : Nat} {pauses : List (List Nat)}
    {sample : RawSample} (hmem : sample ∈ g.readFrom index pauses) :
    ∃ (k : Nat) (slot : Slot), (g.run pauses.flatten).buffer.slots[k]? = some slot ∧
      slot.ready = true ∧ slot.sample = sample := by
  induction pauses generalizing taken g index with
  | nil => exact absurd hmem List.not_mem_nil
  | cons pause pauses ih =>
    have hpause := h.run hfew pause
    have hrun : g.run (pause :: pauses).flatten = (g.run pause).run pauses.flatten := by
      simp [CaptureGroup.run]
    rw [hrun]
    rw [readFrom] at hmem
    split at hmem
    case h_1 found hfound =>
      rcases List.mem_cons.mp hmem with rfl | hmem
      · exact ⟨index, _, hpause.ready_run hfew hfound rfl _, rfl, rfl⟩
      · exact ih hpause hmem
    case h_2 => exact ih hpause hmem

end Owned

end CaptureGroup

end StackProfiler
