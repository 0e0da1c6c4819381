import StackProfiler.Proofs.Sample.Ownership

/-!
# Captures that have all finished

When all captures into a shared buffer have finished, nothing has been lost but what found the
buffer full, and all of that has been counted. Together with the ownership of slots this says what
a buffer guarantees to captures that run into each other in any order.

- **counters**: `Tallied.run`, what the counters count along any schedule;
- **contents**: `Owned.toList_perm`, what is in the buffer in the end;
- **main statement**: `run_exclusive`.
-/

namespace StackProfiler.CaptureGroup

/-! ## Section 1: A reader -/

/-- A reader that is not interrupted finds the samples in the slots that are ready. -/
theorem readFrom_replicate (g : CaptureGroup) (index count : Nat) :
    g.readFrom index (List.replicate count []) =
      (((g.buffer.slots.toList.drop index).take count).filter (·.ready)).map (·.sample) := by
  induction count generalizing index with
  | zero => simp [readFrom]
  | succ count ih =>
    rw [List.replicate_succ, readFrom]
    have hrun : g.run [] = g := rfl
    simp only [hrun, ih]
    by_cases hlt : index < g.buffer.slots.size
    · have hdrop : g.buffer.slots.toList.drop index =
          g.buffer.slots[index] :: g.buffer.slots.toList.drop (index + 1) :=
        List.drop_eq_getElem_cons hlt
      rw [Array.getElem?_eq_getElem hlt, hdrop, List.take_succ_cons]
      obtain ⟨sample, ready⟩ := g.buffer.slots[index]
      cases ready <;> simp
    · -- nothing stands behind the last slot
      have hnone : g.buffer.slots[index]? = none := Array.getElem?_eq_none (Nat.le_of_not_lt hlt)
      have hdrop : ∀ n, index ≤ n → g.buffer.slots.toList.drop n = [] := by
        intro n hn
        apply List.drop_eq_nil_of_le
        rw [Array.length_toList]
        omega
      rw [hnone, hdrop index (Nat.le_refl _), hdrop (index + 1) (Nat.le_succ _)]
      simp

/-! ## Section 2: Losses -/

/-- What has been lost or cut off is counted when the capture ends. -/
structure Tallied (g : CaptureGroup) : Prop where
  dropped_eq : g.buffer.dropped = g.captures.toList.countP (·.hasEnded .dropped)
  truncated_eq : g.buffer.truncated =
    g.captures.toList.countP fun c => c.hasEnded .stored && c.sample.isTruncated

theorem size_captures_step (g : CaptureGroup) (i : Nat) :
    (g.step i).captures.size = g.captures.size := by
  cases hi : g.captures[i]? with
  | none => rw [step, hi]
  | some c => simp [step_eq hi]

theorem countP_step {g : CaptureGroup} {i : Nat} {c : Capture} (h : g.captures[i]? = some c)
    (p : Capture → Bool) :
    (g.step i).captures.toList.countP p + (p c).toNat =
      g.captures.toList.countP p + (p (c.advance g.buffer).1).toNat := by
  obtain ⟨hlt, hget⟩ := Array.getElem?_eq_some_iff.mp h
  have hcount : (p c).toNat ≤ g.captures.toList.countP p := by
    cases hp : p c with
    | false => exact Nat.zero_le _
    | true =>
      have hmem : c ∈ g.captures.toList := List.mem_of_getElem? (by rw [Array.getElem?_toList, h])
      exact List.countP_pos_iff.mpr ⟨c, hmem, hp⟩
  rw [step_eq h, Array.toList_setIfInBounds, List.countP_set (by simpa using hlt)]
  simp only [Array.getElem_toList, hget]
  cases hp : p c <;> cases hp' : p (c.advance g.buffer).1 <;> simp_all

namespace Tallied

variable {g : CaptureGroup}

theorem init (capacity : Nat) (samples : List RawSample) :
    Tallied (ofSamples capacity samples) := by
  constructor
  all_goals
    simp only [ofSamples, SharedBuffer.withCapacity, List.countP_map]
    symm
    apply List.countP_eq_zero.mpr
    intro sample _
    exact Bool.false_ne_true

/-- A counter that goes up when a capture ends does not start over: there are too few captures. -/
theorem countUp_eq {i n : Nat} {c : Capture} (hi : g.captures[i]? = some c)
    (hfew : g.captures.size < wordLimit 64) {p : Capture → Bool}
    (hn : n = g.captures.toList.countP p)
    (hbefore : p c = false) (hafter : p (c.advance g.buffer).1 = true) :
    countUp n = (g.step i).captures.toList.countP p := by
  have hstep := countP_step hi p
  rw [hbefore, hafter, ← hn] at hstep
  simp only [Bool.toNat_false, Bool.toNat_true, Nat.add_zero] at hstep
  have hle : (g.step i).captures.toList.countP p ≤ (g.step i).captures.toList.length :=
    List.countP_le_length
  have hsize : (g.step i).captures.toList.length = g.captures.size := by
    rw [step_eq hi]
    simp
  rw [countUp, hstep]
  exact Nat.mod_eq_of_lt (by omega)

/-- A step that does not end a capture in a way that is counted leaves the count as it is. -/
theorem countP_eq {i : Nat} {c : Capture} (hi : g.captures[i]? = some c) {p : Capture → Bool}
    (hsame : p (c.advance g.buffer).1 = p c) :
    (g.step i).captures.toList.countP p = g.captures.toList.countP p := by
  have hstep := countP_step hi p
  rw [hsame] at hstep
  omega

/-- A step in which no capture is stored or dropped. -/
theorem quiet (h : Tallied g) {i : Nat} {c : Capture} (hi : g.captures[i]? = some c)
    (hdropped : (c.advance g.buffer).2.dropped = g.buffer.dropped)
    (htruncated : (c.advance g.buffer).2.truncated = g.buffer.truncated)
    (hends : ∀ outcome ≠ .empty, (c.advance g.buffer).1.hasEnded outcome = c.hasEnded outcome) :
    Tallied (g.step i) := by
  have hbuffer : (g.step i).buffer = (c.advance g.buffer).2 := by rw [step_eq hi]
  refine ⟨?_, ?_⟩
  · rw [hbuffer, hdropped, h.dropped_eq, countP_eq hi (hends .dropped (by decide))]
  · rw [hbuffer, htruncated, h.truncated_eq, countP_eq hi]
    rw [hends .stored (by decide), Capture.sample_advance]

/-- **One step** keeps the counts. -/
theorem step (h : Tallied g) (hfew : g.captures.size < wordLimit 64) (i : Nat) :
    Tallied (g.step i) := by
  cases hi : g.captures[i]? with
  | none =>
    have hstep : g.step i = g := by rw [CaptureGroup.step, hi]
    rwa [hstep]
  | some c =>
    obtain ⟨sample, progress⟩ := c
    cases progress with
    | begun =>
      refine h.quiet hi rfl rfl fun outcome houtcome => ?_
      cases hframes : sample.frames.isEmpty with
      | true =>
        simp [Capture.advance, Capture.hasEnded, Capture.outcome?, hframes, Ne.symm houtcome]
      | false => simp [Capture.advance, Capture.hasEnded, Capture.outcome?, hframes]
    | checked =>
      refine h.quiet hi rfl rfl fun outcome _ => ?_
      by_cases hroom : g.buffer.next < g.buffer.capacity <;>
        simp [Capture.advance, Capture.hasEnded, Capture.outcome?, hroom]
    | holding k => exact h.quiet hi rfl rfl fun _ _ => rfl
    | copied k => exact h.quiet hi rfl rfl fun _ _ => rfl
    | published k =>
      refine ⟨?_, ?_⟩
      · rw [countP_eq hi rfl, ← h.dropped_eq, step_eq hi]
        rfl
      · cases hcut : sample.isTruncated with
        | true =>
          have hends : (Capture.hasEnded .stored ⟨sample, .finished .stored⟩ &&
              sample.isTruncated) = true := hcut
          rw [← countUp_eq hi hfew h.truncated_eq rfl hends, step_eq hi]
          simp [Capture.advance, hcut]
        | false =>
          rw [countP_eq hi (by simp [Capture.advance, hcut]), ← h.truncated_eq, step_eq hi]
          simp [Capture.advance, hcut]
    | overflowing =>
      refine ⟨?_, ?_⟩
      · rw [← countUp_eq hi hfew h.dropped_eq rfl rfl, step_eq hi]
        rfl
      · rw [countP_eq hi rfl, ← h.truncated_eq, step_eq hi]
        rfl
    | finished outcome => exact h.quiet hi rfl rfl fun _ _ => rfl

theorem run (h : Tallied g) (hfew : g.captures.size < wordLimit 64) (schedule : List Nat) :
    Tallied (g.run schedule) := by
  induction schedule generalizing g with
  | nil => exact h
  | cons i schedule ih =>
    refine ih (h.step hfew i) ?_
    rwa [size_captures_step]

end Tallied

/-! ## Section 3: When all captures have finished -/

/-- The entries at all places are the list. -/
theorem filterMap_getElem?_range {α : Type} (xs : List α) :
    (List.range xs.length).filterMap (xs[·]?) = xs := by
  induction xs with
  | nil => rfl
  | cons x xs ih => simpa [List.range_succ_eq_map, List.filterMap_map, Function.comp_def] using ih

/-- The entries at the places where a property holds are the entries that have it. -/
theorem filterMap_getElem?_perm {α : Type} {xs : List α} {p : α → Bool} {places : List Nat}
    (hnodup : places.Nodup) (hmem : ∀ i, i ∈ places ↔ ∃ x, xs[i]? = some x ∧ p x = true) :
    (places.filterMap (xs[·]?)).Perm (xs.filter p) := by
  have hplaces : places.Perm ((List.range xs.length).filter fun i => (xs[i]?).any p) := by
    rw [List.perm_ext_iff_of_nodup hnodup (List.nodup_range.filter _)]
    intro i
    rw [hmem, List.mem_filter, List.mem_range]
    constructor
    · rintro ⟨x, hx, hp⟩
      exact ⟨(List.getElem?_eq_some_iff.mp hx).1, by rw [hx]; exact hp⟩
    · rintro ⟨hlt, hp⟩
      rw [List.getElem?_eq_getElem hlt] at hp ⊢
      exact ⟨_, rfl, hp⟩
  refine (hplaces.filterMap _).trans (List.Perm.of_eq ?_)
  conv => rhs; rw [← filterMap_getElem?_range xs]
  rw [List.filterMap_filter, List.filter_filterMap]
  congr 1
  funext i
  cases xs[i]? with
  | none => simp
  | some x => cases hp : p x <;> simp [Option.filter, hp]

theorem isSome_outcome? {g : CaptureGroup} (hfinished : g.isFinished = true) {i : Nat} {c : Capture}
    (hi : g.captures[i]? = some c) : c.outcome?.isSome = true :=
  Array.all_eq_true'.mp hfinished c (Array.mem_of_getElem? hi)

namespace Owned

variable {capacity i k : Nat} {samples : List RawSample} {taken : List (Nat × Nat)}
variable {g : CaptureGroup} {c : Capture}

/-- A capture that has finished has come to the end that its sample and its number lead to. -/
theorem finished_cases (h : Owned capacity samples taken g) (hfinished : g.isFinished = true)
    (hi : g.captures[i]? = some c) :
    c.sample.frames.isEmpty = true ∧ c.progress = .finished .empty ∧ (∀ k, (i, k) ∉ taken) ∨
      c.sample.frames.isEmpty = false ∧ ∃ k, (∀ j, (i, j) ∈ taken ↔ k = j) ∧
        (k < capacity ∧ c.progress = .finished .stored ∨
          capacity ≤ k ∧ c.progress = .finished .dropped) := by
  have hended := isSome_outcome? hfinished hi
  obtain ⟨number, hfits, hnumber⟩ := h.fits i c hi
  obtain ⟨sample, progress⟩ := c
  cases hfits with
  | @stored k hframes hk => exact .inr ⟨hframes, k, by simpa using hnumber, .inl ⟨hk, rfl⟩⟩
  | @dropped k hframes hk => exact .inr ⟨hframes, k, by simpa using hnumber, .inr ⟨hk, rfl⟩⟩
  | empty hframes => exact .inl ⟨hframes, rfl, by simpa using hnumber⟩
  | _ => contradiction

/-- As many numbers have been taken as there are samples with frames. -/
theorem length_taken (h : Owned capacity samples taken g) (hfinished : g.isFinished = true) :
    taken.length = samples.countP (!·.frames.isEmpty) := by
  have hmem : ∀ i, i ∈ taken.map Prod.fst ↔
      ∃ c, g.captures.toList[i]? = some c ∧ (!c.sample.frames.isEmpty) = true := by
    intro i
    rw [List.mem_map]
    constructor
    · rintro ⟨⟨i, k⟩, hk, rfl⟩
      obtain ⟨c, hc⟩ := h.exists_capture i k hk
      rcases h.finished_cases hfinished hc with ⟨-, -, hnone⟩ | ⟨hframes, -⟩
      · exact absurd hk (hnone k)
      · exact ⟨c, by rw [Array.getElem?_toList, hc], by rw [hframes]; rfl⟩
    · rintro ⟨c, hc, hframes⟩
      rw [Array.getElem?_toList] at hc
      rcases h.finished_cases hfinished hc with ⟨hempty, -⟩ | ⟨-, k, hk, -⟩
      · rw [hempty] at hframes
        contradiction
      · exact ⟨(i, k), (hk k).mpr rfl, rfl⟩
  have hlength := (filterMap_getElem?_perm h.nodup_captures hmem).length_eq
  have hsome : ∀ i ∈ taken.map Prod.fst, (g.captures.toList[i]?).isSome = true := by
    intro i hi
    obtain ⟨c, hc, -⟩ := (hmem i).mp hi
    rw [hc]
    rfl
  rw [List.filterMap_length_eq_length.mpr hsome, List.length_map, ← List.countP_eq_length_filter]
    at hlength
  rw [hlength, ← h.samples_eq, List.countP_map]
  rfl

theorem size_buffer (h : Owned capacity samples taken g) :
    g.buffer.size = min taken.length capacity := by
  rw [SharedBuffer.size, SharedBuffer.capacity, h.next_eq, h.size_eq]

/-- A slot in use has an owner, which has made of it what it is. -/
theorem exists_owner_of_lt (h : Owned capacity samples taken g) (hk : k < g.buffer.size) :
    ∃ (hlt : k < taken.length) (c : Capture), g.captures[taken[k].1]? = some c ∧
      (taken[k].1, k) ∈ taken ∧ g.buffer.slots[k]? = some c.slot := by
  rw [h.size_buffer] at hk
  have hlt : k < taken.length := by omega
  have hmem := h.mem_taken_iff.mpr ⟨hlt, rfl⟩
  obtain ⟨c, hc⟩ := h.exists_capture _ k hmem
  exact ⟨hlt, c, hc, hmem, h.slot_eq _ k c hmem (by omega) hc⟩

/-- The slots in use are what the captures with the first numbers have made of them. -/
theorem slots_eq (h : Owned capacity samples taken g) :
    (taken.take capacity).map (fun claim => (g.captures[claim.1]?).map Capture.slot) =
      (g.buffer.slots.toList.take g.buffer.size).map some := by
  have hsize := h.size_buffer
  have hlength : g.buffer.slots.toList.length = capacity := h.size_eq
  apply List.ext_getElem
  · simp only [List.length_map, List.length_take, hsize, hlength]
    omega
  · intro k hk _
    simp only [List.length_map, List.length_take] at hk
    obtain ⟨hlt, c, hc, -, hslot⟩ := h.exists_owner_of_lt (k := k) (by omega)
    obtain ⟨hslots, hget⟩ := Array.getElem?_eq_some_iff.mp hslot
    simp [hc, hget]

/-- In the end, every slot in use is ready. -/
theorem ready_of_isFinished (h : Owned capacity samples taken g) (hfinished : g.isFinished = true) :
    ∀ slot ∈ g.buffer.slots.toList.take g.buffer.size, slot.ready = true := by
  intro slot hslot
  obtain ⟨k, hk, rfl⟩ := List.mem_take_iff_getElem.mp hslot
  obtain ⟨hlt, c, hc, hmem, hget⟩ := h.exists_owner_of_lt (k := k) (by omega)
  have hsize := h.size_buffer
  rcases h.finished_cases hfinished hc with ⟨-, -, hnone⟩ | ⟨-, j, hj, hends⟩
  · exact absurd hmem (hnone k)
  · have hjk := (hj k).mp hmem
    rcases hends with ⟨-, hstored⟩ | ⟨hover, -⟩
    · have hslot := Capture.slot_of_hasEnded (c := c) (by rw [Capture.hasEnded_iff, hstored])
      obtain ⟨_, heq⟩ := Array.getElem?_eq_some_iff.mp hget
      rw [Array.getElem_toList, heq, hslot]
    · omega

/-- In the end there are as many samples in the buffer as there are with frames, or as fit. -/
theorem length_toList (h : Owned capacity samples taken g) (hfinished : g.isFinished = true) :
    g.buffer.toList.length = min capacity (samples.countP (!·.frames.isEmpty)) := by
  rw [SharedBuffer.toList, List.filter_eq_self.mpr (h.ready_of_isFinished hfinished),
    List.length_map, List.length_take, Array.length_toList, h.size_buffer, h.size_eq,
    h.length_taken hfinished]
  omega

/-- The captures that were stored are those with a number below the capacity. -/
theorem mem_take_iff (h : Owned capacity samples taken g) (hfinished : g.isFinished = true) :
    i ∈ (taken.take capacity).map Prod.fst ↔
      ∃ c, g.captures.toList[i]? = some c ∧ c.hasEnded .stored = true := by
  rw [List.mem_map]
  constructor
  · rintro ⟨⟨i, k⟩, hk, rfl⟩
    obtain ⟨j, hj, heq⟩ := List.mem_take_iff_getElem.mp hk
    have hlt : j < taken.length := by omega
    have hnumber : k = j := by
      have hplace := h.snd_getElem hlt
      rwa [heq] at hplace
    have htaken := List.mem_of_mem_take hk
    obtain ⟨c, hc⟩ := h.exists_capture i k htaken
    refine ⟨c, by rw [Array.getElem?_toList, hc], ?_⟩
    rcases h.finished_cases hfinished hc with ⟨-, -, hnone⟩ | ⟨-, k', hk', hends⟩
    · exact absurd htaken (hnone k)
    · have hsame := (hk' k).mp htaken
      rcases hends with ⟨-, hstored⟩ | ⟨hover, -⟩
      · rw [Capture.hasEnded_iff, hstored]
      · omega
  · rintro ⟨c, hc, hstored⟩
    rw [Array.getElem?_toList] at hc
    rw [Capture.hasEnded_iff] at hstored
    rcases h.finished_cases hfinished hc with ⟨-, hempty, -⟩ | ⟨-, k, hk, hends⟩
    · rw [hempty] at hstored
      contradiction
    · rcases hends with ⟨hlt, -⟩ | ⟨-, hdropped⟩
      · obtain ⟨hplace, hi⟩ := h.mem_taken_iff.mp ((hk k).mpr rfl)
        exact ⟨taken[k], List.mem_take_iff_getElem.mpr ⟨k, by omega, rfl⟩, hi⟩
      · rw [hdropped] at hstored
        contradiction

/-- **What is in the buffer in the end** are the samples of the captures that were stored. -/
theorem toList_perm (h : Owned capacity samples taken g) (hfinished : g.isFinished = true) :
    g.buffer.toList.Perm ((g.captures.toList.filter (·.hasEnded .stored)).map (·.sample)) := by
  have hnodup : ((taken.take capacity).map Prod.fst).Nodup :=
    h.nodup_captures.sublist ((List.take_sublist _ _).map _)
  have hperm := filterMap_getElem?_perm hnodup fun i => h.mem_take_iff hfinished
  -- each of them has left its sample in its slot, and the slot is ready
  have hslots : g.buffer.slots.toList.take g.buffer.size =
      (((taken.take capacity).map Prod.fst).filterMap
        (g.captures.toList[·]?)).map Capture.slot := by
    have hsome := congrArg (List.filterMap id) h.slots_eq
    simpa [List.filterMap_map, List.map_filterMap, Function.comp_def] using hsome.symm
  rw [SharedBuffer.toList, List.filter_eq_self.mpr (h.ready_of_isFinished hfinished), hslots,
    List.map_map]
  refine List.Perm.trans (List.Perm.of_eq (List.map_congr_left fun c hc => ?_)) (hperm.map _)
  have hstored := (List.mem_filter.mp (hperm.mem_iff.mp hc)).2
  rw [Function.comp_apply, Capture.slot_of_hasEnded hstored]

/-- In the end, the samples that were cut off are counted. -/
theorem truncated_eq (h : Owned capacity samples taken g) (htallied : Tallied g)
    (hfinished : g.isFinished = true) :
    g.buffer.truncated = g.buffer.toList.countP (·.isTruncated) := by
  rw [htallied.truncated_eq, (h.toList_perm hfinished).countP_eq, List.countP_map,
    List.countP_filter]
  simp only [Function.comp_apply, Bool.and_comm]

/-- A slot that is ready is one of those in use. -/
theorem filter_ready (h : Owned capacity samples taken g) :
    (g.buffer.slots.toList.filter (·.ready)).map (·.sample) = g.buffer.toList := by
  have hsize := h.size_buffer
  have hrest : (g.buffer.slots.toList.drop g.buffer.size).filter (·.ready) = [] := by
    apply List.filter_eq_nil_iff.mpr
    intro slot hslot hready
    obtain ⟨j, hj, rfl⟩ := List.mem_iff_getElem.mp hslot
    simp only [List.length_drop, Array.length_toList] at hj
    have hget : g.buffer.slots[g.buffer.size + j]? =
        some (g.buffer.slots.toList.drop g.buffer.size)[j] := by
      rw [List.getElem_drop, ← Array.getElem?_toList, List.getElem?_eq_getElem]
    obtain ⟨hlt, i, c, hmem, -⟩ := h.exists_owner hget hready
    obtain ⟨htaken, -⟩ := h.mem_taken_iff.mp hmem
    omega
  conv => lhs; rw [← List.take_append_drop g.buffer.size g.buffer.slots.toList]
  rw [List.filter_append, hrest, List.append_nil]
  rfl

end Owned

/-! ## Section 4: Captures never share a slot -/

theorem countOf_eq (g : CaptureGroup) (outcome : CaptureOutcome) :
    g.countOf outcome = g.captures.toList.countP (·.hasEnded outcome) := by
  rw [countOf, List.countP_eq_length_filter]
  rfl

/-- Every capture that has finished has come to one of three ends. -/
theorem countOf_add (g : CaptureGroup) (hfinished : g.isFinished = true) :
    g.countOf .stored + g.countOf .dropped + g.countOf .empty = g.captures.size := by
  have hended : ∀ c ∈ g.captures.toList, c.outcome?.isSome = true := by
    intro c hc
    exact Array.all_eq_true'.mp hfinished c (Array.mem_toList_iff.mp hc)
  simp only [countOf_eq, ← Array.length_toList]
  generalize g.captures.toList = captures at hended
  induction captures with
  | nil => rfl
  | cons c captures ih =>
    obtain ⟨hc, hrest⟩ := List.forall_mem_cons.mp hended
    obtain ⟨outcome, houtcome⟩ := Option.isSome_iff_exists.mp hc
    have hih := ih hrest
    simp only [List.countP_cons, Capture.hasEnded, houtcome, List.length_cons]
    simp only [Capture.hasEnded] at hih
    cases outcome <;> simp <;> omega

/--
**Captures never share a slot.** However the steps of fewer than `2 ^ 64` captures interleave, no
slot number is taken twice, and none of the captures takes two. A slot that is ready holds the
sample of the capture that has taken its number, it stays as it is, and a reader finds only samples
of such slots, even if it is interrupted between any two of them. When all captures have finished,
the samples in the buffer are those of the captures that were stored, as many slots are ready as
there are samples with frames, up to the capacity, every capture was stored, dropped or empty, and
the counters say how many were dropped and how many of the stored samples were cut off.
-/
theorem run_exclusive (capacity : Nat) (samples : List RawSample)
    (hfew : samples.length < wordLimit 64) (schedule : List Nat) :
    let start := ofSamples capacity samples
    let g := start.run schedule
    let taken := start.claims schedule
    (taken.map Prod.snd).Nodup ∧ (taken.map Prod.fst).Nodup ∧
      (∀ (k : Nat) (slot : Slot), g.buffer.slots[k]? = some slot → slot.ready = true →
        (∃ i, (∀ j, (j, k) ∈ taken ↔ j = i) ∧ samples[i]? = some slot.sample) ∧
          ∀ later, (g.run later).buffer.slots[k]? = some slot) ∧
      g.readFrom 0 (List.replicate g.buffer.size []) = g.buffer.toList ∧
      (∀ pauses, ∀ sample ∈ g.readFrom 0 pauses, ∃ (k : Nat) (slot : Slot),
        (g.run pauses.flatten).buffer.slots[k]? = some slot ∧ slot.ready = true ∧
          slot.sample = sample) ∧
      (g.isFinished = true →
        g.buffer.toList.Perm ((g.captures.toList.filter (·.hasEnded .stored)).map (·.sample)) ∧
          g.buffer.slots.countP (·.ready) =
            min capacity (samples.countP (!·.frames.isEmpty)) ∧
          g.countOf .stored + g.countOf .dropped + g.countOf .empty = samples.length ∧
          g.buffer.dropped = g.countOf .dropped ∧
          g.buffer.truncated = g.buffer.toList.countP (·.isTruncated)) := by
  intro start g taken
  have hstart := Owned.init capacity samples
  have howned : Owned capacity samples taken g := hstart.run hfew schedule
  have htallied : Tallied g :=
    (Tallied.init capacity samples).run (by rwa [hstart.length_captures]) schedule
  refine ⟨howned.nodup_numbers, howned.nodup_captures, ?_, ?_, ?_, ?_⟩
  · intro k slot hk hready
    exact ⟨howned.exists_sample hk hready, howned.ready_run hfew hk hready⟩
  · rw [readFrom_replicate, List.drop_zero]
    rfl
  · intro pauses sample hmem
    exact howned.exists_of_mem_readFrom hfew hmem
  · intro hfinished
    refine ⟨howned.toList_perm hfinished, ?_, ?_, ?_, howned.truncated_eq htallied hfinished⟩
    · have hready := congrArg List.length howned.filter_ready
      rw [List.length_map, ← List.countP_eq_length_filter, howned.length_toList hfinished] at hready
      rwa [← Array.countP_toList]
    · rw [countOf_add g hfinished, howned.length_captures]
    · rw [htallied.dropped_eq, countOf_eq]

/-- A sample, one that is cut off, and one without frames. -/
private def threeSamples : List RawSample :=
  [.ofFrames [0x1000], .ofFrames (List.replicate 65 0x2000), .ofFrames []]

/-- The second capture runs inside the first one, which has only looked at its sample. -/
private def nested : List Nat :=
  [0, 1, 1, 1, 1, 1, 0, 0, 2]

/-- The capture that runs inside the other one gets the only slot, and the other one is dropped. -/
theorem run_exclusive_nested :
    let g := (ofSamples 1 threeSamples).run nested
    threeSamples.length < wordLimit 64 ∧ g.isFinished = true ∧
      (ofSamples 1 threeSamples).claims nested = [(1, 0), (0, 1)] ∧
      g.buffer.slots.countP (·.ready) = 1 ∧ g.buffer.dropped = 1 ∧ g.buffer.truncated = 1 ∧
      ∃ slot, (g.run [1, 0]).buffer.slots[0]? = some slot ∧
        threeSamples[1]? = some slot.sample := by
  intro g
  have hfew : threeSamples.length < wordLimit 64 := by decide
  have hfinished : g.isFinished = true := by decide +kernel
  have htaken : (ofSamples 1 threeSamples).claims nested = [(1, 0), (0, 1)] := by decide +kernel
  have hfirst : (g.buffer.slots[0]?).map (·.ready) = some true := by decide +kernel
  obtain ⟨slot, hslot, hslotReady⟩ := Option.map_eq_some_iff.mp hfirst
  obtain ⟨-, -, hslots, -, -, hend⟩ := run_exclusive 1 threeSamples hfew nested
  obtain ⟨-, hready, -, hdropped, htruncated⟩ := hend hfinished
  refine ⟨hfew, hfinished, htaken, hready.trans (by decide +kernel),
    hdropped.trans (by decide +kernel), htruncated.trans (by decide +kernel), ?_⟩
  obtain ⟨⟨i, howner, hsample⟩, hlater⟩ := hslots 0 slot hslot hslotReady
  have hi : 1 = i := (howner 1).mp (by rw [htaken]; decide)
  exact ⟨_, hlater [1, 0], hi ▸ hsample⟩

end StackProfiler.CaptureGroup
