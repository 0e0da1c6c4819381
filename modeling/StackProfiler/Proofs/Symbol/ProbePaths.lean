import Mathlib.Data.List.Dedup
import StackProfiler.Proofs.Symbol.Cache

/-!
# Probe paths without holes

A cache is filled with care if every entry goes into the slot that a probe for its address has just
found empty (`SymbolCache.fillAll?`). Then every entry stands on the probe path of its address, and
all slots before it on the path are in use for other addresses (`SymbolCache.Sound`). From this one
invariant follows what a user of the cache relies on: no address has two slots, and an address that
is found or contended once stays so.

- **one entry**: `Sound.fill`;
- **any run of entries**: `Sound.fillAll`;
- **main statement**: `fillAll_keeps_paths`.
-/

namespace StackProfiler.SymbolCache

variable {c c' : SymbolCache} {address : UInt64} {slot : Nat}

/-! ## Section 1: Filling with care -/

/-- The cache after an entry was put into the slot that a probe for its address found empty. -/
def fillVacant? (c : SymbolCache) (entry : CacheEntry) : Option SymbolCache :=
  match c.probe entry.address with
  | .vacant slot => some (c.fill slot entry.address entry.name)
  | _ => none

/-- The cache after several entries, if a slot was found for each of them. -/
def fillAll? (c : SymbolCache) (entries : List CacheEntry) : Option SymbolCache :=
  entries.foldlM fillVacant? c

theorem fillVacant?_eq_some_iff {entry : CacheEntry} :
    c.fillVacant? entry = some c' ↔ ∃ slot, c.probe entry.address = .vacant slot ∧
      c' = c.fill slot entry.address entry.name := by
  unfold fillVacant?
  cases c.probe entry.address <;> simp [eq_comm]

/-! ## Section 2: What a probe goes past -/

/-- Some entry is in the slot. -/
def InUse (c : SymbolCache) (slot : Nat) : Prop :=
  ∃ entry, c.entries[slot]? = some (some entry)

/-- The slot is in use for another address. -/
def Passed (c : SymbolCache) (address : UInt64) (slot : Nat) : Prop :=
  ∃ entry, c.entries[slot]? = some (some entry) ∧ entry.address ≠ address

theorem Extends.passed (h : c.Extends c') (hpassed : c.Passed address slot) :
    c'.Passed address slot := by
  obtain ⟨entry, hentry, hother⟩ := hpassed
  exact ⟨entry, h.kept slot entry hentry, hother⟩

/-- A path may as well be counted from its second slot on. -/
theorem probeAlong_succ_step (c : SymbolCache) (address : UInt64) (path : Nat → Nat)
    (count step : Nat) :
    c.probeAlong address path count (step + 1) =
      c.probeAlong address (fun n => path (n + 1)) count step := by
  induction count generalizing step with
  | zero => rfl
  | succ count ih =>
    rw [probeAlong, probeAlong, ih]

/-- A probe goes past a slot that is in use for another address. -/
theorem probeAlong_of_passed {path : Nat → Nat} (count : Nat) (h : c.Passed address (path 0)) :
    c.probeAlong address path (count + 1) 0 =
      c.probeAlong address (fun n => path (n + 1)) count 0 := by
  obtain ⟨entry, hentry, hother⟩ := h
  rw [← probeAlong_succ_step, probeAlong, hentry]
  exact if_neg hother

/-- A probe that does not go past the first slot ends there. -/
theorem probeAlong_of_not_passed {path : Nat → Nat} (count : Nat)
    (h : ¬c.Passed address (path 0)) :
    c.probeAlong address path (count + 1) 0 = .vacant (path 0) ∨
      ∃ name, c.probeAlong address path (count + 1) 0 = .hit name := by
  rw [probeAlong]
  split
  case h_1 => exact .inl rfl
  case h_2 => exact .inl rfl
  case h_3 entry hentry =>
    -- the slot is in use, and not for another address
    have hsame : entry.address = address := by
      by_contra hother
      exact h ⟨entry, hentry, hother⟩
    exact .inr ⟨entry.name, if_pos hsame⟩

/-- **A probe that ends at an empty slot** has gone past all slots before it. -/
theorem exists_passed_of_vacant {path : Nat → Nat} {count : Nat}
    (h : c.probeAlong address path count 0 = .vacant slot) :
    ∃ n < count, path n = slot ∧ ∀ m < n, c.Passed address (path m) := by
  induction count generalizing path with
  | zero => cases h
  | succ count ih =>
    by_cases hpassed : c.Passed address (path 0)
    · rw [probeAlong_of_passed count hpassed] at h
      obtain ⟨n, hn, hslot, hbefore⟩ := ih h
      refine ⟨n + 1, Nat.succ_lt_succ hn, hslot, fun m hm => ?_⟩
      cases m with
      | zero => exact hpassed
      | succ m => exact hbefore m (Nat.lt_of_succ_lt_succ hm)
    · refine ⟨0, Nat.succ_pos count, ?_, fun m hm => absurd hm (Nat.not_lt_zero m)⟩
      rcases probeAlong_of_not_passed count hpassed with hvacant | ⟨name, hhit⟩
      · exact Probe.vacant.inj (hvacant.symm.trans h)
      · cases hhit.symm.trans h

/-- **An address is contended** exactly if its whole path is in use for other addresses. -/
theorem probeAlong_eq_contended_iff {path : Nat → Nat} {count : Nat} :
    c.probeAlong address path count 0 = .contended ↔ ∀ m < count, c.Passed address (path m) := by
  induction count generalizing path with
  | zero => simp [probeAlong]
  | succ count ih =>
    rw [Nat.forall_lt_succ_left]
    by_cases hpassed : c.Passed address (path 0)
    · rw [probeAlong_of_passed count hpassed, ih]
      exact (and_iff_right hpassed).symm
    · refine iff_of_false (fun hcontended => ?_) fun h => hpassed h.1
      rcases probeAlong_of_not_passed count hpassed with hvacant | ⟨name, hhit⟩
      · cases hvacant.symm.trans hcontended
      · cases hhit.symm.trans hcontended

/-- The path of an address over as many steps as there are slots leads through all of them. -/
theorem exists_slotAt_eq (c : SymbolCache) (address : UInt64) (h : slot < c.capacity) :
    ∃ step < c.capacity, c.slotAt address step = slot := by
  have hhome : c.home address < c.capacity := Nat.mod_lt _ (Nat.zero_lt_of_lt h)
  unfold slotAt
  rcases Nat.le_total (c.home address) slot with hle | hle
  · refine ⟨slot - c.home address, by omega, ?_⟩
    rw [Nat.add_sub_cancel' hle, Nat.mod_eq_of_lt h]
  · -- the path wraps at the end of the table
    rcases Nat.eq_or_lt_of_le hle with heq | hlt
    · exact ⟨0, by omega, by rw [Nat.add_zero, Nat.mod_eq_of_lt hhome, heq]⟩
    · refine ⟨slot + c.capacity - c.home address, by omega, ?_⟩
      rw [Nat.add_sub_cancel' (by omega), Nat.add_mod_right, Nat.mod_eq_of_lt h]

/-! ## Section 3: Sound caches -/

/-- Every entry is found on the path of its address, and the slots in use are counted. -/
structure Sound (c : SymbolCache) : Prop where
  capacity_pos : 0 < c.capacity
  placed : ∀ slot entry, c.entries[slot]? = some (some entry) →
    ∃ step < c.probes, c.slotAt entry.address step = slot ∧
      ∀ earlier < step, c.Passed entry.address (c.slotAt entry.address earlier)
  filled_eq : c.filled = c.entries.countP (·.isSome)

namespace Sound

theorem size_le (h : c.Sound) : c.size ≤ c.capacity := by
  rw [size, h.filled_eq]
  exact Array.countP_le_size

/-- **No address has two slots**: the one further along the path would come behind the other,
which is not passed. -/
theorem slot_unique (h : c.Sound) {slot' : Nat} {entry entry' : CacheEntry}
    (hentry : c.entries[slot]? = some (some entry))
    (hentry' : c.entries[slot']? = some (some entry'))
    (hsame : entry.address = entry'.address) : slot = slot' := by
  obtain ⟨step, -, rfl, hbefore⟩ := h.placed slot entry hentry
  obtain ⟨step', -, rfl, hbefore'⟩ := h.placed slot' entry' hentry'
  rcases Nat.lt_trichotomy step step' with hlt | rfl | hlt
  · obtain ⟨other, hother, hne⟩ := hbefore' step hlt
    rw [← hsame, hentry] at hother
    cases hother
    exact absurd hsame hne
  · rw [hsame]
  · obtain ⟨other, hother, hne⟩ := hbefore step' hlt
    rw [hsame, hentry'] at hother
    cases hother
    exact absurd hsame.symm hne

/-- If the path leads through the whole table, an address is contended only if that is full. -/
theorem size_eq_of_contended (h : c.Sound) (hprobes : c.capacity ≤ c.probes)
    (hcontended : c.probe address = .contended) : c.size = c.capacity := by
  rw [size, h.filled_eq, capacity, Array.countP_eq_size]
  intro content hcontent
  obtain ⟨slot, hslot, rfl⟩ := Array.getElem_of_mem hcontent
  obtain ⟨step, hstep, rfl⟩ := c.exists_slotAt_eq address hslot
  obtain ⟨entry, hentry, -⟩ :=
    probeAlong_eq_contended_iff.mp hcontended step (Nat.lt_of_lt_of_le hstep hprobes)
  rw [Array.getElem?_eq_getElem hslot] at hentry
  rw [Option.some.inj hentry]
  rfl

end Sound

/-- A new cache is sound, and its probes are as many as asked for, but no less than one and no more
than there are slots. -/
theorem sound_of_ofConfig {config : CacheConfig} (h : ofConfig config = .ok c) :
    c.Sound ∧ c.probes = min (max config.probes 1) c.capacity ∧ c.filled = 0 := by
  have hpos := capacity_pos_of_ofConfig h
  obtain ⟨slots, -, hc⟩ := Checked.bind_eq_ok_iff.mp h
  cases hc
  refine ⟨⟨hpos, fun slot entry hentry => ?_, ?_⟩, ?_, rfl⟩
  · simp [Array.getElem?_replicate] at hentry
  · simp [Array.countP_replicate]
  · simp [capacity]

/-! ## Section 4: Runs -/

/-- What is in use after an empty slot was filled: one slot more. -/
theorem countP_fill (h : c.entries[slot]? = some none) (address : UInt64) (name : String) :
    (c.fill slot address name).entries.countP (·.isSome) = c.entries.countP (·.isSome) + 1 := by
  obtain ⟨hlt, hempty⟩ := Array.getElem?_eq_some_iff.mp h
  simp only [fill, h, Array.setIfInBounds, dif_pos hlt, Array.countP_set, hempty]
  rfl

theorem filled_fill (h : c.entries[slot]? = some none) (address : UInt64) (name : String) :
    (c.fill slot address name).filled = c.filled + 1 := by
  simp [fill, h]

/-- **One entry**: a sound cache stays sound when the slot that a probe found empty is filled. -/
theorem Sound.fill (h : c.Sound) (hvacant : c.probe address = .vacant slot) (name : String) :
    (c.fill slot address name).Sound := by
  have hempty := getElem?_of_vacant h.capacity_pos hvacant
  have hext := extends_fill hempty address name
  refine ⟨hext.capacity_pos h.capacity_pos, ?_, ?_⟩
  · intro other entry hentry
    rw [hext.probes_eq, hext.slotAt_eq]
    rw [getElem?_fill hempty] at hentry
    split at hentry
    case isTrue heq =>
      -- the new entry stands where its probe has ended
      cases hentry
      obtain ⟨step, hstep, hslot, hbefore⟩ := exists_passed_of_vacant hvacant
      exact ⟨step, hstep, hslot.trans heq, fun earlier hlt => hext.passed (hbefore earlier hlt)⟩
    case isFalse =>
      obtain ⟨step, hstep, hslot, hbefore⟩ := h.placed other entry hentry
      exact ⟨step, hstep, hslot, fun earlier hlt => hext.passed (hbefore earlier hlt)⟩
  · rw [filled_fill hempty, countP_fill hempty, h.filled_eq]

/-- An address that is contended stays contended in every larger cache. -/
theorem Extends.probe_eq_contended (h : c.Extends c') (hcontended : c.probe address = .contended) :
    c'.probe address = .contended := by
  rw [probe, h.probes_eq, h.slotAt_eq]
  exact probeAlong_eq_contended_iff.mpr fun step hstep =>
    h.passed (probeAlong_eq_contended_iff.mp hcontended step hstep)

/-- What a run of entries has done: first the one entry, then the others. -/
theorem fillAll?_cons_eq_some {entry : CacheEntry} {entries : List CacheEntry}
    (h : c.fillAll? (entry :: entries) = some c') :
    ∃ slot, c.probe entry.address = .vacant slot ∧
      (c.fill slot entry.address entry.name).fillAll? entries = some c' := by
  rw [fillAll?, List.foldlM_cons] at h
  obtain ⟨c₁, hfirst, hrest⟩ := Option.bind_eq_some_iff.mp h
  obtain ⟨slot, hvacant, rfl⟩ := fillVacant?_eq_some_iff.mp hfirst
  exact ⟨slot, hvacant, hrest⟩

/-- **Any run of entries** keeps a sound cache sound, loses nothing, and counts each entry. -/
theorem Sound.fillAll (h : c.Sound) {entries : List CacheEntry}
    (hfill : c.fillAll? entries = some c') :
    c'.Sound ∧ c.Extends c' ∧ c'.filled = c.filled + entries.length := by
  induction entries generalizing c with
  | nil =>
    cases hfill
    exact ⟨h, .refl _, rfl⟩
  | cons entry entries ih =>
    obtain ⟨slot, hvacant, hrest⟩ := fillAll?_cons_eq_some hfill
    have hempty := getElem?_of_vacant h.capacity_pos hvacant
    obtain ⟨hsound, hext, hfilled⟩ := ih (h.fill hvacant entry.name) hrest
    refine ⟨hsound, (extends_fill hempty _ _).trans hext, ?_⟩
    rw [hfilled, filled_fill hempty, List.length_cons, Nat.add_right_comm, Nat.add_assoc]

/-- An address that is found is not filled in again. -/
theorem Sound.address_notMem (h : c.Sound) {name : String} {entries : List CacheEntry}
    (hhit : c.probe address = .hit name) (hfill : c.fillAll? entries = some c') :
    address ∉ entries.map (·.address) := by
  induction entries generalizing c with
  | nil => exact List.not_mem_nil
  | cons entry entries ih =>
    obtain ⟨slot, hvacant, hrest⟩ := fillAll?_cons_eq_some hfill
    have hext := extends_fill (getElem?_of_vacant h.capacity_pos hvacant) entry.address entry.name
    rw [List.map_cons, List.mem_cons, not_or]
    refine ⟨?_, ih (h.fill hvacant entry.name) (hext.probe_eq_hit hhit) hrest⟩
    rintro rfl
    cases hhit.symm.trans hvacant

/-- What was filled in along a run is found at its end, and no address was filled in twice. -/
theorem Sound.entries_of_fillAll (h : c.Sound) {entries : List CacheEntry}
    (hfill : c.fillAll? entries = some c') :
    (∀ entry ∈ entries, c'.probe entry.address = .hit entry.name) ∧
      (entries.map (·.address)).Nodup := by
  induction entries generalizing c with
  | nil => exact ⟨fun _ hmem => absurd hmem List.not_mem_nil, List.nodup_nil⟩
  | cons entry entries ih =>
    obtain ⟨slot, hvacant, hrest⟩ := fillAll?_cons_eq_some hfill
    have hsound := h.fill hvacant entry.name
    have hhit := probe_fill h.capacity_pos hvacant entry.name
    obtain ⟨hfound, hnodup⟩ := ih hsound hrest
    refine ⟨List.forall_mem_cons.mpr ⟨?_, hfound⟩, ?_⟩
    · exact (hsound.fillAll hrest).2.1.probe_eq_hit hhit
    · exact List.nodup_cons.mpr ⟨hsound.address_notMem hhit hrest, hnodup⟩

/-! ## Section 5: Every run of a new cache -/

/--
**What a cache keeps to.** In a cache of any sizes into which entries were filled with care, no
address has two slots; every entry stands within the probes of its address's path, behind slots
that are all in use; what was filled in is found with its name and what is contended is contended,
now and after any further entries; as many addresses are remembered as were filled in and as slots
are in use, which are no more than there are. If the probes cover the table, an address is
contended only if the table is full.
-/
theorem fillAll_keeps_paths {config : CacheConfig} {new : SymbolCache}
    (hnew : ofConfig config = .ok new) {entries : List CacheEntry}
    (hfill : new.fillAll? entries = some c) :
    (∀ (slot slot' : Nat) (entry entry' : CacheEntry), c.entries[slot]? = some (some entry) →
      c.entries[slot']? = some (some entry') → entry.address = entry'.address → slot = slot') ∧
    c.probes = min (max config.probes 1) c.capacity ∧
    (∀ (slot : Nat) (entry : CacheEntry), c.entries[slot]? = some (some entry) →
      ∃ step < c.probes, slot = (c.home entry.address + step) % c.capacity ∧
        ∀ earlier < step, c.InUse ((c.home entry.address + earlier) % c.capacity)) ∧
    (∀ later c', c.fillAll? later = some c' →
      (∀ entry ∈ entries, c'.probe entry.address = .hit entry.name) ∧
      ∀ address, c.probe address = .contended → c'.probe address = .contended) ∧
    c.size = (entries.map (·.address)).dedup.length ∧
    c.size = c.entries.countP (·.isSome) ∧ c.size ≤ c.capacity ∧
    (c.capacity ≤ config.probes → ∀ address, c.probe address = .contended →
      c.size = c.capacity) := by
  obtain ⟨hstart, hprobes, hzero⟩ := sound_of_ofConfig hnew
  obtain ⟨hsound, hext, hfilled⟩ := hstart.fillAll hfill
  obtain ⟨hfound, hnodup⟩ := hstart.entries_of_fillAll hfill
  have hprobes' : c.probes = min (max config.probes 1) c.capacity := by
    rw [hext.probes_eq, hprobes, capacity, capacity, hext.size_eq]
  refine ⟨fun _ _ _ _ => hsound.slot_unique, hprobes', ?_, ?_, ?_, hsound.filled_eq,
    hsound.size_le, ?_⟩
  · intro slot entry hentry
    obtain ⟨step, hstep, hslot, hbefore⟩ := hsound.placed slot entry hentry
    refine ⟨step, hstep, hslot.symm, fun earlier hlt => ?_⟩
    obtain ⟨other, hother, -⟩ := hbefore earlier hlt
    exact ⟨other, hother⟩
  · intro later c' hlater
    have hext' := (hsound.fillAll hlater).2.1
    exact ⟨fun entry hentry => hext'.probe_eq_hit (hfound entry hentry),
      fun address => hext'.probe_eq_contended⟩
  · rw [size, hfilled, hzero, hnodup.dedup, List.length_map, Nat.zero_add]
  · intro hcover address hcontended
    exact hsound.size_eq_of_contended (by omega) hcontended

private def fourSlots : SymbolCache where
  entries := #[none, none, none, none]
  probes := 2

private theorem ofConfig_fourSlots : ofConfig { slots := 4, probes := 2 } = .ok fourSlots := by
  have hslots : Nat.nextPowerOfTwo 4 = 4 := by decide +kernel
  have hentries : Array.replicate 4 (none : Option CacheEntry) = #[none, none, none, none] := rfl
  simp [ofConfig, hslots, hentries, Checked.fit, wordLimit, fourSlots, bind, Except.bind, pure,
    Except.pure]

/-- Two addresses whose paths start at the last slot. -/
private def colliding : List CacheEntry :=
  [{ address := 3, name := "a" }, { address := 7, name := "b" }]

/-- The path of the second address wraps, and a third one, which has the same path, is contended
however the rest of the table is filled. -/
theorem fillAll_keeps_paths_wrapping :
    ∃ c, fourSlots.fillAll? colliding = some c ∧ c.size = 2 ∧ c.size ≤ c.capacity ∧
      c.entries[0]? = some (some { address := 7, name := "b" }) ∧
      c.InUse ((c.home 7 + 0) % c.capacity) ∧
      ∃ c', c.fillAll? [{ address := 1, name := "c" }] = some c' ∧ c'.probe 7 = .hit "b" ∧
        c'.probe 11 = .contended := by
  have hfill : fourSlots.fillAll? colliding = some
      { entries := #[some { address := 7, name := "b" }, none, none,
          some { address := 3, name := "a" }],
        probes := 2, filled := 2 } := rfl
  obtain ⟨-, -, hplaced, hlater, hsize, -, hle, -⟩ := fillAll_keeps_paths ofConfig_fourSlots hfill
  obtain ⟨step, -, hslot, hbefore⟩ := hplaced 0 { address := 7, name := "b" } rfl
  have hstep : 0 < step := by
    rcases Nat.eq_zero_or_pos step with rfl | hpos
    · exact absurd hslot (by decide)
    · exact hpos
  obtain ⟨hfound, hcontended⟩ := hlater [{ address := 1, name := "c" }] _ rfl
  exact ⟨_, hfill, hsize, hle, rfl, hbefore 0 hstep, _, rfl,
    hfound { address := 7, name := "b" } (by decide), hcontended 11 (by decide)⟩

end StackProfiler.SymbolCache
