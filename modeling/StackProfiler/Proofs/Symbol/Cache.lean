import Mathlib.Data.Nat.Init
import StackProfiler.Symbol.Cache

/-!
# What a symbol cache remembers

Entries of a cache are never moved or removed, so a cache only grows (`SymbolCache.Extends`). An
address that is found in a cache is found with the same name in every cache that extends it
(`Extends.probe_eq_hit`), and one that was vacant is found after its slot was filled
(`probe_fill`). Both follow the probe path of the address slot by slot.
-/

namespace StackProfiler

namespace SymbolCache

/-! ## Section 1: Caches that grow -/

/-- `c'` has the sizes of `c` and holds all its entries, in the same slots. -/
structure Extends (c c' : SymbolCache) : Prop where
  probes_eq : c'.probes = c.probes
  size_eq : c'.entries.size = c.entries.size
  kept : ∀ (slot : Nat) (entry : CacheEntry),
    c.entries[slot]? = some (some entry) → c'.entries[slot]? = some (some entry)

namespace Extends

variable {c c' c'' : SymbolCache}

theorem refl (c : SymbolCache) : c.Extends c :=
  ⟨rfl, rfl, fun _ _ h => h⟩

theorem trans (h : c.Extends c') (h' : c'.Extends c'') : c.Extends c'' :=
  ⟨h'.probes_eq.trans h.probes_eq, h'.size_eq.trans h.size_eq,
    fun slot entry hentry => h'.kept slot entry (h.kept slot entry hentry)⟩

theorem capacity_pos (h : c.Extends c') (hsize : 0 < c.capacity) : 0 < c'.capacity := by
  rw [capacity, h.size_eq]
  exact hsize

/-- Where the path of an address leads depends on the size of the table only. -/
theorem slotAt_eq (h : c.Extends c') (address : UInt64) : c'.slotAt address = c.slotAt address := by
  funext step
  simp only [slotAt, home, capacity, h.size_eq]

/-- What is found along a path is found there in every larger cache: the slots before it stay in
use, for other addresses. -/
theorem probeAlong_eq_hit (h : c.Extends c') {address : UInt64} {name : String}
    {path : Nat → Nat} {count step : Nat}
    (hhit : c.probeAlong address path count step = .hit name) :
    c'.probeAlong address path count step = .hit name := by
  induction count generalizing step with
  | zero => contradiction
  | succ count ih =>
    rw [probeAlong] at hhit ⊢
    split at hhit
    case h_1 => contradiction
    case h_2 => contradiction
    case h_3 entry hslot =>
      simp only [h.kept _ _ hslot]
      split at hhit
      case isTrue hsame => rw [if_pos hsame, hhit]
      case isFalse hother => rw [if_neg hother, ih hhit]

theorem probe_eq_hit (h : c.Extends c') {address : UInt64} {name : String}
    (hhit : c.probe address = .hit name) : c'.probe address = .hit name := by
  rw [probe, h.probes_eq, h.slotAt_eq]
  exact h.probeAlong_eq_hit hhit

/-- An address whose first empty slot is filled for it is found there. -/
theorem probeAlong_eq_hit_of_vacant (h : c.Extends c') {address : UInt64} {name : String}
    {path : Nat → Nat} {count step slot : Nat}
    (hvacant : c.probeAlong address path count step = .vacant slot)
    (hfilled : c'.entries[slot]? = some (some { address, name })) :
    c'.probeAlong address path count step = .hit name := by
  induction count generalizing step with
  | zero => contradiction
  | succ count ih =>
    rw [probeAlong] at hvacant ⊢
    split at hvacant
    case h_1 =>
      cases hvacant
      simp [hfilled]
    case h_2 =>
      cases hvacant
      simp [hfilled]
    case h_3 entry hslot =>
      -- the path goes on behind a slot that another address has
      simp only [h.kept _ _ hslot]
      split at hvacant
      case isTrue => contradiction
      case isFalse hother => rw [if_neg hother, ih hvacant]

end Extends

/-! ## Section 2: Filling the slot that was vacant -/

theorem exists_step_of_vacant {c : SymbolCache} {address : UInt64} {path : Nat → Nat}
    {count step slot : Nat} (h : c.probeAlong address path count step = .vacant slot) :
    (∃ n, slot = path n) ∧ ∀ entry, c.entries[slot]? ≠ some (some entry) := by
  induction count generalizing step with
  | zero => contradiction
  | succ count ih =>
    rw [probeAlong] at h
    split at h
    case h_1 hslot =>
      cases h
      exact ⟨⟨step, rfl⟩, by simp [hslot]⟩
    case h_2 hslot =>
      cases h
      exact ⟨⟨step, rfl⟩, by simp [hslot]⟩
    case h_3 =>
      split at h
      · contradiction
      · exact ih h

/-- The slot of a vacant address is an empty one of the table. -/
theorem getElem?_of_vacant {c : SymbolCache} (hsize : 0 < c.capacity) {address : UInt64}
    {slot : Nat} (h : c.probe address = .vacant slot) : c.entries[slot]? = some none := by
  obtain ⟨⟨n, rfl⟩, hempty⟩ := exists_step_of_vacant h
  have hlt : c.slotAt address n < c.entries.size := Nat.mod_lt _ hsize
  cases hslot : c.entries[c.slotAt address n]? with
  | none => simp [hlt] at hslot
  | some content =>
    cases content with
    | none => rfl
    | some entry => exact absurd hslot (hempty entry)

variable {c : SymbolCache} {slot : Nat}

theorem getElem?_fill (h : c.entries[slot]? = some none) (address : UInt64) (name : String)
    (other : Nat) :
    (c.fill slot address name).entries[other]? =
      if slot = other then some (some { address, name }) else c.entries[other]? := by
  obtain ⟨hlt, -⟩ := Array.getElem?_eq_some_iff.mp h
  simp only [fill, h, Array.getElem?_setIfInBounds]
  split <;> simp_all

/-- Filling an empty slot keeps all that is remembered. -/
theorem extends_fill (h : c.entries[slot]? = some none) (address : UInt64) (name : String) :
    c.Extends (c.fill slot address name) := by
  refine ⟨?_, ?_, fun other entry hentry => ?_⟩
  · simp [fill, h]
  · simp [fill, h]
  · have hne : slot ≠ other := by
      rintro rfl
      simp [h] at hentry
    rw [getElem?_fill h, if_neg hne, hentry]

/-- **What was filled in is found**: an address that was vacant has its name from then on. -/
theorem probe_fill (hsize : 0 < c.capacity) {address : UInt64}
    (h : c.probe address = .vacant slot) (name : String) :
    (c.fill slot address name).probe address = .hit name := by
  have hempty := getElem?_of_vacant hsize h
  have hext := extends_fill hempty address name
  rw [probe, hext.probes_eq, hext.slotAt_eq]
  exact hext.probeAlong_eq_hit_of_vacant h (by rw [getElem?_fill hempty, if_pos rfl])

/-- A new cache has a slot. -/
theorem capacity_pos_of_ofConfig {config : CacheConfig} (h : ofConfig config = .ok c) :
    0 < c.capacity := by
  unfold ofConfig at h
  cases hfit : Checked.fit 64 (max config.slots 1).nextPowerOfTwo with
  | error fault => simp [hfit, bind, Except.bind] at h
  | ok slots =>
    rw [hfit] at h
    cases h
    obtain ⟨rfl, -⟩ := Checked.fit_eq_ok_iff.mp hfit
    simpa [capacity] using Nat.pos_of_isPowerOfTwo (Nat.isPowerOfTwo_nextPowerOfTwo _)

end SymbolCache

end StackProfiler
