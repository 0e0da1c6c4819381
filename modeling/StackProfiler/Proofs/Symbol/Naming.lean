import Mathlib.Logic.Basic
import StackProfiler.Symbol.Resolver

/-!
# Names without a cache

The name of an address as it follows from the regions and from what the files say (`nameOf`), with
no cache in sight. A resolver whose source of names always gives the answers of one function finds
exactly these names, in whatever order it is asked and whatever the sizes of its cache are
(`Resolver.Knows.resolveAll`), because every entry of its cache holds the name of its address.
-/

namespace StackProfiler

/-! ## Section 1: The names of addresses -/

/-- The source always gives the answers of one function, whatever it has been asked before. -/
def NameSource.Answers {σ : Type} (source : NameSource σ)
    (answer : String → UInt64 → Option String) : Prop :=
  ∀ state path offset, ∃ state', source.lookup state path offset = .ok (answer path offset, state')

/-- Where in the file of a region an address of it is looked up. -/
def Region.offsetOf (r : Region) (address : UInt64) : Nat :=
  address.toNat - r.start.toNat + r.offset.toNat

/-- What the file of the first region that holds an address says about it. -/
def answerFor (regions : List Region) (answer : String → UInt64 → Option String)
    (address : UInt64) : Option String :=
  (regions.find? (·.contains address)).bind fun region =>
    answer region.path (UInt64.ofNat (region.offsetOf address))

/-- The name of an address: what a file says about it, or a name by default. -/
def nameOf (regions : List Region) (answer : String → UInt64 → Option String)
    (address : UInt64) : String :=
  if address = 0 then nullSymbol
  else (answerFor regions answer address).getD (Resolver.defaultName address)

/-- The place at which an address is looked up is a word, if it is looked up at all. -/
def OffsetFits (regions : List Region) (address : UInt64) : Prop :=
  ∀ region ∈ regions.find? (·.contains address), region.offsetOf address < wordLimit 64

instance (regions : List Region) (address : UInt64) : Decidable (OffsetFits regions address) :=
  @Option.decidableForallMem Region (fun region => region.offsetOf address < wordLimit 64)
    (fun _ => Nat.decLt _ _) (regions.find? fun region => region.contains address)

/-- The addresses of a stack that are looked up: the deepest as it is, every other one below. -/
def lookedUp : List UInt64 → List UInt64
  | [] => []
  | leaf :: callers => leaf :: callers.map fun address => UInt64.ofNat (address.toNat - 1)

theorem lookupAddresses_eq (frames : List UInt64) :
    Resolver.lookupAddresses frames = lookedUp frames := by
  cases frames with
  | nil => rfl
  | cons leaf callers =>
    rw [Resolver.lookupAddresses, List.mapIdx_cons, lookedUp]
    congr 1
    apply List.ext_getElem
    · simp
    · intro i hi hi'
      simp [Resolver.lookupAddress]

/-- A region starts at or below the addresses that it contains. -/
theorem Region.start_le_of_contains {r : Region} {address : UInt64}
    (h : r.contains address = true) : r.start.toNat ≤ address.toNat := by
  rw [Region.contains, Bool.and_eq_true] at h
  exact UInt64.le_iff_toNat_le.mp (of_decide_eq_true h.1)

/-- An address of a region is looked up where the region says, if that is a word. -/
theorem Region.fileOffset_eq_ok {r : Region} {address : UInt64}
    (hcontains : r.contains address = true) (hfits : r.offsetOf address < wordLimit 64) :
    r.fileOffset address = .ok (UInt64.ofNat (r.offsetOf address)) := by
  rw [Region.fileOffset, Checked.sub_eq_ok_iff.mpr ⟨Region.start_le_of_contains hcontains, rfl⟩]
  have hadd : Checked.add 64 (address.toNat - r.start.toNat) r.offset.toNat =
      .ok (r.offsetOf address) :=
    Checked.add_eq_ok_iff.mpr ⟨rfl, hfits⟩
  simp only [bind, Except.bind, hadd, pure, Except.pure]

namespace SymbolCache

/-! ## Section 2: What a cache holds -/

/-- Some slot of the cache holds the entry. -/
def Stores (c : SymbolCache) (entry : CacheEntry) : Prop :=
  ∃ slot : Nat, c.entries[slot]? = some (some entry)

/-- A name that is found stands in an entry for the address. -/
theorem stores_of_probeAlong_eq_hit {c : SymbolCache} {address : UInt64} {name : String}
    {path : Nat → Nat} {count step : Nat} (h : c.probeAlong address path count step = .hit name) :
    c.Stores { address, name } := by
  induction count generalizing step with
  | zero => cases h
  | succ count ih =>
    rw [probeAlong] at h
    split at h
    · cases h
    · cases h
    · rename_i entry hslot
      -- a slot in use ends the search only if it is for the address
      by_cases heq : entry.address = address
      · rw [if_pos heq] at h
        cases h
        subst heq
        exact ⟨_, hslot⟩
      · rw [if_neg heq] at h
        exact ih h

theorem stores_of_probe_eq_hit {c : SymbolCache} {address : UInt64} {name : String}
    (h : c.probe address = .hit name) : c.Stores { address, name } :=
  stores_of_probeAlong_eq_hit h

/-- Filling a slot adds the given entry and no other. -/
theorem eq_or_stores_of_stores_fill {c : SymbolCache} {slot : Nat} {address : UInt64}
    {name : String} {entry : CacheEntry} (h : (c.fill slot address name).Stores entry) :
    entry = { address, name } ∨ c.Stores entry := by
  obtain ⟨slot', hslot'⟩ := h
  unfold fill at hslot'
  split at hslot'
  · exact .inr ⟨slot', hslot'⟩
  · rw [Array.getElem?_setIfInBounds] at hslot'
    split at hslot'
    · split at hslot'
      · cases hslot'
        exact .inl rfl
      · cases hslot'
    · exact .inr ⟨slot', hslot'⟩

/-- A new cache holds nothing. -/
theorem not_stores_of_ofConfig {config : CacheConfig} {c : SymbolCache} {entry : CacheEntry}
    (hc : ofConfig config = .ok c) : ¬c.Stores entry := by
  rintro ⟨slot, hslot⟩
  unfold ofConfig at hc
  cases hfit : Checked.fit 64 (max config.slots 1).nextPowerOfTwo with
  | error fault => simp [hfit, bind, Except.bind] at hc
  | ok slots =>
    rw [hfit] at hc
    cases hc
    simp [Array.getElem?_replicate] at hslot

end SymbolCache

namespace Resolver

variable {σ : Type} {regions : List Region} {answer : String → UInt64 → Option String}

/-! ## Section 3: Resolvers over a fixed source -/

/-- The resolver names addresses by the regions and the answers, and has remembered no other. -/
structure Knows (r : Resolver σ) (regions : List Region)
    (answer : String → UInt64 → Option String) : Prop where
  regions_eq : r.regions = regions
  answers : r.source.Answers answer
  cached : ∀ entry, r.cache.Stores entry → entry.name = nameOf regions answer entry.address

namespace Knows

variable {r : Resolver σ}

theorem ofRegions {source : NameSource σ} {state : σ} {config : CacheConfig}
    (hsource : source.Answers answer)
    (h : Resolver.ofRegions regions source state config = .ok r) : r.Knows regions answer := by
  unfold Resolver.ofRegions at h
  cases hcache : SymbolCache.ofConfig config with
  | error fault => simp [hcache, bind, Except.bind] at h
  | ok cache =>
    rw [hcache] at h
    cases h
    exact ⟨rfl, hsource, fun entry hentry =>
      absurd hentry (SymbolCache.not_stores_of_ofConfig hcache)⟩

/-- A resolver knows no less after counting something. -/
theorem withStats (h : r.Knows regions answer) (stats : ResolverStats) :
    Knows { r with stats } regions answer :=
  ⟨h.regions_eq, h.answers, h.cached⟩

/-- The source is asked about the first region that holds the address, if there is one. -/
theorem ask (h : r.Knows regions answer) {address : UInt64} (hfits : OffsetFits regions address) :
    ∃ r', r.ask address = .ok (answerFor regions answer address, r') ∧
      r'.Knows regions answer := by
  unfold Resolver.ask answerFor
  rw [h.regions_eq]
  cases hfind : regions.find? (·.contains address) with
  | none => exact ⟨r, rfl, h⟩
  | some region =>
    have hcontains : region.contains address = true := by simpa using List.find?_some hfind
    obtain ⟨state, hstate⟩ :=
      h.answers r.state region.path (UInt64.ofNat (region.offsetOf address))
    refine ⟨{ r with
        state
        stats := { r.stats with externalCalls := r.stats.externalCalls + 1 } }, ?_, ?_⟩
    · simp [Region.fileOffset_eq_ok hcontains (hfits region hfind), hstate, h.regions_eq, bind,
        Except.bind, pure, Except.pure]
    · exact ⟨h.regions_eq, h.answers, h.cached⟩

/-- Asking without the cache gives the name. -/
theorem resolveUncached (h : r.Knows regions answer) {address : UInt64} (hzero : address ≠ 0)
    (hfits : OffsetFits regions address) :
    ∃ r', r.resolveUncached address = .ok (nameOf regions answer address, r') ∧
      r'.Knows regions answer := by
  obtain ⟨r', hask, hknows⟩ := h.ask hfits
  unfold Resolver.resolveUncached nameOf
  rw [hask, if_neg hzero]
  cases answerFor regions answer address with
  | none => exact ⟨_, rfl, hknows.withStats _⟩
  | some name => exact ⟨_, rfl, hknows⟩

/-- Remembering the name of an address keeps every entry right. -/
theorem fill (h : r.Knows regions answer) (slot : Nat) (address : UInt64) :
    Knows { r with cache := r.cache.fill slot address (nameOf regions answer address) } regions
      answer := by
  refine ⟨h.regions_eq, h.answers, fun entry hentry => ?_⟩
  -- the entry is the new one, or it was there before
  rcases SymbolCache.eq_or_stores_of_stores_fill hentry with rfl | hentry
  · rfl
  · exact h.cached entry hentry

/-- **The cache is invisible**: every address gets its name. -/
theorem resolve (h : r.Knows regions answer) {address : UInt64}
    (hfits : OffsetFits regions address) :
    ∃ r', r.resolve address = .ok (nameOf regions answer address, r') ∧
      r'.Knows regions answer := by
  by_cases hzero : address = 0
  · refine ⟨_, ?_, h.withStats { r.stats with lookups := r.stats.lookups + 1 }⟩
    simp [Resolver.resolve, hzero, nameOf]
  · unfold Resolver.resolve
    simp only [if_neg hzero]
    -- a remembered name is right, and every other name is asked for
    cases hprobe : r.cache.probe address with
    | hit name =>
      have hname := h.cached _ (SymbolCache.stores_of_probe_eq_hit hprobe)
      exact ⟨_, by rw [← hname], h.withStats _⟩
    | vacant slot =>
      obtain ⟨r', hr', hknows⟩ := (h.withStats _).resolveUncached hzero hfits
      exact ⟨_, by rw [hr']; rfl, hknows.fill slot address⟩
    | contended => exact (h.withStats _).resolveUncached hzero hfits

theorem resolveAll (h : r.Knows regions answer) {addresses : List UInt64}
    (hfits : ∀ address ∈ addresses, OffsetFits regions address) :
    ∃ r', r.resolveAll addresses = .ok (addresses.map (nameOf regions answer), r') ∧
      r'.Knows regions answer := by
  induction addresses generalizing r with
  | nil => exact ⟨r, rfl, h⟩
  | cons address addresses ih =>
    -- what the first address leaves behind is known for the others
    obtain ⟨r₁, hr₁, h₁⟩ := h.resolve (hfits address (List.mem_cons_self ..))
    obtain ⟨r₂, hr₂, h₂⟩ := ih h₁ fun a ha => hfits a (List.mem_cons_of_mem _ ha)
    refine ⟨r₂, ?_, h₂⟩
    rw [Resolver.resolveAll, hr₁]
    simp [bind, Except.bind, hr₂, pure, Except.pure]

/-- The frames of a sample get the names of the addresses that are looked up for them. -/
theorem resolveSample (h : r.Knows regions answer) {sample : RawSample}
    (hfits : ∀ address ∈ lookedUp sample.frames, OffsetFits regions address) :
    ∃ r', r.resolveSample sample =
        .ok ((lookedUp sample.frames).map (nameOf regions answer), r') ∧
      r'.Knows regions answer := by
  rw [Resolver.resolveSample, lookupAddresses_eq]
  exact h.resolveAll hfits

end Knows

end Resolver

end StackProfiler
