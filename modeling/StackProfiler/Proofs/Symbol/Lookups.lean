import StackProfiler.Proofs.Symbol.Cache
import StackProfiler.Proofs.Symbol.Naming

/-!
# Lookups in any order

A resolver answers calls for single addresses and for whole samples. Over a source of names that is
a fixed function, all answers are the names without a cache. Over any other source a cache could be
seen, and what is seen is that the first name that went into it stays.

- **one lookup**: `extends_resolve`, `probe_resolve_of_vacant` and `resolve_of_hit`;
- **any run of lookups**: `extends_resolveAll` and `resolveAll_flatMap`;
- **main statement**: `answerAll_transparent`.
-/

namespace StackProfiler

/-! ## Section 1: Calls -/

/-- A call of a resolver: for one address, or for the frames of a sample. -/
inductive NameCall where
  | ofAddress (address : UInt64)
  | ofSample (sample : RawSample)

/-- The addresses that a call looks up, in order. -/
def NameCall.addresses : NameCall → List UInt64
  | .ofAddress address => [address]
  | .ofSample sample => lookedUp sample.frames

/-- Every address that the call looks up has an offset that is a word. -/
def NameCall.Fits (regions : List Region) (call : NameCall) : Prop :=
  ∀ address ∈ call.addresses, OffsetFits regions address

instance (regions : List Region) (call : NameCall) : Decidable (call.Fits regions) :=
  List.decidableBAll (OffsetFits regions) call.addresses

namespace Resolver

variable {σ : Type} {r r' : Resolver σ} {address : UInt64} {name : String}

/-- The names that a call gives. -/
def answer (r : Resolver σ) : NameCall → Checked (List String × Resolver σ)
  | .ofAddress address => do
    let (name, r) ← r.resolve address
    return ([name], r)
  | .ofSample sample => r.resolveSample sample

/-- What several calls give, one after the other. -/
def answerAll (r : Resolver σ) : List NameCall → Checked (List (List String) × Resolver σ)
  | [] => .ok ([], r)
  | call :: calls => do
    let (names, r) ← r.answer call
    let (rest, r) ← r.answerAll calls
    return (names :: rest, r)

theorem answer_eq (r : Resolver σ) (call : NameCall) :
    r.answer call = r.resolveAll call.addresses := by
  cases call with
  | ofAddress address =>
    rw [answer, NameCall.addresses, resolveAll]
    cases r.resolve address <;> rfl
  | ofSample sample => rw [answer, NameCall.addresses, resolveSample, lookupAddresses_eq]

theorem resolveAll_append (r : Resolver σ) (front back : List UInt64) :
    r.resolveAll (front ++ back) = do
      let (names, r) ← r.resolveAll front
      let (names', r) ← r.resolveAll back
      return (names ++ names', r) := by
  induction front generalizing r with
  | nil =>
    show r.resolveAll back = _
    simp only [resolveAll, bind, Except.bind]
    cases r.resolveAll back <;> rfl
  | cons address front ih =>
    simp only [List.cons_append, resolveAll, ih, bind, Except.bind]
    -- a fault in any of the three parts is the fault of both sides
    cases r.resolve address with
    | error fault => rfl
    | ok first =>
      dsimp only
      cases first.2.resolveAll front with
      | error fault => rfl
      | ok second =>
        dsimp only [pure, Except.pure]
        cases second.2.resolveAll back <;> rfl

/-- **Calls are lookups**: several calls do what looking up all their addresses in order does. -/
theorem resolveAll_flatMap (r : Resolver σ) (calls : List NameCall) :
    r.resolveAll (calls.flatMap (·.addresses)) =
      (r.answerAll calls).map fun (names, r') => (names.flatten, r') := by
  induction calls generalizing r with
  | nil => rfl
  | cons call calls ih =>
    simp only [List.flatMap_cons, resolveAll_append, answerAll, answer_eq, ih, bind, Except.bind]
    cases r.resolveAll call.addresses with
    | error fault => rfl
    | ok first =>
      dsimp only
      cases first.2.answerAll calls <;> rfl

/-- The calls of a resolver that knows the names are answered with them. -/
theorem Knows.answerAll {regions : List Region} {names : String → UInt64 → Option String}
    (h : r.Knows regions names) {calls : List NameCall}
    (hfits : ∀ call ∈ calls, call.Fits regions) :
    ∃ r', r.answerAll calls = .ok (calls.map (·.addresses.map (nameOf regions names)), r') := by
  induction calls generalizing r with
  | nil => exact ⟨r, rfl⟩
  | cons call calls ih =>
    obtain ⟨r₁, hr₁, h₁⟩ := h.resolveAll (hfits call (List.mem_cons_self ..))
    obtain ⟨r₂, hr₂⟩ := ih h₁ fun c hc => hfits c (List.mem_cons_of_mem _ hc)
    refine ⟨r₂, ?_⟩
    rw [Resolver.answerAll, answer_eq, hr₁]
    simp [bind, Except.bind, hr₂, pure, Except.pure]

/-! ## Section 2: What a lookup leaves in the cache -/

theorem cache_ask {name? : Option String} (h : r.ask address = .ok (name?, r')) :
    r'.cache = r.cache := by
  unfold ask at h
  -- outside all regions nothing is asked, and an answer changes the state and the counts
  split at h
  · cases h
    rfl
  · simp only [Checked.bind_eq_ok_iff] at h
    obtain ⟨offset, -, ⟨name, state⟩, -, h⟩ := h
    cases h
    rfl

/-- Naming does not touch the cache. -/
theorem cache_resolveUncached (h : r.resolveUncached address = .ok (name, r')) :
    r'.cache = r.cache := by
  simp only [resolveUncached, Checked.bind_eq_ok_iff] at h
  obtain ⟨⟨name?, r₁⟩, hask, h⟩ := h
  have hcache := cache_ask hask
  cases name? with
  | none =>
    cases h
    exact hcache
  | some found =>
    cases h
    exact hcache

/-- What a lookup of an address with a vacant slot does: its name goes into that slot. -/
theorem cache_resolve_of_vacant (hzero : address ≠ 0) {slot : Nat}
    (hvacant : r.cache.probe address = .vacant slot) (h : r.resolve address = .ok (name, r')) :
    r'.cache = r.cache.fill slot address name := by
  simp only [resolve, if_neg hzero, hvacant, Checked.bind_eq_ok_iff] at h
  obtain ⟨⟨found, r₁⟩, hname, h⟩ := h
  cases h
  have hcache := cache_resolveUncached hname
  show r₁.cache.fill slot address found = _
  rw [hcache]

/-- A lookup that finds no empty slot leaves the cache as it is. -/
theorem cache_resolve_of_not_vacant (h : r.resolve address = .ok (name, r'))
    (hnot : ¬(address ≠ 0 ∧ ∃ slot, r.cache.probe address = .vacant slot)) :
    r'.cache = r.cache := by
  unfold resolve at h
  by_cases hzero : address = 0
  · rw [if_pos hzero] at h
    cases h
    rfl
  · simp only [if_neg hzero] at h
    cases hprobe : r.cache.probe address with
    | hit found =>
      simp only [hprobe] at h
      cases h
      rfl
    | vacant slot => exact absurd ⟨hzero, slot, hprobe⟩ hnot
    | contended =>
      simp only [hprobe] at h
      have hcache := cache_resolveUncached h
      exact hcache

/-- **A name that is in the cache** is the answer, and the source is not asked. -/
theorem resolve_of_hit (hzero : address ≠ 0) (hhit : r.cache.probe address = .hit name) :
    ∃ r', r.resolve address = .ok (name, r') ∧ r'.state = r.state ∧
      r'.stats.externalCalls = r.stats.externalCalls := by
  simp only [resolve, if_neg hzero, hhit]
  exact ⟨_, rfl, rfl, rfl⟩

/-- After a lookup that found a vacant slot, the name is in the cache. -/
theorem probe_resolve_of_vacant (hsize : 0 < r.cache.capacity) (hzero : address ≠ 0) {slot : Nat}
    (hvacant : r.cache.probe address = .vacant slot) (h : r.resolve address = .ok (name, r')) :
    r'.cache.probe address = .hit name := by
  rw [cache_resolve_of_vacant hzero hvacant h]
  exact SymbolCache.probe_fill hsize hvacant name

/-- **One lookup** loses nothing from the cache. -/
theorem extends_resolve (hsize : 0 < r.cache.capacity) (h : r.resolve address = .ok (name, r')) :
    r.cache.Extends r'.cache := by
  -- only a vacant slot is ever written to
  by_cases hvacant : address ≠ 0 ∧ ∃ slot, r.cache.probe address = .vacant slot
  · obtain ⟨hzero, slot, hprobe⟩ := hvacant
    rw [cache_resolve_of_vacant hzero hprobe h]
    exact SymbolCache.extends_fill (SymbolCache.getElem?_of_vacant hsize hprobe) _ _
  · rw [cache_resolve_of_not_vacant h hvacant]
    exact .refl _

/-- **Any run of lookups** loses nothing from the cache. -/
theorem extends_resolveAll {addresses : List UInt64} {names : List String}
    (hsize : 0 < r.cache.capacity) (h : r.resolveAll addresses = .ok (names, r')) :
    r.cache.Extends r'.cache := by
  induction addresses generalizing r names with
  | nil =>
    cases h
    exact .refl _
  | cons address addresses ih =>
    simp only [resolveAll, Checked.bind_eq_ok_iff] at h
    obtain ⟨⟨name, r₁⟩, hfirst, ⟨rest, r₂⟩, hrest, h⟩ := h
    cases h
    have hext := extends_resolve hsize hfirst
    exact hext.trans (ih (hext.capacity_pos hsize) hrest)

theorem capacity_pos_of_ofRegions {regions : List Region} {source : NameSource σ} {state : σ}
    {config : CacheConfig} (h : Resolver.ofRegions regions source state config = .ok r) :
    0 < r.cache.capacity := by
  simp only [Resolver.ofRegions, Checked.bind_eq_ok_iff] at h
  obtain ⟨cache, hcache, h⟩ := h
  cases h
  exact SymbolCache.capacity_pos_of_ofConfig hcache

/-! ## Section 3: The cache is invisible -/

/--
**The cache cannot be seen.** A resolver over any regions and any sizes of the cache answers calls
as its source does: if the source always gives the answers of one function, every call gets the
names that follow from these. Calls look up their addresses one after the other, and over any
source, also one that does not keep to its answers, the name that an address got when its slot was
vacant is the name that it gets in every later lookup, without a question to the source.
-/
theorem answerAll_transparent {regions : List Region} {source : NameSource σ} {state : σ}
    {config : CacheConfig} (h : Resolver.ofRegions regions source state config = .ok r) :
    (∀ (names : String → UInt64 → Option String) (calls : List NameCall), source.Answers names →
      (∀ call ∈ calls, call.Fits regions) →
      ∃ r', r.answerAll calls = .ok (calls.map (·.addresses.map (nameOf regions names)), r')) ∧
    (∀ calls : List NameCall, r.resolveAll (calls.flatMap (·.addresses)) =
      (r.answerAll calls).map fun (names, r') => (names.flatten, r')) ∧
    ∀ (before between : List UInt64) (namesBefore namesBetween : List String)
      (r₁ r₂ r₃ : Resolver σ) (address : UInt64) (slot : Nat) (name : String),
      r.resolveAll before = .ok (namesBefore, r₁) →
      address ≠ 0 → r₁.cache.probe address = .vacant slot →
      r₁.resolve address = .ok (name, r₂) →
      r₂.resolveAll between = .ok (namesBetween, r₃) →
      ∃ r₄, r₃.resolve address = .ok (name, r₄) ∧ r₄.state = r₃.state ∧
        r₄.stats.externalCalls = r₃.stats.externalCalls := by
  refine ⟨?_, r.resolveAll_flatMap, ?_⟩
  · intro names calls hsource hfits
    exact (Knows.ofRegions hsource h).answerAll hfits
  · intro before between _ _ r₁ r₂ r₃ address slot name hbefore hzero hvacant hresolve hbetween
    have hsize := capacity_pos_of_ofRegions h
    have hsize₁ := (extends_resolveAll hsize hbefore).capacity_pos hsize
    have hsize₂ := (extends_resolve hsize₁ hresolve).capacity_pos hsize₁
    -- the name went into the cache, and it is still there
    have hhit := probe_resolve_of_vacant hsize₁ hzero hvacant hresolve
    exact resolve_of_hit hzero ((extends_resolveAll hsize₂ hbetween).probe_eq_hit hhit)

private def mapped : Region where
  start := 0x1000
  stop := 0x2000
  offset := 0x400
  permissions := "r-xp"
  path := "/bin/tool"

private def steadyNames (_ : String) (offset : UInt64) : Option String :=
  if offset = 0x410 then some "leaf" else if offset = 0x420 then some "main" else none

private def steadySource : NameSource Unit where
  lookup _ path offset := .ok (steadyNames path offset, ())

/-- A source that gives another name each time. -/
private def fickleSource : NameSource Nat where
  lookup asked _ _ := .ok (some (if asked = 0 then "first" else "later"), asked + 1)

private def contendingCalls : List NameCall :=
  [.ofAddress 0x1010, .ofSample (.ofFrames [0x1010, 0x1021]), .ofSample (.ofFrames [0, 0x3001])]

private def oneSlot : SymbolCache where
  entries := #[none]
  probes := 1

private theorem ofRegions_oneSlot {τ : Type} (source : NameSource τ) (state : τ) :
    Resolver.ofRegions [mapped] source state { slots := 1, probes := 1 } =
      .ok { regions := [mapped], source, state, cache := oneSlot } := by
  have hslots : Nat.nextPowerOfTwo 1 = 1 := by decide +kernel
  simp [Resolver.ofRegions, SymbolCache.ofConfig, hslots, Checked.fit, wordLimit, oneSlot, bind,
    Except.bind, pure, Except.pure]

/-- With a cache of one slot, all addresses contend. Each gets its name from a steady source; a
source that changes its answers is heard once about the address that came first. -/
theorem answerAll_transparent_one_slot :
    (∃ r', answerAll
          { regions := [mapped], source := steadySource, state := (), cache := oneSlot }
          contendingCalls =
        .ok ([["leaf"], ["leaf", "main"], ["[null]", "[unknown]"]], r')) ∧
    ∃ r₃ r₄ : Resolver Nat,
      resolveAll { regions := [mapped], source := fickleSource, state := 0, cache := oneSlot }
          [0x1010, 0x1020, 0x1020] =
        .ok (["first", "later", "later"], r₃) ∧
      r₃.resolve 0x1010 = .ok ("first", r₄) ∧ r₄.state = r₃.state ∧
      r₄.stats.externalCalls = r₃.stats.externalCalls := by
  constructor
  · have hanswers : steadySource.Answers steadyNames := fun _ _ _ => ⟨(), rfl⟩
    have hfits : ∀ call ∈ contendingCalls, call.Fits [mapped] := by decide +kernel
    obtain ⟨r', hr'⟩ :=
      (answerAll_transparent (ofRegions_oneSlot steadySource ())).1 steadyNames contendingCalls
        hanswers hfits
    refine ⟨r', hr'.trans ?_⟩
    have hnames : contendingCalls.map (·.addresses.map (nameOf [mapped] steadyNames)) =
        [["leaf"], ["leaf", "main"], ["[null]", "[unknown]"]] := by
      decide +kernel
    rw [hnames]
  · obtain ⟨r₄, hlater⟩ :=
      (answerAll_transparent (ofRegions_oneSlot fickleSource 0)).2.2 [] [0x1020, 0x1020] [] _ _ _ _
        0x1010 0 "first" rfl (by decide) rfl rfl rfl
    exact ⟨_, r₄, rfl, hlater⟩

end Resolver

end StackProfiler
