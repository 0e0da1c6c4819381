import StackProfiler.Proofs.Symbol.Lookups
import StackProfiler.Proofs.Symbol.ProbePaths

/-!
# What a resolver counts

The counts of a resolver are told by the lookups of a run and by the questions that its source was
asked. What the cache said about an address when it was looked up is kept in `lookupsAlong`; what
the source was asked and has answered is written down by a source that keeps a record
(`NameSource.recording`), which answers as the source itself does.

- **one lookup**: `counted_resolve`, from `counted_ask` and `counted_resolveUncached`;
- **any run of calls**: `counted_answerAll`, and `exists_fillAll?_of_resolveAll` for the cache;
- **main statement**: `statistics_balance`.
-/

namespace StackProfiler

/-! ## Section 1: Lookups and questions -/

/-- A question that a source of names was asked, and its answer. -/
structure Question where
  path : String
  offset : UInt64
  answer : Option String
deriving DecidableEq, Repr

/-- Every question has an answer, which may be that there is no name. -/
def NameSource.IsTotal {σ : Type} (source : NameSource σ) : Prop :=
  ∀ state path offset, ∃ answer, source.lookup state path offset = .ok answer

/-- The same source, which writes down what it is asked and what it answers. -/
def NameSource.recording {σ : Type} (source : NameSource σ) : NameSource (σ × List Question) where
  lookup state path offset := do
    let (answer, next) ← source.lookup state.1 path offset
    return (answer, (next, state.2 ++ [{ path, offset, answer }]))

/-- Whether a name was found. -/
def Probe.isHit : Probe → Bool
  | .hit _ => true
  | .vacant _ => false
  | .contended => false

/-- An address that is looked up, and what the cache says about it then. -/
structure Lookup where
  address : UInt64
  probe : Probe

/-- How the cache decides a lookup. -/
inductive LookupKind where
  /-- Zero is not looked for in the cache. -/
  | null
  | hit
  | miss
  | contended
deriving DecidableEq

namespace Lookup

def kind (l : Lookup) : LookupKind :=
  if l.address = 0 then .null
  else
    match l.probe with
    | .hit _ => .hit
    | .vacant _ => .miss
    | .contended => .contended

/-- The cache has no name for the address, which lies in a region: the source is asked. -/
def IsAsked (regions : List Region) (l : Lookup) : Prop :=
  l.address ≠ 0 ∧ l.probe.isHit = false ∧ ∃ region ∈ regions, region.contains l.address = true

instance (regions : List Region) (l : Lookup) : Decidable (l.IsAsked regions) :=
  inferInstanceAs (Decidable (_ ∧ _ ∧ _))

theorem kind_eq_null_iff {l : Lookup} : l.kind = .null ↔ l.address = 0 := by
  obtain ⟨address, probe⟩ := l
  by_cases hzero : address = 0
  · simp [kind, hzero]
  · cases probe <;> simp [kind, hzero]

theorem kind_eq_miss_iff {l : Lookup} :
    l.kind = .miss ↔ l.address ≠ 0 ∧ ∃ slot, l.probe = .vacant slot := by
  obtain ⟨address, probe⟩ := l
  by_cases hzero : address = 0
  · simp [kind, hzero]
  · cases probe <;> simp [kind, hzero]

/-- Every lookup is of one kind. -/
theorem countP_kind (lookups : List Lookup) :
    lookups.length = lookups.countP (·.kind = .null) + lookups.countP (·.kind = .hit) +
      lookups.countP (·.kind = .miss) + lookups.countP (·.kind = .contended) := by
  induction lookups with
  | nil => rfl
  | cons l lookups ih =>
    simp only [List.length_cons, List.countP_cons, ih]
    cases l.kind <;> simp <;> omega

end Lookup

namespace Resolver

variable {σ : Type} {r r' r₁ r₂ : Resolver σ} {address : UInt64} {name : String}

/-- The resolver over the source that keeps a record, with what is on record so far. -/
def recording (r : Resolver σ) (log : List Question) : Resolver (σ × List Question) where
  regions := r.regions
  source := r.source.recording
  state := (r.state, log)
  cache := r.cache
  stats := r.stats

/-- The lookups of a run. -/
def lookupsAlong (r : Resolver σ) : List UInt64 → List Lookup
  | [] => []
  | address :: addresses =>
    { address, probe := r.cache.probe address } ::
      match r.resolve address with
      | .ok (_, r) => r.lookupsAlong addresses
      | .error _ => []

/-- At some time in a run the cache has a name for the address. -/
def EverCached (r : Resolver σ) (addresses : List UInt64) (address : UInt64) : Prop :=
  ∃ (before after : List UInt64) (names : List String) (r₁ : Resolver σ),
    addresses = before ++ after ∧ r.resolveAll before = .ok (names, r₁) ∧
      ∃ name, r₁.cache.probe address = .hit name

theorem lookupsAlong_cons (h : r.resolve address = .ok (name, r₁)) (addresses : List UInt64) :
    r.lookupsAlong (address :: addresses) =
      { address, probe := r.cache.probe address } :: r₁.lookupsAlong addresses := by
  rw [lookupsAlong, h]

theorem lookupsAlong_append {front : List UInt64} {names : List String}
    (h : r.resolveAll front = .ok (names, r₁)) (back : List UInt64) :
    r.lookupsAlong (front ++ back) = r.lookupsAlong front ++ r₁.lookupsAlong back := by
  induction front generalizing r names with
  | nil =>
    cases h
    rfl
  | cons address front ih =>
    simp only [resolveAll, Checked.bind_eq_ok_iff] at h
    obtain ⟨⟨name, r₂⟩, hfirst, ⟨rest, r₃⟩, hrest, h⟩ := h
    cases h
    rw [List.cons_append, lookupsAlong_cons hfirst, lookupsAlong_cons hfirst, ih hrest,
      List.cons_append]

/-- A run looks up the addresses that it is given. -/
theorem map_address_lookupsAlong {addresses : List UInt64} {names : List String}
    (h : r.resolveAll addresses = .ok (names, r')) :
    (r.lookupsAlong addresses).map (·.address) = addresses := by
  induction addresses generalizing r names with
  | nil => rfl
  | cons address addresses ih =>
    simp only [resolveAll, Checked.bind_eq_ok_iff] at h
    obtain ⟨⟨name, r₂⟩, hfirst, ⟨rest, r₃⟩, hrest, h⟩ := h
    cases h
    rw [lookupsAlong_cons hfirst, List.map_cons, ih hrest]

/-- The lookups of kind null in a run are those of zero. -/
theorem count_zero_eq_countP_null {addresses : List UInt64} {names : List String}
    (h : r.resolveAll addresses = .ok (names, r')) :
    addresses.count 0 = (r.lookupsAlong addresses).countP (·.kind = .null) := by
  conv_lhs => rw [← map_address_lookupsAlong h, List.count_eq_countP, List.countP_map]
  refine List.countP_congr fun l _ => ?_
  simp [Lookup.kind_eq_null_iff]

/-! ## Section 2: What a run counts -/

/-- What some lookups add to the counts, with the questions that were asked. -/
structure Counted (r r' : Resolver σ) (lookups : List Lookup) (asked : List Question) :
    Prop where
  regions_eq : r'.regions = r.regions
  source_eq : r'.source = r.source
  lookups_eq : r'.stats.lookups = r.stats.lookups + lookups.length
  hits_eq : r'.stats.cacheHits = r.stats.cacheHits + lookups.countP (·.kind = .hit)
  misses_eq : r'.stats.cacheMisses = r.stats.cacheMisses + lookups.countP (·.kind = .miss)
  contended_eq :
    r'.stats.cacheContended = r.stats.cacheContended + lookups.countP (·.kind = .contended)
  calls_eq : r'.stats.externalCalls = r.stats.externalCalls + asked.length
  asked_eq : asked.length = lookups.countP (·.IsAsked r.regions)
  /-- A lookup without the cache ends in an answer that is a name, or in a name by default. -/
  named_eq : r'.stats.unresolved + asked.countP (·.answer.isSome) =
    r.stats.unresolved + lookups.countP (·.kind = .miss) + lookups.countP (·.kind = .contended)

namespace Counted

variable {lookups lookups' : List Lookup} {asked asked' : List Question}

theorem refl (r : Resolver σ) : Counted r r [] [] :=
  ⟨rfl, rfl, rfl, rfl, rfl, rfl, rfl, rfl, rfl⟩

theorem trans (h : Counted r r₁ lookups asked) (h' : Counted r₁ r₂ lookups' asked') :
    Counted r r₂ (lookups ++ lookups') (asked ++ asked') where
  regions_eq := h'.regions_eq.trans h.regions_eq
  source_eq := h'.source_eq.trans h.source_eq
  lookups_eq := by rw [h'.lookups_eq, h.lookups_eq, List.length_append, Nat.add_assoc]
  hits_eq := by rw [h'.hits_eq, h.hits_eq, List.countP_append, Nat.add_assoc]
  misses_eq := by rw [h'.misses_eq, h.misses_eq, List.countP_append, Nat.add_assoc]
  contended_eq := by rw [h'.contended_eq, h.contended_eq, List.countP_append, Nat.add_assoc]
  calls_eq := by rw [h'.calls_eq, h.calls_eq, List.length_append, Nat.add_assoc]
  asked_eq := by
    rw [List.length_append, List.countP_append, h.asked_eq, h'.asked_eq, h.regions_eq]
  named_eq := by
    have hfirst := h.named_eq
    have hlast := h'.named_eq
    simp only [List.countP_append]
    omega

end Counted

/-- How many regions are asked about an address: the first that holds it, if there is one. -/
def regionsAsked (r : Resolver σ) (address : UInt64) : Nat :=
  if ∃ region ∈ r.regions, region.contains address = true then 1 else 0

/-- The region of an address is asked about, and what comes back is on record. -/
theorem counted_ask {name? : Option String} (h : r.ask address = .ok (name?, r'))
    (log : List Question) :
    ∃ asked : List Question,
      (r.recording log).ask address = .ok (name?, r'.recording (log ++ asked)) ∧
      asked.length = r.regionsAsked address ∧
      asked.countP (·.answer.isSome) = name?.toList.length ∧
      r'.regions = r.regions ∧ r'.source = r.source ∧
      r'.stats = { r.stats with externalCalls := r.stats.externalCalls + asked.length } := by
  unfold ask at h
  split at h
  case h_1 hfind =>
    cases h
    have hnone : ¬∃ region ∈ r.regions, region.contains address = true := by
      rintro ⟨region, hregion, hcontains⟩
      exact List.find?_eq_none.mp hfind region hregion hcontains
    refine ⟨[], ?_, by rw [regionsAsked, if_neg hnone]; rfl, rfl, rfl, rfl, rfl⟩
    simp only [ask, recording, hfind, List.append_nil]
  case h_2 region hfind =>
    have hsome : ∃ region ∈ r.regions, region.contains address = true :=
      ⟨region, List.mem_of_find?_eq_some hfind, by simpa using List.find?_some hfind⟩
    simp only [Checked.bind_eq_ok_iff] at h
    obtain ⟨offset, hoffset, ⟨answer, state⟩, hlookup, h⟩ := h
    cases h
    refine ⟨[{ path := region.path, offset, answer }], ?_, ?_, ?_, rfl, rfl, rfl⟩
    · simp only [ask, recording, hfind, hoffset, NameSource.recording, hlookup, bind, Except.bind,
        pure, Except.pure]
    · rw [regionsAsked, if_pos hsome]
      rfl
    · cases answer <;> rfl

/-- A name that is not remembered is an answer of the source, or a name by default. -/
theorem counted_resolveUncached (h : r.resolveUncached address = .ok (name, r'))
    (log : List Question) :
    ∃ (asked : List Question) (unnamed : Nat),
      (r.recording log).resolveUncached address = .ok (name, r'.recording (log ++ asked)) ∧
      asked.length = r.regionsAsked address ∧
      unnamed + asked.countP (·.answer.isSome) = 1 ∧
      r'.regions = r.regions ∧ r'.source = r.source ∧
      r'.stats = { r.stats with
        externalCalls := r.stats.externalCalls + asked.length
        unresolved := r.stats.unresolved + unnamed } := by
  simp only [resolveUncached, Checked.bind_eq_ok_iff] at h
  obtain ⟨⟨name?, r₁⟩, hask, h⟩ := h
  obtain ⟨asked, hrecord, hlength, hnamed, hregions, hsource, hstats⟩ := counted_ask hask log
  cases name? with
  | some found =>
    cases h
    refine ⟨asked, 0, ?_, hlength, by rw [hnamed]; rfl, hregions, hsource, hstats⟩
    simp only [resolveUncached, hrecord, bind, Except.bind, pure, Except.pure]
  | none =>
    cases h
    refine ⟨asked, 1, ?_, hlength, by rw [hnamed]; rfl, hregions, hsource, by rw [hstats]⟩
    simp only [resolveUncached, hrecord, bind, Except.bind, pure, Except.pure]
    rfl

/-- A lookup that the cache does not decide is a miss or a contended one, and the source is asked if
the address lies in a region. -/
theorem Counted.of_open {l : Lookup} (hzero : l.address ≠ 0) (hopen : l.probe.isHit = false)
    {asked : List Question} {unnamed : Nat} (hlength : asked.length = r.regionsAsked l.address)
    (hnamed : unnamed + asked.countP (·.answer.isSome) = 1) (hregions : r'.regions = r.regions)
    (hsource : r'.source = r.source)
    (hstats : r'.stats = { r.stats with
      lookups := r.stats.lookups + 1
      cacheMisses := r.stats.cacheMisses + [l].countP (·.kind = .miss)
      cacheContended := r.stats.cacheContended + [l].countP (·.kind = .contended)
      externalCalls := r.stats.externalCalls + asked.length
      unresolved := r.stats.unresolved + unnamed }) :
    Counted r r' [l] asked := by
  have hnull : l.kind ≠ .null ∧ l.kind ≠ .hit := by
    obtain ⟨address, probe⟩ := l
    cases probe <;> simp_all [Lookup.kind, Probe.isHit]
  -- so it is one of the other two kinds, and each lookup of these gets a name in one of two ways
  have hkinds := Lookup.countP_kind [l]
  simp only [List.length_singleton, List.countP_singleton, decide_eq_true_eq, if_neg hnull.1,
    if_neg hnull.2, Nat.zero_add] at hkinds
  constructor
  case regions_eq => exact hregions
  case source_eq => exact hsource
  case asked_eq =>
    rw [hlength, regionsAsked, List.countP_singleton]
    simp only [Lookup.IsAsked, decide_eq_true_eq, ne_eq, hzero, hopen, not_false_eq_true, true_and]
  case hits_eq => simp [hstats, hnull.2]
  case named_eq =>
    simp only [hstats, List.countP_singleton, decide_eq_true_eq]
    omega
  all_goals rw [hstats]
  all_goals rfl

/-- **One lookup** counts as what it is. -/
theorem counted_resolve (h : r.resolve address = .ok (name, r')) (log : List Question) :
    ∃ asked : List Question,
      (r.recording log).resolve address = .ok (name, r'.recording (log ++ asked)) ∧
      Counted r r' [{ address, probe := r.cache.probe address }] asked := by
  have hcache : (r.recording log).cache = r.cache := rfl
  unfold resolve at h
  by_cases hzero : address = 0
  · rw [if_pos hzero] at h
    cases h
    -- zero is counted as a lookup and as nothing else
    refine ⟨[], by rw [resolve, if_pos hzero, List.append_nil]; rfl, ?_⟩
    constructor <;> simp [Lookup.kind, Lookup.IsAsked, hzero]
  · simp only [if_neg hzero] at h
    cases hprobe : r.cache.probe address with
    | hit found =>
      simp only [hprobe] at h
      cases h
      refine ⟨[], ?_, ?_⟩
      · simp only [resolve, if_neg hzero, hcache, hprobe, List.append_nil]
        rfl
      · constructor <;> simp [Lookup.kind, Lookup.IsAsked, hzero, Probe.isHit]
    | vacant slot =>
      -- the slot is filled afterwards, which no count depends on
      simp only [hprobe, Checked.bind_eq_ok_iff] at h
      obtain ⟨⟨found, r₁⟩, hname, h⟩ := h
      obtain ⟨asked, unnamed, hrecord, hlength, hnamed, hregions, hsource, hstats⟩ :=
        counted_resolveUncached hname log
      cases h
      refine ⟨asked, ?_, .of_open hzero rfl hlength hnamed hregions hsource ?_⟩
      · simp only [resolve, if_neg hzero, hcache, hprobe]
        exact congrArg (· >>= _) hrecord
      · simp [hstats, Lookup.kind, hzero]
    | contended =>
      simp only [hprobe] at h
      obtain ⟨asked, unnamed, hrecord, hlength, hnamed, hregions, hsource, hstats⟩ :=
        counted_resolveUncached h log
      refine ⟨asked, ?_, .of_open hzero rfl hlength hnamed hregions hsource ?_⟩
      · simp only [resolve, if_neg hzero, hcache, hprobe]
        exact hrecord
      · simp [hstats, Lookup.kind, hzero]

/-- **A run of lookups** counts as its lookups do. -/
theorem counted_resolveAll {addresses : List UInt64} {names : List String}
    (h : r.resolveAll addresses = .ok (names, r')) (log : List Question) :
    ∃ asked : List Question,
      (r.recording log).resolveAll addresses = .ok (names, r'.recording (log ++ asked)) ∧
      Counted r r' (r.lookupsAlong addresses) asked := by
  induction addresses generalizing r names log with
  | nil =>
    cases h
    exact ⟨[], by rw [List.append_nil]; rfl, .refl _⟩
  | cons address addresses ih =>
    simp only [resolveAll, Checked.bind_eq_ok_iff] at h
    obtain ⟨⟨name, r₁⟩, hfirst, ⟨rest, r₂⟩, hrest, h⟩ := h
    cases h
    obtain ⟨asked, hrecord, hcounted⟩ := counted_resolve hfirst log
    obtain ⟨asked', hrecord', hcounted'⟩ := ih hrest (log ++ asked)
    refine ⟨asked ++ asked', ?_, ?_⟩
    · rw [← List.append_assoc]
      simp only [resolveAll, hrecord, hrecord', bind, Except.bind, pure, Except.pure]
    · rw [lookupsAlong_cons hfirst]
      exact hcounted.trans hcounted'

/-- **Any run of calls** counts as its lookups do, and the source is asked what is on record. -/
theorem counted_answerAll {calls : List NameCall} {answers : List (List String)}
    (h : r.answerAll calls = .ok (answers, r')) (log : List Question) :
    ∃ asked : List Question,
      (r.recording log).answerAll calls = .ok (answers, r'.recording (log ++ asked)) ∧
      Counted r r' (r.lookupsAlong (calls.flatMap (·.addresses))) asked := by
  induction calls generalizing r answers log with
  | nil =>
    cases h
    exact ⟨[], by rw [List.append_nil]; rfl, .refl _⟩
  | cons call calls ih =>
    simp only [answerAll, Checked.bind_eq_ok_iff] at h
    obtain ⟨⟨names, r₁⟩, hfirst, ⟨rest, r₂⟩, hrest, h⟩ := h
    cases h
    rw [answer_eq] at hfirst
    obtain ⟨asked, hrecord, hcounted⟩ := counted_resolveAll hfirst log
    obtain ⟨asked', hrecord', hcounted'⟩ := ih hrest (log ++ asked)
    refine ⟨asked ++ asked', ?_, ?_⟩
    · rw [← List.append_assoc]
      simp only [answerAll, answer_eq, hrecord, hrecord', bind, Except.bind, pure, Except.pure]
    · rw [List.flatMap_cons, lookupsAlong_append hfirst]
      exact hcounted.trans hcounted'

/-! ## Section 3: What a run puts into the cache -/

/-- **A miss** puts the address into the cache, and no other lookup touches it. -/
theorem exists_fillAll?_of_resolve (h : r.resolve address = .ok (name, r')) :
    ∃ entries, r.cache.fillAll? entries = some r'.cache ∧
      entries.length =
        [{ address, probe := r.cache.probe address : Lookup }].countP (·.kind = .miss) := by
  by_cases hmiss : address ≠ 0 ∧ ∃ slot, r.cache.probe address = .vacant slot
  · have hkind :=
      Lookup.kind_eq_miss_iff (l := { address, probe := r.cache.probe address }).mpr hmiss
    obtain ⟨hzero, slot, hvacant⟩ := hmiss
    refine ⟨[{ address, name }], ?_, by simp [hkind]⟩
    rw [cache_resolve_of_vacant hzero hvacant h]
    simp [SymbolCache.fillAll?, SymbolCache.fillVacant?, hvacant]
  · refine ⟨[], by rw [cache_resolve_of_not_vacant h hmiss]; rfl, ?_⟩
    rw [← Lookup.kind_eq_miss_iff (l := { address, probe := r.cache.probe address })] at hmiss
    simp [hmiss]

theorem exists_fillAll?_of_resolveAll {addresses : List UInt64} {names : List String}
    (h : r.resolveAll addresses = .ok (names, r')) :
    ∃ entries, r.cache.fillAll? entries = some r'.cache ∧
      entries.length = (r.lookupsAlong addresses).countP (·.kind = .miss) := by
  induction addresses generalizing r names with
  | nil =>
    cases h
    exact ⟨[], rfl, rfl⟩
  | cons address addresses ih =>
    simp only [resolveAll, Checked.bind_eq_ok_iff] at h
    obtain ⟨⟨name, r₁⟩, hfirst, ⟨rest, r₂⟩, hrest, h⟩ := h
    cases h
    obtain ⟨entries, hfill, hlength⟩ := exists_fillAll?_of_resolve hfirst
    obtain ⟨entries', hfill', hlength'⟩ := ih hrest
    refine ⟨entries ++ entries', ?_, ?_⟩
    · rw [SymbolCache.fillAll?, List.foldlM_append]
      exact Option.bind_eq_some_iff.mpr ⟨_, hfill, hfill'⟩
    · rw [lookupsAlong_cons hfirst, ← List.singleton_append, List.countP_append, List.length_append,
        hlength, hlength']

end Resolver

/-- What a cache holds after some entries was there before, or is one of them. -/
theorem SymbolCache.mem_or_stores_of_fillAll? {c c' : SymbolCache} {entries : List CacheEntry}
    (hfill : c.fillAll? entries = some c') {entry : CacheEntry} (h : c'.Stores entry) :
    entry ∈ entries ∨ c.Stores entry := by
  induction entries generalizing c with
  | nil =>
    cases hfill
    exact .inr h
  | cons first entries ih =>
    obtain ⟨slot, -, hrest⟩ := fillAll?_cons_eq_some hfill
    rcases ih hrest with hmem | hstores
    · exact .inl (List.mem_cons_of_mem _ hmem)
    · rcases eq_or_stores_of_stores_fill hstores with rfl | hstores
      · exact .inl List.mem_cons_self
      · exact .inr hstores

namespace Resolver

variable {σ : Type} {r r' : Resolver σ}

/-- The addresses that a new resolver has names for are those of the entries that went into its
cache. -/
theorem mem_entries_iff_everCached {regions : List Region} {source : NameSource σ} {state : σ}
    {config : CacheConfig} (hnew : Resolver.ofRegions regions source state config = .ok r)
    {addresses : List UInt64} {names : List String}
    (hrun : r.resolveAll addresses = .ok (names, r')) {entries : List CacheEntry}
    (hfill : r.cache.fillAll? entries = some r'.cache) (address : UInt64) :
    address ∈ entries.map (·.address) ↔ r.EverCached addresses address := by
  simp only [Resolver.ofRegions, Checked.bind_eq_ok_iff] at hnew
  obtain ⟨cache, hcache, hr⟩ := hnew
  cases hr
  have hsound := (SymbolCache.sound_of_ofConfig hcache).1
  constructor
  · intro hmem
    obtain ⟨entry, hentry, rfl⟩ := List.mem_map.mp hmem
    have hfound := (hsound.entries_of_fillAll hfill).1 entry hentry
    exact ⟨addresses, [], names, r', (List.append_nil _).symm, hrun, entry.name, hfound⟩
  · rintro ⟨before, after, names₁, r₁, rfl, hbefore, name, hhit⟩
    -- what was found along the run is found at its end
    rw [resolveAll_append, hbefore, Checked.bind_eq_ok_iff] at hrun
    obtain ⟨⟨names₂, r₂⟩, hfirst, hrun⟩ := hrun
    cases hfirst
    obtain ⟨⟨names₃, r₃⟩, hafter, hlast⟩ := Checked.bind_eq_ok_iff.mp hrun
    cases hlast
    have hpos := (extends_resolveAll hsound.capacity_pos hbefore).capacity_pos hsound.capacity_pos
    have hend := (extends_resolveAll hpos hafter).probe_eq_hit hhit
    have hstores := SymbolCache.stores_of_probe_eq_hit hend
    rcases SymbolCache.mem_or_stores_of_fillAll? hfill hstores with hmem | hold
    · exact List.mem_map_of_mem hmem
    · exact absurd hold (SymbolCache.not_stores_of_ofConfig hcache)

/-! ## Section 4: Runs over any source -/

theorem exists_ask (hsource : r.source.IsTotal) {address : UInt64}
    (hfits : OffsetFits r.regions address) : ∃ answer, r.ask address = .ok answer := by
  unfold ask
  cases hfind : r.regions.find? (·.contains address) with
  | none => exact ⟨_, rfl⟩
  | some region =>
    have hcontains : region.contains address = true := by simpa using List.find?_some hfind
    have hoffset := Region.fileOffset_eq_ok hcontains (hfits region hfind)
    obtain ⟨answer, hlookup⟩ :=
      hsource r.state region.path (UInt64.ofNat (region.offsetOf address))
    simp only [hoffset, hlookup, bind, Except.bind]
    exact ⟨_, rfl⟩

theorem exists_resolveUncached (hsource : r.source.IsTotal) {address : UInt64}
    (hfits : OffsetFits r.regions address) :
    ∃ answer, r.resolveUncached address = .ok answer := by
  obtain ⟨⟨name?, r₁⟩, hask⟩ := exists_ask hsource hfits
  simp only [resolveUncached, hask, bind, Except.bind]
  cases name? <;> exact ⟨_, rfl⟩

/-- A lookup is answered, if the offset of the address is a word. -/
theorem exists_resolve (hsource : r.source.IsTotal) {address : UInt64}
    (hfits : OffsetFits r.regions address) :
    ∃ name r', r.resolve address = .ok (name, r') := by
  unfold resolve
  by_cases hzero : address = 0
  · rw [if_pos hzero]
    exact ⟨_, _, rfl⟩
  · simp only [if_neg hzero]
    have huncached (stats : ResolverStats) :
        ∃ answer, { r with stats }.resolveUncached address = .ok answer :=
      @exists_resolveUncached σ { r with stats } hsource address hfits
    cases r.cache.probe address with
    | hit name => exact ⟨_, _, rfl⟩
    | vacant slot =>
      obtain ⟨answer, hname⟩ := huncached _
      dsimp only
      rw [hname]
      exact ⟨_, _, rfl⟩
    | contended =>
      obtain ⟨⟨name, r'⟩, hname⟩ := huncached _
      exact ⟨name, r', hname⟩

theorem exists_resolveAll (hsource : r.source.IsTotal) {addresses : List UInt64}
    (hfits : ∀ address ∈ addresses, OffsetFits r.regions address) :
    ∃ names r', r.resolveAll addresses = .ok (names, r') := by
  induction addresses generalizing r with
  | nil => exact ⟨[], r, rfl⟩
  | cons address addresses ih =>
    obtain ⟨hfirst, hrest⟩ := List.forall_mem_cons.mp hfits
    obtain ⟨name, r₁, hresolve⟩ := exists_resolve hsource hfirst
    obtain ⟨asked, -, hcounted⟩ := counted_resolve hresolve []
    obtain ⟨names, r₂, hall⟩ := ih (hcounted.source_eq ▸ hsource) (hcounted.regions_eq ▸ hrest)
    refine ⟨name :: names, r₂, ?_⟩
    simp only [resolveAll, hresolve, hall, bind, Except.bind, pure, Except.pure]

/-- **Calls are answered** by every source that does not fail, if the offsets are words. -/
theorem exists_answerAll (hsource : r.source.IsTotal) {calls : List NameCall}
    (hfits : ∀ call ∈ calls, call.Fits r.regions) :
    ∃ answers r', r.answerAll calls = .ok (answers, r') := by
  have hfitsAll : ∀ address ∈ calls.flatMap (·.addresses), OffsetFits r.regions address := by
    intro address hmem
    obtain ⟨call, hcall, haddress⟩ := List.mem_flatMap.mp hmem
    exact hfits call hcall address haddress
  obtain ⟨names, r', hall⟩ := exists_resolveAll hsource hfitsAll
  rw [resolveAll_flatMap] at hall
  cases hrun : r.answerAll calls with
  | error fault => simp [hrun, Except.map] at hall
  | ok found => exact ⟨found.1, found.2, rfl⟩

/-! ## Section 5: The balance -/

/-- How the counts at the end of a run hang together, with the questions that were asked and the
addresses that were cached. -/
structure Balanced (r r' : Resolver σ) (addresses : List UInt64) (log : List Question)
    (cached : List UInt64) : Prop where
  /-- Every lookup is of zero, or it is decided by the cache in one of three ways. -/
  lookups_eq : r'.stats.lookups =
    addresses.count 0 + r'.stats.cacheHits + r'.stats.cacheMisses + r'.stats.cacheContended
  misses_eq : r'.stats.cacheMisses = r'.cachedSymbols
  cached_eq : r'.cachedSymbols = cached.length
  /-- What the cache does not decide gets a name from the source or one by default. -/
  named_eq : r'.stats.cacheMisses + r'.stats.cacheContended =
    r'.stats.unresolved + log.countP (·.answer.isSome)
  calls_eq : r'.stats.externalCalls = log.length
  asked_eq : r'.stats.externalCalls = (r.lookupsAlong addresses).countP (·.IsAsked r.regions)

/-- A run from empty counts balances if it put as many addresses into the cache as it missed. -/
theorem Counted.balanced {addresses : List UInt64} {names : List String} {log : List Question}
    {cached : List UInt64} (hstart : r.stats = {})
    (hrun : r.resolveAll addresses = .ok (names, r'))
    (hcounted : Counted r r' (r.lookupsAlong addresses) log)
    (hsize : r'.cachedSymbols = cached.length)
    (hmissed : cached.length = (r.lookupsAlong addresses).countP (·.kind = .miss)) :
    r.Balanced r' addresses log cached := by
  have hkinds := Lookup.countP_kind (r.lookupsAlong addresses)
  have hnull := count_zero_eq_countP_null hrun
  obtain ⟨-, -, hlookups, hhits, hmisses, hcontended, hcalls, hasked, hnamed⟩ := hcounted
  simp only [hstart, Nat.zero_add] at hlookups hhits hmisses hcontended hcalls hnamed
  constructor
  · rw [hlookups, hkinds, hnull, hhits, hmisses, hcontended]
  · rw [hmisses, hsize, hmissed]
  · exact hsize
  · rw [hmisses, hcontended, hnamed]
  · exact hcalls
  · rw [hcalls, hasked]

/--
**The counts balance.** A new resolver, over any regions, any sizes of the cache and any source of
names, whatever its answers depend on, is given calls for addresses and for samples. If no offset
overflows, all calls are answered by a source that does not fail. After calls that were answered,
the counts agree with each other, with the number of addresses that have ever been in the cache,
and with the questions that a record of the source shows: as many as there were lookups, not of
zero and not remembered, of addresses in some region. The call for a sample counts one lookup for
each of its frames.
-/
theorem statistics_balance {regions : List Region} {source : NameSource σ} {state : σ}
    {config : CacheConfig} (hnew : Resolver.ofRegions regions source state config = .ok r)
    (calls : List NameCall) :
    (source.IsTotal → (∀ call ∈ calls, call.Fits regions) →
      ∃ answers r', r.answerAll calls = .ok (answers, r')) ∧
    (∀ answers r', r.answerAll calls = .ok (answers, r') →
      ∃ log cached, (r.recording []).answerAll calls = .ok (answers, r'.recording log) ∧
        cached.Nodup ∧
        (∀ address, address ∈ cached ↔ r.EverCached (calls.flatMap (·.addresses)) address) ∧
        r.Balanced r' (calls.flatMap (·.addresses)) log cached) ∧
    ∀ (r₁ r₂ : Resolver σ) (sample : RawSample) (names : List String),
      r₁.resolveSample sample = .ok (names, r₂) →
      r₂.stats.lookups = r₁.stats.lookups + sample.frames.length := by
  obtain ⟨cache, hcache, hr⟩ := Checked.bind_eq_ok_iff.mp hnew
  obtain ⟨hsound, -, hempty⟩ := SymbolCache.sound_of_ofConfig hcache
  refine ⟨?_, ?_, ?_⟩
  · cases hr
    exact fun hsource hfits => exists_answerAll hsource hfits
  · intro answers r' hrun
    obtain ⟨log, hrecord, hcounted⟩ := counted_answerAll hrun []
    have hall : r.resolveAll (calls.flatMap (·.addresses)) = .ok (answers.flatten, r') := by
      rw [resolveAll_flatMap, hrun]
      rfl
    obtain ⟨entries, hfill, hlength⟩ := exists_fillAll?_of_resolveAll hall
    have hever := mem_entries_iff_everCached hnew hall hfill
    cases hr
    have hsize : r'.cachedSymbols = (entries.map (·.address)).length := by
      rw [cachedSymbols, SymbolCache.size, (hsound.fillAll hfill).2.2, hempty, Nat.zero_add,
        List.length_map]
    refine ⟨log, entries.map (·.address), hrecord, (hsound.entries_of_fillAll hfill).2, hever, ?_⟩
    exact hcounted.balanced rfl hall hsize (by rw [List.length_map, hlength])
  · intro r₁ r₂ sample names hsample
    obtain ⟨asked, -, hcounted⟩ := counted_resolveAll hsample []
    rw [hcounted.lookups_eq, ← List.length_map (·.address), map_address_lookupsAlong hsample,
      lookupAddresses, List.length_mapIdx]

private def toolRegion : Region where
  start := 0x1000
  stop := 0x2000
  offset := 0x400
  permissions := "r-xp"
  path := "/bin/tool"

/-- A source that answers once. -/
private def forgetfulSource : NameSource Nat where
  lookup asked _ _ := .ok (if asked = 0 then some "leaf" else none, asked + 1)

private def oneSlotResolver : Resolver Nat where
  regions := [toolRegion]
  source := forgetfulSource
  state := 0
  cache := { entries := #[none], probes := 1 }

private def mixedCalls : List NameCall :=
  [.ofAddress 0x1010, .ofSample (.ofFrames [0x1010, 0x1021]), .ofSample (.ofFrames [0, 0x3001])]

private theorem ofRegions_oneSlotResolver :
    Resolver.ofRegions [toolRegion] forgetfulSource 0 { slots := 1, probes := 1 } =
      .ok oneSlotResolver := by
  have hslots : Nat.nextPowerOfTwo 1 = 1 := by decide +kernel
  simp [Resolver.ofRegions, SymbolCache.ofConfig, hslots, Checked.fit, wordLimit, oneSlotResolver,
    bind, Except.bind, pure, Except.pure]

private def oneSlotRun : Resolver Nat where
  regions := [toolRegion]
  source := forgetfulSource
  state := 2
  cache := { entries := #[some { address := 0x1010, name := "leaf" }], probes := 1, filled := 1 }
  stats := {
    lookups := 5, cacheHits := 1, cacheMisses := 1, cacheContended := 2, externalCalls := 2
    unresolved := 2 }

private def oneSlotLog : List Question :=
  [{ path := "/bin/tool", offset := 0x410, answer := some "leaf" },
   { path := "/bin/tool", offset := 0x420, answer := none }]

/-- Five lookups: a miss, a hit, one of zero and two contended ones, of which one lies in the
region. The source is asked twice and knows a name once. The last sample alone counts two. -/
theorem statistics_balance_one_slot :
    (∃ answers r', oneSlotResolver.answerAll mixedCalls = .ok (answers, r')) ∧
    oneSlotResolver.answerAll mixedCalls =
      .ok ([["leaf"], ["leaf", "[unknown]"], ["[null]", "[unknown]"]], oneSlotRun) ∧
    (∃ cached, cached.Nodup ∧ oneSlotResolver.Balanced oneSlotRun
      (mixedCalls.flatMap (·.addresses)) oneSlotLog cached) ∧
    ∃ names r', oneSlotResolver.resolveSample (.ofFrames [0, 0x3001]) = .ok (names, r') ∧
      r'.stats.lookups = 0 + 2 := by
  obtain ⟨hanswered, hbalanced, hsample⟩ := statistics_balance ofRegions_oneSlotResolver mixedCalls
  have htotal : forgetfulSource.IsTotal := fun _ _ _ => ⟨_, rfl⟩
  have hfits : ∀ call ∈ mixedCalls, call.Fits [toolRegion] := by decide +kernel
  have hrun : oneSlotResolver.answerAll mixedCalls =
      .ok ([["leaf"], ["leaf", "[unknown]"], ["[null]", "[unknown]"]], oneSlotRun) := rfl
  obtain ⟨names, r', hlast⟩ :
      ∃ names r', oneSlotResolver.resolveSample (.ofFrames [0, 0x3001]) = .ok (names, r') :=
    ⟨_, _, rfl⟩
  refine ⟨hanswered htotal hfits, hrun, ?_, names, r', hlast, hsample _ _ _ _ hlast⟩
  obtain ⟨log, cached, hrecord, hnodup, -, hbalance⟩ := hbalanced _ _ hrun
  have hlog : log = oneSlotLog := by
    have hshown : (oneSlotResolver.recording []).answerAll mixedCalls =
        .ok ([["leaf"], ["leaf", "[unknown]"], ["[null]", "[unknown]"]],
          oneSlotRun.recording oneSlotLog) := rfl
    rw [hshown] at hrecord
    injection hrecord with hpair
    exact (congrArg (·.2.state.2) hpair).symm
  exact ⟨cached, hnodup, hlog ▸ hbalance⟩

end Resolver

end StackProfiler
