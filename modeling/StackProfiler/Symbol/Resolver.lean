import StackProfiler.FrameFilter
import StackProfiler.Sample.Basic
import StackProfiler.Symbol.Cache
import StackProfiler.Symbol.MemoryMap
import StackProfiler.Text.NumberRecord

/-!
# Naming addresses

Every address gets a name. Zero has a name of its own. Any other address is looked for in the
cache, and then, at its offset in the file of the first region that holds it, in a source of names;
an address that stays unnamed is named by the half of the address space it lies in. Names found
and names by default are remembered alike.

All frames of a sample but the deepest hold return addresses, which point behind the call; they are
looked up one below.
-/

namespace StackProfiler

/-- A source of function names at offsets in files; what it answers may change its state. -/
structure NameSource (σ : Type) where
  lookup : σ → (path : String) → (offset : UInt64) → Checked (Option String × σ)

/-- Counts of what happened while names were looked up. -/
structure ResolverStats where
  lookups : Nat := 0
  cacheHits : Nat := 0
  cacheMisses : Nat := 0
  /-- Lookups of contended addresses. -/
  cacheContended : Nat := 0
  /-- Questions put to the source of names. -/
  externalCalls : Nat := 0
  /-- Lookups that ended in a name by default. -/
  unresolved : Nat := 0
deriving DecidableEq, Repr

def ResolverStats.record (s : ResolverStats) : Text.NumberRecord :=
  .record "ResolverStats"
    [("lookups", .number s.lookups), ("cache_hits", .number s.cacheHits),
     ("cache_misses", .number s.cacheMisses), ("cache_contended", .number s.cacheContended),
     ("external_calls", .number s.externalCalls), ("unresolved", .number s.unresolved)]

/-- A table of regions and a source of names, with what has been learnt from it. -/
structure Resolver (σ : Type) where
  regions : List Region
  source : NameSource σ
  state : σ
  cache : SymbolCache
  stats : ResolverStats := {}

namespace Resolver

variable {σ : Type}

def ofRegions (regions : List Region) (source : NameSource σ) (state : σ) (config : CacheConfig) :
    Checked (Resolver σ) := do
  let cache ← SymbolCache.ofConfig config
  return { regions, source, state, cache }

/-- The name of an address that was not found anywhere. -/
def defaultName (address : UInt64) : String :=
  if kernelSpaceStart ≤ address then kernelSymbol else unknownSymbol

/-- The address to look up for the frame at an index of a sample. -/
def lookupAddress (index : Nat) (address : UInt64) : UInt64 :=
  -- the leaf was interrupted, all others were left by a call
  if index = 0 then address else UInt64.ofNat (address.toNat - 1)

/-- The name that the source gives to an address, if it lies in a region. -/
def ask (r : Resolver σ) (address : UInt64) : Checked (Option String × Resolver σ) :=
  match r.regions.find? (·.contains address) with
  | none => .ok (none, r)
  | some region => do
    let offset ← region.fileOffset address
    let (name?, state) ← r.source.lookup r.state region.path offset
    let stats := { r.stats with externalCalls := r.stats.externalCalls + 1 }
    return (name?, { r with state, stats })

/-- The name of an address, without the cache. -/
def resolveUncached (r : Resolver σ) (address : UInt64) : Checked (String × Resolver σ) := do
  let (name?, r) ← r.ask address
  match name? with
  | some name => return (name, r)
  | none =>
    let stats := { r.stats with unresolved := r.stats.unresolved + 1 }
    return (defaultName address, { r with stats })

def resolve (r : Resolver σ) (address : UInt64) : Checked (String × Resolver σ) :=
  let stats := { r.stats with lookups := r.stats.lookups + 1 }
  if address = 0 then .ok (nullSymbol, { r with stats })
  else
    match r.cache.probe address with
    | .hit name => .ok (name, { r with stats := { stats with cacheHits := stats.cacheHits + 1 } })
    | .vacant slot => do
      let stats := { stats with cacheMisses := stats.cacheMisses + 1 }
      let (name, r) ← { r with stats }.resolveUncached address
      -- the slot is still the first empty one: naming does not touch the cache
      return (name, { r with cache := r.cache.fill slot address name })
    | .contended =>
      { r with stats := { stats with cacheContended := stats.cacheContended + 1 } }.resolveUncached
        address

/-- The names of several addresses, asked in order. -/
def resolveAll (r : Resolver σ) : List UInt64 → Checked (List String × Resolver σ)
  | [] => .ok ([], r)
  | address :: addresses => do
    let (name, r) ← r.resolve address
    let (names, r) ← r.resolveAll addresses
    return (name :: names, r)

/-- The addresses to look up for the frames of a sample. -/
def lookupAddresses (frames : List UInt64) : List UInt64 :=
  frames.mapIdx lookupAddress

/-- The names of the frames of a sample, deepest first. -/
def resolveSample (r : Resolver σ) (sample : RawSample) : Checked (List String × Resolver σ) :=
  r.resolveAll (lookupAddresses sample.frames)

/-- Number of addresses whose names are remembered. -/
def cachedSymbols (r : Resolver σ) : Nat :=
  r.cache.size

end Resolver

end StackProfiler
