import StackProfiler.Checked

/-!
# The symbol cache

A table of a fixed size that remembers the names of addresses. An address has a home slot and a
probe path of a bounded number of slots from there on, wrapping at the end of the table. Entries
are never moved or removed. If all slots of the path hold other addresses, the address is
contended and its name is not remembered.
-/

namespace StackProfiler

/-- Sizes of a symbol cache. -/
structure CacheConfig where
  /-- Number of slots, rounded up to a power of two. -/
  slots : Nat := 65536
  /-- Most slots that are looked at for one address. -/
  probes : Nat := 16
deriving DecidableEq, Repr

/-- An address and its name. -/
structure CacheEntry where
  address : UInt64
  name : String
deriving DecidableEq, Repr

/-- What looking for an address finds. -/
inductive Probe where
  | hit (name : String)
  /-- The address is absent, and this is the first empty slot of its path. -/
  | vacant (slot : Nat)
  /-- Every slot of the path holds another address. -/
  | contended
deriving DecidableEq, Repr

/-- A table of named addresses. -/
structure SymbolCache where
  entries : Array (Option CacheEntry)
  probes : Nat
  /-- Number of slots in use. -/
  filled : Nat := 0

namespace SymbolCache

def ofConfig (config : CacheConfig) : Checked SymbolCache := do
  -- a size of zero stands for one
  let slots ← Checked.fit 64 (max config.slots 1).nextPowerOfTwo
  return {
    entries := Array.replicate slots none
    probes := min (max config.probes 1) slots }

def capacity (c : SymbolCache) : Nat :=
  c.entries.size

/-- Number of addresses that are remembered. -/
def size (c : SymbolCache) : Nat :=
  c.filled

/-- Whether no address is remembered. -/
def isEmpty (c : SymbolCache) : Bool :=
  c.filled == 0

/-- The multiplicative hash of an address: the low half of its product with a constant. -/
def hash (address : UInt64) : UInt32 :=
  (address * 2654435761).toUInt32

/-- The first slot of an address's path. -/
def home (c : SymbolCache) (address : UInt64) : Nat :=
  (hash address).toNat % c.capacity

/-- The slot at a step of an address's path. -/
def slotAt (c : SymbolCache) (address : UInt64) (step : Nat) : Nat :=
  (c.home address + step) % c.capacity

/-- Looks for an address in so many slots of a path, from a step on. -/
def probeAlong (c : SymbolCache) (address : UInt64) (path : Nat → Nat) : (count step : Nat) → Probe
  | 0, _ => .contended
  | count + 1, step =>
    match c.entries[path step]? with
    | none => .vacant (path step)
    | some none => .vacant (path step)
    | some (some entry) =>
      if entry.address = address then .hit entry.name
      else c.probeAlong address path count (step + 1)

/-- Looks for an address. -/
def probe (c : SymbolCache) (address : UInt64) : Probe :=
  c.probeAlong address (c.slotAt address) c.probes 0

/-- Puts an address and its name into a slot; a slot outside the table is ignored. -/
def fill (c : SymbolCache) (slot : Nat) (address : UInt64) (name : String) : SymbolCache :=
  match c.entries[slot]? with
  | none => c
  | some old =>
    { c with
      entries := c.entries.setIfInBounds slot (some { address, name })
      filled := if old.isNone then c.filled + 1 else c.filled }

end SymbolCache

end StackProfiler
