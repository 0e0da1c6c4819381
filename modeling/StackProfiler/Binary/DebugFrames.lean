import StackProfiler.Binary.DebugInfo

/-!
# Functions in debug information

Which functions an address belongs to: the function whose code it lies in and the calls in that
function that were replaced by the called function's body, the innermost first. A malformed unit
gives no answer.
-/

namespace StackProfiler.Binary

/-- Code from an address up to another, and what it belongs to. -/
structure CodeRange (α : Type) where
  low : UInt64
  high : UInt64
  owner : α

namespace CodeRange

variable {α : Type}

/-- The range that starts last among those that start at or below an address; of several that
start there, the last. -/
def nearest? (ranges : List (CodeRange α)) (address : UInt64) : Option (CodeRange α) :=
  ranges.foldl
    (fun best r =>
      if r.low ≤ address ∧ best.all (fun b => b.low ≤ r.low) then some r else best) none

/-- The nearest range, provided that the address lies in it. -/
def covering? (ranges : List (CodeRange α)) (address : UInt64) : Option (CodeRange α) :=
  (nearest? ranges address).filter fun r => address < r.high

end CodeRange

namespace DebugValue

def text? : DebugValue → Option (List UInt8)
  | text bytes => some bytes
  | _ => none

end DebugValue

namespace DebugEntry

/-- Whether an attribute holds the name that the linker sees. -/
def isLinkageName (name : Nat) : Bool :=
  name == linkageName || name == olderLinkageName

/-- Whether an attribute refers to an entry that says more about the same function. -/
def isOrigin (name : Nat) : Bool :=
  name == abstractOrigin || name == specification

/-- The values of the attributes whose names are accepted, in order. -/
def valuesOf (e : DebugEntry) (accept : Nat → Bool) : List DebugValue :=
  (e.attributes.filter fun (name, _) => accept name).map (·.2)

end DebugEntry

namespace DebugInfo

/-- How many references are followed to find a name. -/
def maxReferences : Nat := 16

/-- The entry that a value refers to, with its unit: an error if it must be there and is not. -/
def referred (d : DebugInfo) (u : DebugUnit) :
    DebugValue → Except Unit (Option (DebugUnit × DebugEntry))
  | .inUnit offset =>
    match u.entryAt? d.sections (u.start + offset) with
    | some e => .ok (some (u, e))
    | none => .error ()
  | .inSection offset =>
    match d.units.find? fun u => u.start ≤ offset && offset < u.stop with
    | none => .error ()
    | some u =>
      match u.entryAt? d.sections offset with
      | some e => .ok (some (u, e))
      | none => .error ()
  | _ => .ok none

def nameBehind (d : DebugInfo) : (references : Nat) → DebugUnit → DebugValue →
    Except Unit (Option (List UInt8))
  | 0, _, _ => .ok none
  | references + 1, u, value => do
    match ← d.referred u value with
    | none => return none
    | some (u, e) =>
      let linkage := ((e.valuesOf DebugEntry.isLinkageName).filterMap DebugValue.text?).head?
      let name := ((e.valuesOf (· == DebugEntry.nameAttribute)).filterMap DebugValue.text?).getLast?
      match linkage.or name, (e.valuesOf DebugEntry.isOrigin).getLast? with
      | some text, _ => return some text
      | none, some origin => d.nameBehind references u origin
      | none, none => return none

/-- The name of a function: its linkage name, or else the first name that it has itself or behind
a reference. -/
def nameOf (d : DebugInfo) (u : DebugUnit) (e : DebugEntry) : Except Unit (Option (List UInt8)) :=
  e.attributes.foldlM
    (fun name (key, value) =>
      if DebugEntry.isLinkageName key then .ok (value.text?.or name)
      else if name.isSome then .ok name
      else if key = DebugEntry.nameAttribute then .ok value.text?
      else if DebugEntry.isOrigin key then d.nameBehind maxReferences u value
      else .ok none)
    none

/-- The ranges of the functions of a unit; a function is what follows from its entry on. -/
def functionRanges : List DebugEntry → List (CodeRange (DebugEntry × List DebugEntry))
  | [] => []
  | e :: es =>
    let own :=
      if e.tag = DebugEntry.subprogram then
        e.range?.toList.map fun (low, high) => { low, high, owner := (e, es) }
      else []
    own ++ functionRanges es

/-- How far the search for calls that became part of a function has come. -/
structure CallSearch where
  /-- The depths of the calls that enclose the next entry. -/
  enclosing : List Int := []
  /-- The depth of a function that is defined within the function, and left out. -/
  skipped : Option Int := none
  /-- The calls found, the last first, each with the number of those that enclose it. -/
  found : List (Nat × DebugEntry) := []

def CallSearch.step (s : CallSearch) (e : DebugEntry) : CallSearch :=
  let enclosing := s.enclosing.filter (· < e.depth)
  let skipped := s.skipped.filter (· < e.depth)
  if skipped.isSome then { s with enclosing, skipped }
  else if e.tag = DebugEntry.subprogram then { s with enclosing, skipped := some e.depth }
  else if e.tag = DebugEntry.inlinedSubroutine then
    { enclosing := e.depth :: enclosing, skipped, found := (enclosing.length, e) :: s.found }
  else { s with enclosing, skipped }

/-- The calls that became part of a function, each with the number of those that enclose it. -/
def inlinedCalls (function : DebugEntry) (following : List DebugEntry) : List (Nat × DebugEntry) :=
  ((following.takeWhile fun e => function.depth < e.depth).foldl CallSearch.step {}).found.reverse

/-- The names of the calls around an address, the outermost first, from a nesting on. -/
def callsAt (calls : List (CodeRange (Nat × Option (List UInt8)))) (address : UInt64) :
    (fuel nesting : Nat) → List (Option (List UInt8))
  | 0, _ => []
  | fuel + 1, nesting =>
    match CodeRange.covering? (calls.filter fun c => c.owner.1 == nesting) address with
    | none => []
    | some call => call.owner.2 :: callsAt calls address fuel (nesting + 1)

/-- The names of the functions that an address of a unit belongs to, the innermost first; none if
it belongs to no function of the unit. -/
def unitFrames (d : DebugInfo) (u : DebugUnit) (address : UInt64) :
    Except Unit (Option (List (Option (List UInt8)))) := do
  match u.entries? d.sections with
  | none => .error ()
  | some entries =>
    match CodeRange.covering? (functionRanges entries) address with
    | none => return none
    | some function =>
      let (e, following) := function.owner
      let name ← d.nameOf u e
      let calls ← (inlinedCalls e following).mapM fun (nesting, call) => do
        let name ← d.nameOf u call
        return call.range?.toList.map fun (low, high) =>
          ({ low, high, owner := (nesting, name) } : CodeRange _)
      return some ((name :: callsAt calls.flatten address calls.length 0).reverse)

/-- The units whose code an address lies in, the one that starts last first. -/
def unitsAt (d : DebugInfo) (address : UInt64) : List DebugUnit :=
  let covering := d.units.filterMap fun u => do
    let root ← u.entryAt? d.sections u.entriesStart
    let (low, high) ← root.range?
    if low ≤ address ∧ address < high then some (low, u) else none
  ((covering.mergeSort fun a b => a.1 ≤ b.1).map (·.2)).reverse

/-- The names of the functions that an address belongs to, the innermost first. -/
def framesAt (d : DebugInfo) (address : UInt64) : Except Unit (List (Option (List UInt8))) :=
  go (d.unitsAt address)
where
  /-- Asks one unit after the other. -/
  go : List DebugUnit → Except Unit (List (Option (List UInt8)))
    | [] => .ok []
    | u :: us => do
      match ← d.unitFrames u address with
      | some frames => return frames
      | none => go us

end DebugInfo

end StackProfiler.Binary
