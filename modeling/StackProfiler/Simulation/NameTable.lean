import StackProfiler.Symbol.Resolver

/-!
# Names from a table

A source of names that answers from a table and remembers what it was asked.
-/

namespace StackProfiler.Simulation

/-- A question to a source of names: a file and an offset in it. -/
abbrev Question := String × UInt64

/-- The names at offsets in files. -/
structure NameTable where
  entries : List (String × UInt64 × String) := []
deriving Repr

namespace NameTable

/-- The name at a place, which is the last one that the table gives. -/
def find? (t : NameTable) (path : String) (offset : UInt64) : Option String :=
  (t.entries.reverse.find? fun (p, o, _) => p == path && o == offset).map fun (_, _, name) => name

/-- The table as a source of names. Its state holds the questions asked, the latest first. -/
def source (t : NameTable) : NameSource (List Question) where
  lookup asked path offset := .ok (t.find? path offset, (path, offset) :: asked)

end NameTable

end StackProfiler.Simulation
