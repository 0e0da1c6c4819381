import StackProfiler.Checked
import StackProfiler.Symbol.BinaryTools

/-!
# Symbol tables

The functions that the symbol tables of a file name, in ascending order of their addresses; of
several at one address the first counts. The nearest symbol at or below an address names it if it
has no size or reaches as far as the address.
-/

namespace StackProfiler

/-- A named function. -/
structure TextSymbol where
  address : UInt64
  /-- Length of its code; zero if it is not known. -/
  size : UInt64
  name : String
deriving DecidableEq, Repr

namespace TextSymbol

/-- The function that a symbol stands for: it is code, has an address, and a name that is text. -/
def ofObject? (s : ObjectSymbol) : Option TextSymbol := do
  guard (s.isText ∧ s.address ≠ 0)
  let name ← s.name
  return { address := s.address, size := s.size, name }

/-- Whether an address at or above the symbol's belongs to it. -/
def covers (s : TextSymbol) (address : UInt64) : Checked Bool :=
  if s.size = 0 then .ok true
  else do
    let stop ← Checked.add 64 s.address.toNat s.size.toNat
    return address.toNat < stop

end TextSymbol

/-- The functions of a file in ascending order of their addresses, one for each address. -/
structure SymbolTable where
  symbols : List TextSymbol

namespace SymbolTable

/-- The list without the elements that have the address of the one before them. -/
def firstOfEach : List TextSymbol → List TextSymbol
  | [] => []
  | [s] => [s]
  | s :: t :: rest =>
    if s.address = t.address then firstOfEach (s :: rest) else s :: firstOfEach (t :: rest)
termination_by symbols => symbols.length

/-- The table of some functions, given in any order. -/
def ofSymbols (symbols : List TextSymbol) : SymbolTable where
  -- the sort is stable: of one address, the first in the file stays first
  symbols := firstOfEach (symbols.mergeSort fun s t => s.address ≤ t.address)

/-- The last function that starts at or below an address. -/
def nearest? (t : SymbolTable) (address : UInt64) : Option TextSymbol :=
  (t.symbols.takeWhile (·.address ≤ address)).getLast?

/-- The table of the symbols of an object file, in the order in which they stand in it. -/
def ofObject (symbols : List ObjectSymbol) : SymbolTable :=
  ofSymbols (symbols.filterMap TextSymbol.ofObject?)

/-- The name of the function at an address. -/
def functionAt? (t : SymbolTable) (demangle : String → String) (address : UInt64) :
    Checked (Option String) :=
  match t.nearest? address with
  | none => .ok none
  | some s => do
    return if ← s.covers address then some (demangle s.name) else none

end SymbolTable

end StackProfiler
