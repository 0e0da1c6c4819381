import StackProfiler.Error.Failure
import StackProfiler.Symbol.SymbolTable

/-!
# Images

An image is what a file of code tells about its functions. An offset in the file is turned into
the address that the linker gave to it, and looked up first in the debug information, then in the
symbol tables.
-/

namespace StackProfiler

/-- What is known of the functions in a file. -/
structure Image where
  segments : List Segment
  debug : DebugInfo
  symbols : SymbolTable

/-- The first name in a search, which ends where it breaks off. -/
def DebugInfo.firstName : List (Except String (Option String)) → Option String
  | [] => none
  | .error _ :: _ => none
  | .ok (some name) :: _ => some name
  | .ok none :: frames => firstName frames

/-- The name of the innermost function at an address that has a name. -/
def DebugInfo.functionAt? (debug : DebugInfo) (address : UInt64) : Checked (Option String) := do
  match ← debug.framesAt address with
  | .ok frames => return firstName frames
  | .error _ => return none

namespace Image

/-- Reads the content of a file. -/
def parse (tools : BinaryTools) (bytes : ByteArray) : Except Failure Image :=
  match tools.parseObject bytes with
  | .error e => .error { contexts := ["Failed to parse object file"], cause := .told e }
  | .ok file =>
    match tools.loadDebug file.isLittleEndian file.sectionData with
    | .error e =>
      .error { contexts := ["Failed to load DWARF debug information"], cause := .told e }
    | .ok debug =>
      .ok {
        segments := file.segments
        debug
        symbols := .ofObject (file.symbols ++ file.dynamicSymbols) }

/-- Reads a file, if its content can be had. -/
def load (tools : BinaryTools) : Except IoError ByteArray → Except Failure Image
  | .error e => .error { contexts := ["Failed to read binary file"], cause := .io e }
  | .ok bytes => parse tools bytes

/-- Whether an offset lies in the part of the file that a segment maps. -/
def holds (s : Segment) (offset : UInt64) : Checked Bool :=
  if s.fileOffset ≤ offset then do
    let stop ← Checked.add 64 s.fileOffset.toNat s.fileSize.toNat
    return offset.toNat < stop
  else .ok false

/-- The address of an offset by the first of some segments that holds it. -/
def addressBy (offset : UInt64) : List Segment → Checked UInt64
  | [] => .ok offset
  | s :: rest => do
    if ← holds s offset then
      return UInt64.ofNat
        (← Checked.add 64 s.address.toNat (offset.toNat - s.fileOffset.toNat))
    else addressBy offset rest

/-- The address that the linker gave to an offset; an offset outside all segments is its own. -/
def addressOf (image : Image) (offset : UInt64) : Checked UInt64 :=
  addressBy offset image.segments

/-- The name of the function at an offset: that of the debug information, or of a symbol. -/
def functionAt? (image : Image) (demangle : String → String) (offset : UInt64) :
    Checked (Option String) := do
  let address ← image.addressOf offset
  match ← image.debug.functionAt? address with
  | some name => return some (demangle name)
  | none => image.symbols.functionAt? demangle address

end Image

end StackProfiler
