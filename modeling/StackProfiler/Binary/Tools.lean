import StackProfiler.Binary.DebugFrames
import StackProfiler.Binary.Demangle
import StackProfiler.Symbol.BinaryTools
import StackProfiler.Text.Lossy

/-!
# Readers for the command line

The command line runs with readers of its own for ELF files, debug information and mangled names.
They know what programs commonly contain, and less than the libraries that they stand in for.
-/

namespace StackProfiler.Binary

def Segment.object (s : Segment) : StackProfiler.Segment where
  fileOffset := s.fileOffset
  fileSize := s.fileSize
  address := s.address

def ElfSymbol.object (s : ElfSymbol) : ObjectSymbol where
  name := s.name.bind fun bytes => String.fromUTF8? ⟨bytes.toArray⟩
  isText := s.isText
  address := s.value
  size := s.size

def Elf.object (elf : Elf) : ObjectFile where
  isLittleEndian := elf.source.littleEndian
  segments := elf.segments.map (·.object)
  symbols := elf.symbols.map (·.object)
  dynamicSymbols := elf.dynamicSymbols.map (·.object)
  sectionNamed? name :=
    (elf.section? name).map fun s => { size := UInt64.ofNat s.size, data := elf.data? s }

def DebugInfo.object (debug : DebugInfo) : StackProfiler.DebugInfo where
  framesAt address := do
    -- the search is for the range from the address to the one behind it
    let _ ← Checked.add 64 address.toNat 1
    return match debug.framesAt address with
    | .error () => .error malformed
    | .ok frames => .ok <| frames.map fun name =>
      .ok (name.map fun bytes => String.ofList (Text.decodeLossy bytes))

/-- The readers of the command line. -/
def tools : BinaryTools where
  parseObject bytes :=
    match Elf.parse bytes with
    | .error e => .error e.message
    | .ok elf => .ok elf.object
  loadDebug littleEndian sectionData :=
    match DebugInfo.ofSections? (.ofNamed littleEndian sectionData) with
    | none => .error DebugInfo.malformed
    | some debug => .ok debug.object
  demangle := Demangle.demangle

end StackProfiler.Binary
