import StackProfiler.Checked

/-!
# Readers of binaries

Files of code are read, their debug information is searched and mangled names are undone by
libraries that the program builds on. Of these it knows what it asks of them and the shape of the
answers; nothing else is assumed of them anywhere.
-/

namespace StackProfiler

/-- A part of a file that is mapped at an address. -/
structure Segment where
  fileOffset : UInt64
  fileSize : UInt64
  address : UInt64
deriving DecidableEq, Repr

/-- A symbol of an object file. -/
structure ObjectSymbol where
  /-- Its name, if it has one that is text. -/
  name : Option String
  /-- Whether it stands for code. -/
  isText : Bool
  address : UInt64
  size : UInt64
deriving DecidableEq, Repr

/-- A section of an object file. -/
structure ObjectSection where
  size : UInt64
  /-- Its content, if that can be had without compression. -/
  data : Option ByteArray

/-- An object file. -/
structure ObjectFile where
  isLittleEndian : Bool
  /-- The segments that are loaded. -/
  segments : List Segment
  symbols : List ObjectSymbol
  /-- The symbols for dynamic linking. -/
  dynamicSymbols : List ObjectSymbol
  sectionNamed? : String → Option ObjectSection

namespace ObjectFile

/-- The content of the section of a name; nothing if it cannot be had. -/
def sectionData (file : ObjectFile) (name : String) : ByteArray :=
  ((file.sectionNamed? name).bind (·.data)).getD .empty

/-- Whether there is a section of the name that is not empty. -/
def hasSection (file : ObjectFile) (name : String) : Bool :=
  (file.sectionNamed? name).any (0 < ·.size)

end ObjectFile

/-- Debug information that has been loaded. -/
structure DebugInfo where
  /--
  Searches for the functions that an address belongs to, from the innermost on. For each of them
  there is its name, if it has one that can be read; the search may break off before the end.
  -/
  framesAt : UInt64 → Checked (Except String (List (Except String (Option String))))

/-- The libraries that the program builds on. Errors are the texts of their messages. -/
structure BinaryTools where
  /-- Reads an object file. -/
  parseObject : ByteArray → Except String ObjectFile
  /-- Loads debug information from the sections of an object file, which are asked for by name. -/
  loadDebug : (isLittleEndian : Bool) → (sectionData : String → ByteArray) →
    Except String DebugInfo
  /-- The name that a symbol was mangled from, without what tells versions apart. -/
  demangle : String → String

/-- Tools that take nothing for a binary. -/
def BinaryTools.unknowing : BinaryTools where
  parseObject _ := .error "Unknown file magic"
  loadDebug _ _ := .ok { framesAt := fun _ => .ok (.ok []) }
  demangle name := name

end StackProfiler
