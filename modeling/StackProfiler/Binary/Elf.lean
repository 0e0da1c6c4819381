import StackProfiler.Binary.Source

/-!
# ELF files

The parts of an ELF file that naming functions needs: the segments that are loaded, the sections,
and the two symbol tables. Both classes and both byte orders are read. A file whose tables do not
lie in it is no ELF file.
-/

namespace StackProfiler.Binary

/-- Why a file could not be read as ELF. -/
inductive ElfError where
  | noMagic
  | unknownMagic
  | badHeader
  | unsupportedHeader
  | badSegmentSize
  | badSegments
  | badSectionSize
  | badSections
  | badNames
  | badSymbols
deriving DecidableEq, Repr

namespace ElfError

def message : ElfError → String
  | noMagic => "Could not read file magic"
  | unknownMagic => "Unknown file magic"
  | badHeader => "Invalid ELF header size or alignment"
  | unsupportedHeader => "Unsupported ELF header"
  | badSegmentSize => "Invalid ELF program header entry size"
  | badSegments => "Invalid ELF program header size or alignment"
  | badSectionSize => "Invalid ELF section header entry size"
  | badSections => "Invalid ELF section header offset/size/alignment"
  | badNames => "Invalid ELF e_shstrndx"
  | badSymbols => "Invalid ELF symbol table data"

end ElfError

/-- A part of the file that is mapped at an address. -/
structure Segment where
  fileOffset : UInt64
  fileSize : UInt64
  address : UInt64
  /-- What the memory may be used for: 1 for execution, 2 for writing, 4 for reading. -/
  flags : Nat
deriving DecidableEq, Repr

/-- A section of the file. -/
structure Section where
  /-- Its name, if it has one. -/
  name : Option (List UInt8)
  kind : Nat
  flags : Nat
  offset : Nat
  size : Nat
  link : Nat
deriving DecidableEq, Repr

namespace Section

def symbolTable : Nat := 2

/-- The kind of a section without bytes in the file. -/
def noBits : Nat := 8

/-- The kind of the symbol table for dynamic linking. -/
def dynamicSymbols : Nat := 11

def isCompressed (s : Section) : Bool :=
  s.flags / 0x800 % 2 == 1

end Section

/-- A symbol of either table. -/
structure ElfSymbol where
  /-- Its name, if there is one. -/
  name : Option (List UInt8)
  kind : Nat
  value : UInt64
  size : UInt64
deriving DecidableEq, Repr

namespace ElfSymbol

def isText (s : ElfSymbol) : Bool :=
  s.kind == 2 || s.kind == 10

end ElfSymbol

/-- An ELF file. -/
structure Elf where
  source : Source
  /-- The address of the first instruction. -/
  entry : UInt64
  segments : List Segment
  sections : List Section
  symbols : List ElfSymbol
  /-- The symbols for dynamic linking. -/
  dynamicSymbols : List ElfSymbol

namespace Elf

/-- Where the fields of the tables stand: in files of 64 bits, and in those of 32. -/
structure Shape where
  wide : Bool

namespace Shape

/-- The length of an address or a size. -/
def word (s : Shape) : Nat := if s.wide then 8 else 4

def headerSize (s : Shape) : Nat := if s.wide then 64 else 52

/-- The length of an entry in the table of segments. -/
def segmentSize (s : Shape) : Nat := if s.wide then 56 else 32

/-- The length of an entry in the table of sections. -/
def sectionSize (s : Shape) : Nat := if s.wide then 64 else 40

/-- The length of an entry in a symbol table. -/
def symbolSize (s : Shape) : Nat := if s.wide then 24 else 16

end Shape

def need {α : Type} (error : ElfError) : Option α → Except ElfError α
  | some a => .ok a
  | none => .error error

/-- A list of entries of one size, one after the other. -/
def entries {α : Type} (read : Nat → Option α) (offset size : Nat) : Nat → Option (List α)
  | 0 => some []
  | count + 1 => do
    let a ← read offset
    let rest ← entries read (offset + size) size count
    return a :: rest

/-- The segment at an offset, if it is loaded. -/
def segmentAt (src : Source) (shape : Shape) (start : Nat) : Option (Option Segment) := do
  let _ ← src.slice? start shape.segmentSize
  let kind ← src.nat? start 4
  let w := shape.word
  let base := if shape.wide then start + 8 else start + 4
  let fileOffset ← src.nat? base w
  let address ← src.nat? (base + w) w
  let fileSize ← src.nat? (base + 3 * w) w
  let flags ← src.nat? (if shape.wide then start + 4 else start + 24) 4
  return if kind = 1 then
    some {
      fileOffset := UInt64.ofNat fileOffset
      fileSize := UInt64.ofNat fileSize
      address := UInt64.ofNat address
      flags }
  else none

/-- A section before its name is looked up, and where its name stands. -/
def sectionAt (src : Source) (shape : Shape) (start : Nat) : Option (Nat × Section) := do
  let _ ← src.slice? start shape.sectionSize
  let nameOffset ← src.nat? start 4
  let kind ← src.nat? (start + 4) 4
  let w := shape.word
  let flags ← src.nat? (start + 8) w
  let offset ← src.nat? (start + 8 + 2 * w) w
  let size ← src.nat? (start + 8 + 3 * w) w
  let link ← src.nat? (start + 8 + 4 * w) 4
  return (nameOffset, { name := none, kind, flags, offset, size, link })

/-- Where the bytes of a section start and stop. -/
def range (s : Section) : Nat × Nat :=
  if s.kind = Section.noBits then (0, 0) else (s.offset, s.offset + s.size)

/-- The text at an offset in a table of texts. -/
def textIn (src : Source) (table : Section) (offset : Nat) : Option (List UInt8) :=
  let (start, stop) := range table
  if start + offset < stop then src.cString? (start + offset) stop else none

def symbolAt (src : Source) (shape : Shape) (texts : Section) (start : Nat) : Option ElfSymbol := do
  let name ← src.nat? start 4
  let (infoAt, valueAt, sizeAt) :=
    if shape.wide then (start + 4, start + 8, start + 16) else (start + 12, start + 4, start + 8)
  let info ← src.nat? infoAt 1
  let value ← src.nat? valueAt shape.word
  let size ← src.nat? sizeAt shape.word
  return {
    name := textIn src texts name
    kind := info % 16
    value := UInt64.ofNat value
    size := UInt64.ofNat size }

/-- The symbols of the first table of a kind; the first entry of a table is a blank. -/
def symbolsOf (src : Source) (shape : Shape) (sections : List Section) (kind : Nat) :
    Except ElfError (List ElfSymbol) :=
  match sections.find? (·.kind == kind) with
  | none => .ok []
  | some table => do
    let _ ← need .badSymbols (src.slice? table.offset table.size)
    if table.size % shape.symbolSize ≠ 0 then .error .badSymbols
    else
      let texts ← need .badSymbols sections[table.link]?
      let symbols ← need .badSymbols
        (entries (symbolAt src shape texts) table.offset shape.symbolSize
          (table.size / shape.symbolSize))
      return symbols.drop 1

/-- How many entries the tables have, and which section holds the names of the others. -/
structure Tables where
  segmentCount : Nat
  sectionCount : Nat
  namesIndex : Nat

/-- What the first section tells in place of a header field that is too narrow for it. -/
structure FirstSection where
  size : Nat
  link : Nat
  info : Nat

/-- The first section, if there are sections. -/
def firstSection (src : Source) (shape : Shape) (sectionsAt entrySize : Nat) :
    Except ElfError (Option FirstSection) :=
  if sectionsAt = 0 then .ok none
  else if entrySize ≠ shape.sectionSize then .error .badSectionSize
  else do
    let (_, s) ← need .badSections (sectionAt src shape sectionsAt)
    let info ← need .badSections (src.nat? (sectionsAt + 12 + 4 * shape.word) 4)
    return some { size := s.size, link := s.link, info }

/-- The counts of the tables; counts too large for the header stand in the first section. -/
def tables (first : Except ElfError (Option FirstSection))
    (segmentCount sectionCount namesIndex : Nat) : Except ElfError Tables := do
  let segmentCount ←
    if segmentCount < 0xffff then .ok segmentCount
    else first.bind fun s => need .badSegments (s.map (·.info))
  let sectionCount ←
    if 0 < sectionCount then .ok sectionCount
    else first.bind fun s => .ok ((s.map (·.size)).getD 0)
  let namesIndex ←
    if namesIndex = 0xffff then first.bind fun s => need .badNames (s.map (·.link))
    else .ok namesIndex
  return { segmentCount, sectionCount, namesIndex }

def loadedSegments (src : Source) (shape : Shape) (start entrySize count : Nat) :
    Except ElfError (List Segment) :=
  if start = 0 ∨ count = 0 then .ok []
  else if entrySize ≠ shape.segmentSize then .error .badSegmentSize
  else if src.bytes.size < start + count * entrySize then .error .badSegments
  else do
    let all ← need .badSegments (entries (segmentAt src shape) start shape.segmentSize count)
    return all.filterMap id

def namedSections (src : Source) (shape : Shape) (start entrySize count namesIndex : Nat) :
    Except ElfError (List Section) :=
  if start = 0 ∨ count = 0 then .ok []
  else if entrySize ≠ shape.sectionSize then .error .badSectionSize
  else if src.bytes.size < start + count * entrySize then .error .badSections
  else do
    let all ← need .badSections (entries (sectionAt src shape) start shape.sectionSize count)
    let (_, names) ← need .badNames all[namesIndex]?
    return all.map fun (start, s) => { s with name := textIn src names start }

/-- Reads a file of the given shape and byte order. -/
def ofSource (src : Source) (shape : Shape) : Except ElfError Elf := do
  let w := shape.word
  let field (offset count : Nat) : Except ElfError Nat := need .badHeader (src.nat? offset count)
  let entry ← field 24 w
  let segmentsAt ← field (24 + w) w
  let sectionsAt ← field (24 + 2 * w) w
  let counts := 24 + 3 * w + 4
  let segmentEntry ← field (counts + 2) 2
  let segmentCount ← field (counts + 4) 2
  let sectionEntry ← field (counts + 6) 2
  let sectionCount ← field (counts + 8) 2
  let namesIndex ← field (counts + 10) 2
  let t ← tables (firstSection src shape sectionsAt sectionEntry) segmentCount sectionCount
    namesIndex
  let segments ← loadedSegments src shape segmentsAt segmentEntry t.segmentCount
  let sections ← namedSections src shape sectionsAt sectionEntry t.sectionCount t.namesIndex
  let symbols ← symbolsOf src shape sections Section.symbolTable
  let dynamicSymbols ← symbolsOf src shape sections Section.dynamicSymbols
  return {
    source := src
    entry := UInt64.ofNat entry
    segments
    sections
    symbols
    dynamicSymbols }

def parse (bytes : ByteArray) : Except ElfError Elf := do
  let magic := (bytes.extract 0 7).data.toList
  if bytes.size < 16 then .error .noMagic
  else if magic.take 4 ≠ [0x7f, 0x45, 0x4c, 0x46] then .error .unknownMagic
  else
    let width := magic.getD 4 0
    let order := magic.getD 5 0
    if width ≠ 1 ∧ width ≠ 2 then .error .unknownMagic
    else
      let shape : Shape := { wide := width == 2 }
      if bytes.size < shape.headerSize then .error .badHeader
      else if (order ≠ 1 ∧ order ≠ 2) ∨ magic.getD 6 0 ≠ 1 then .error .unsupportedHeader
      else ofSource { bytes, littleEndian := order == 1 } shape

def section? (e : Elf) (name : String) : Option Section :=
  e.sections.find? fun s => s.name == some name.toUTF8.data.toList

/-- The bytes of a section; none if it is compressed or has none in the file. -/
def data? (e : Elf) (s : Section) : Option ByteArray :=
  if s.isCompressed || s.kind == Section.noBits then none else e.source.slice? s.offset s.size

end Elf

end StackProfiler.Binary
