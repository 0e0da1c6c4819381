import StackProfiler.Binary.Elf
import StackProfiler.Binary.Scan

/-!
# Debug information

The units of the DWARF sections of a file, and their entries. A unit describes what one run of the
compiler made; its entries form a forest in which an entry's depth tells where it hangs. An entry
says what it describes by its tag and by attributes; which attributes an entry has, and in which
form their values are written, stands in a table of abbreviations.
-/

namespace StackProfiler.Binary

/-- The sections of debug information that are read. -/
structure DebugSections where
  info : Source
  abbreviations : Source
  texts : Source
  lineTexts : Source

/-- The debug information in the sections of a file. -/
def DebugSections.ofNamed (littleEndian : Bool) (data : String → ByteArray) : DebugSections where
  info := { bytes := data ".debug_info", littleEndian }
  abbreviations := { bytes := data ".debug_abbrev", littleEndian }
  texts := { bytes := data ".debug_str", littleEndian }
  lineTexts := { bytes := data ".debug_line_str", littleEndian }

/-- The value of an attribute, as far as it matters here. -/
inductive DebugValue where
  | address (a : UInt64)
  | number (n : Nat)
  | text (bytes : List UInt8)
  /-- The entry at an offset from the start of the same unit. -/
  | inUnit (offset : Nat)
  /-- The entry at an offset from the start of the section. -/
  | inSection (offset : Nat)
  | other
deriving DecidableEq, Repr

/-- An attribute of an abbreviation: its name and its form. -/
structure AttributeForm where
  name : Nat
  form : Nat
deriving DecidableEq, Repr

/-- What the entries of one code have in common. -/
structure Abbreviation where
  code : Nat
  tag : Nat
  hasChildren : Bool
  attributes : List AttributeForm
deriving DecidableEq, Repr

/-- An entry of a unit. -/
structure DebugEntry where
  /-- How many entries enclose it; negative behind a surplus of closing marks. -/
  depth : Int
  tag : Nat
  attributes : List (Nat × DebugValue)
deriving DecidableEq, Repr

namespace DebugEntry

/-- The kind of an entry for a function. -/
def subprogram : Nat := 0x2e

/-- The kind of an entry for a call that was put in place. -/
def inlinedSubroutine : Nat := 0x1d

def nameAttribute : Nat := 0x03

def lowAddress : Nat := 0x11

/-- The attribute for the end: an address, or a distance from the first one. -/
def highAddress : Nat := 0x12

/-- The attribute that refers to the entry of which this is an instance. -/
def abstractOrigin : Nat := 0x31

/-- The attribute that refers to the declaration. -/
def specification : Nat := 0x47

/-- The attribute for the name that the linker sees. -/
def linkageName : Nat := 0x6e

/-- The number that the same attribute had before it was standardised. -/
def olderLinkageName : Nat := 0x2007

/-- The last value of an attribute that is accepted. -/
def last? {α : Type} (e : DebugEntry) (name : Nat) (accept : DebugValue → Option α) : Option α :=
  e.attributes.foldl
    (fun found (key, value) => if key = name then (accept value).or found else found) none

/-- The addresses of the code that the entry describes: from the first up to the second. -/
def range? (e : DebugEntry) : Option (UInt64 × UInt64) := do
  let low ← e.last? lowAddress fun | .address a => some a | _ => none
  let high ←
    (e.last? highAddress fun | .address a => some a | _ => none).or
      (e.last? highAddress fun | .number n => some (low + UInt64.ofNat n) | _ => none)
  if low < high then some (low, high) else none

end DebugEntry

/-- A unit of debug information. -/
structure DebugUnit where
  /-- Where the unit starts in its section. -/
  start : Nat
  /-- Where its first entry stands. -/
  entriesStart : Nat
  stop : Nat
  /-- The length of an offset into a section. -/
  offsetSize : Nat
  addressSize : Nat
  version : Nat
  abbreviations : List Abbreviation

namespace DebugUnit

/-- The attributes of an abbreviation, up to a pair of zeros. -/
def attributeForms : (fuel : Nat) → Scan (List AttributeForm)
  | 0 => failure
  | fuel + 1 => do
    let name ← Scan.variableLength
    let form ← Scan.variableLength
    if name = 0 ∧ form = 0 then return []
    else
      let rest ← attributeForms fuel
      return { name, form } :: rest

/-- The abbreviations of a table, up to a code of zero. -/
def abbreviationTable : (fuel : Nat) → Scan (List Abbreviation)
  | 0 => failure
  | fuel + 1 => do
    let code ← Scan.variableLength
    if code = 0 then return []
    else
      let tag ← Scan.variableLength
      let children ← Scan.number 1
      let attributes ← attributeForms (fuel + 1)
      let rest ← abbreviationTable fuel
      return { code, tag, hasChildren := children == 1, attributes } :: rest

def ignored (count : Nat) : Scan DebugValue := do
  Scan.skip count
  return .other

def textAt (texts : Source) (offset : Nat) : DebugValue :=
  match texts.cString? offset texts.bytes.size with
  | some text => .text text
  | none => .other

/-- The value of an attribute, written in a form. -/
def value (sections : DebugSections) (u : DebugUnit) : (form : Nat) → Scan DebugValue
  | 0x01 => do return .address (UInt64.ofNat (← Scan.number u.addressSize))
  | 0x03 => do ignored (← Scan.number 2)
  | 0x04 => do ignored (← Scan.number 4)
  | 0x05 => .number <$> Scan.number 2
  | 0x06 => .number <$> Scan.number 4
  | 0x07 => .number <$> Scan.number 8
  | 0x08 => .text <$> Scan.zeroEnded
  | 0x09 => do ignored (← Scan.variableLength)
  | 0x0a => do ignored (← Scan.number 1)
  | 0x0b => .number <$> Scan.number 1
  | 0x0c => ignored 1
  | 0x0d => do
    let _ ← Scan.groupsOfSeven 10
    return .other
  | 0x0e => textAt sections.texts <$> Scan.number u.offsetSize
  | 0x0f => .number <$> Scan.variableLength
  | 0x10 => .inSection <$> Scan.number (if u.version = 2 then u.addressSize else u.offsetSize)
  | 0x11 => .inUnit <$> Scan.number 1
  | 0x12 => .inUnit <$> Scan.number 2
  | 0x13 => .inUnit <$> Scan.number 4
  | 0x14 => .inUnit <$> Scan.number 8
  | 0x15 => .inUnit <$> Scan.variableLength
  | 0x17 => ignored u.offsetSize
  | 0x18 => do ignored (← Scan.variableLength)
  | 0x19 => return .other
  | 0x1e => ignored 16
  | 0x1f => textAt sections.lineTexts <$> Scan.number u.offsetSize
  | 0x20 => ignored 8
  | _ => failure

def values (sections : DebugSections) (u : DebugUnit) (forms : List AttributeForm) :
    Scan (List (Nat × DebugValue)) :=
  forms.mapM fun a => do return (a.name, ← u.value sections a.form)

/-- The entry at the position, with the depth behind it; none is read from a closing mark. -/
def entry (sections : DebugSections) (u : DebugUnit) (depth : Int) :
    Scan (Option DebugEntry × Int) := do
  let code ← Scan.variableLength
  if code = 0 then return (none, depth - 1)
  else
    let form ← Scan.need (u.abbreviations.find? (·.code == code))
    let attributes ← u.values sections form.attributes
    return (some { depth, tag := form.tag, attributes },
      if form.hasChildren then depth + 1 else depth)

/-- The entries from the position to the end of the unit. -/
def entriesFrom (sections : DebugSections) (u : DebugUnit) : (fuel : Nat) → (depth : Int) →
    Scan (List DebugEntry)
  | 0, _ => return []
  | fuel + 1, depth => do
    if u.stop ≤ (← get) then return []
    else
      let (found, depth) ← u.entry sections depth
      let rest ← u.entriesFrom sections fuel depth
      return found.toList ++ rest

/-- The bytes of the section up to the end of the unit. -/
def bytes (sections : DebugSections) (u : DebugUnit) : Source :=
  sections.info.part 0 u.stop

/-- All entries of the unit; none if they are malformed. -/
def entries? (sections : DebugSections) (u : DebugUnit) : Option (List DebugEntry) :=
  ((u.entriesFrom sections (u.stop - u.entriesStart) 0).runAt (u.bytes sections)
    u.entriesStart).map (·.1)

/-- The entry at an offset of the section, which must be one of the unit's. -/
def entryAt? (sections : DebugSections) (u : DebugUnit) (offset : Nat) : Option DebugEntry :=
  if u.entriesStart ≤ offset ∧ offset < u.stop then do
    let ((found, _), _) ← (u.entry sections 0).runAt (u.bytes sections) offset
    found
  else none

/-- A unit before its abbreviations are read. -/
structure Header where
  start : Nat
  entriesStart : Nat
  stop : Nat
  offsetSize : Nat
  addressSize : Nat
  version : Nat
  kind : Nat
  abbreviationsStart : Nat

/-- The size of an address, one of those that are known. -/
def addressSizeOf : Scan Nat := do
  let size ← Scan.number 1
  if size = 1 ∨ size = 2 ∨ size = 4 ∨ size = 8 then return size else failure

/-- The length of a unit, and the length of an offset in it. -/
def lengthOf : Scan (Nat × Nat) := do
  let short ← Scan.number 4
  if short < 0xfffffff0 then return (short, 4)
  else if short = 0xffffffff then return (← Scan.number 8, 8)
  else failure

def header : Scan Header := do
  let start ← get
  let (length, offsetSize) ← lengthOf
  let stop := (← get) + length
  let _ ← Scan.need ((← read).slice? (← get) length)
  let version ← Scan.number 2
  if version < 2 ∨ 5 < version then failure
  else
    let (kind, addressSize, abbreviationsStart) ←
      if version = 5 then do
        let kind ← Scan.number 1
        let addressSize ← addressSizeOf
        let abbreviationsStart ← Scan.number offsetSize
        pure (kind, addressSize, abbreviationsStart)
      else do
        let abbreviationsStart ← Scan.number offsetSize
        let addressSize ← addressSizeOf
        pure (1, addressSize, abbreviationsStart)
    let entriesStart ← get
    set stop
    return { start, entriesStart, stop, offsetSize, addressSize, version, kind, abbreviationsStart }

/-- The headers of the units from the position to the end of the section. -/
def headers : (fuel : Nat) → Scan (List Header)
  | 0 => return []
  | fuel + 1 => do
    if (← read).bytes.size ≤ (← get) then return []
    else
      let first ← header
      let rest ← headers fuel
      return first :: rest

/-- The unit of a header; none if its abbreviations or its first entry are malformed, or if it is
of a kind without code. -/
def ofHeader? (sections : DebugSections) (h : Header) : Option DebugUnit := do
  let table := sections.abbreviations
  let (abbreviations, _) ← (abbreviationTable table.bytes.size).runAt table h.abbreviationsStart
  let u : DebugUnit := {
    start := h.start
    entriesStart := h.entriesStart
    stop := h.stop
    offsetSize := h.offsetSize
    addressSize := h.addressSize
    version := h.version
    abbreviations }
  let _ ← u.entryAt? sections u.entriesStart
  if h.kind = 1 then some u else none

end DebugUnit

/-- The units of a file's debug information. -/
structure DebugInfo where
  sections : DebugSections
  units : List DebugUnit

namespace DebugInfo

/-- What is said of malformed debug information. -/
def malformed : String :=
  "Hit the end of input before it was expected"

/-- Reads the units; none if a header is malformed. -/
def ofSections? (sections : DebugSections) : Option DebugInfo := do
  let (headers, _) ← (DebugUnit.headers sections.info.bytes.size).runAt sections.info 0
  return { sections, units := headers.filterMap (DebugUnit.ofHeader? sections) }

end DebugInfo

end StackProfiler.Binary
