import StackProfiler.Checked
import StackProfiler.Text.Blank
import StackProfiler.Text.Numeral
import StackProfiler.Text.Pieces

/-!
# Memory maps

The regions of a process that hold code from files, in the order of the listing. A line of the
listing is

  `start-end permissions offset device inode   path`

and is kept if it is executable, has an absolute path and a sound range; all other lines are passed
over. At most 4096 regions are kept.
-/

namespace StackProfiler

/-- A part of the address space that holds executable content of a file. -/
structure Region where
  start : UInt64
  /-- The first address behind the region. -/
  stop : UInt64
  /-- Where in the file the region starts. -/
  offset : UInt64
  permissions : String
  path : String
deriving DecidableEq, Repr

namespace Region

def contains (r : Region) (address : UInt64) : Bool :=
  r.start ≤ address && address < r.stop

/-- The offset in the file of an address in the region. -/
def fileOffset (r : Region) (address : UInt64) : Checked UInt64 := do
  let distance ← Checked.sub address.toNat r.start.toNat
  let offset ← Checked.add 64 distance r.offset.toNat
  return UInt64.ofNat offset

end Region

namespace MemoryMap

/-- Most regions that are kept. -/
def maxRegions : Nat := 4096

/-- What the listing appends to the path of a file that is gone. -/
def deletedMark : List Char := " (deleted)".toList

/-- Up to so many fields, each ended by one blank; the last one is the rest. -/
def fields : Nat → List Char → List (List Char)
  | 0, _ => []
  | 1, cs => [cs]
  | n + 2, cs =>
    match cs.dropWhile (!Text.isBlank ·) with
    | [] => [cs]
    | _ :: rest => cs.takeWhile (!Text.isBlank ·) :: fields (n + 1) rest

/-- A hexadecimal word. -/
def word? (cs : List Char) : Option UInt64 :=
  (Text.unsigned? 16 (wordLimit 64) cs).map UInt64.ofNat

/-- Whether permissions allow execution. -/
def isExecutable (permissions : String) : Bool :=
  -- the letters stand for reading, writing and execution, in this order
  permissions.toUTF8.data[2]? == some 'x'.toUInt8

/-- The path of a file without the mark that it is gone. -/
def withoutMark (path : List Char) : List Char :=
  if deletedMark.isSuffixOf path then path.take (path.length - deletedMark.length) else path

/-- The region in the given fields of a line. -/
def regionOf? (range permissions offset path : List Char) : Option Region := do
  let path := Text.trimStart path
  guard (isExecutable (String.ofList permissions))
  guard (path.head? == some '/')
  let (start, stop) ← Text.cutFirst? '-' range
  let start ← word? start
  let stop ← word? stop
  let offset ← word? offset
  -- a range that is empty or turned around is not sound
  guard (start < stop)
  return {
    start, stop, offset
    permissions := String.ofList permissions
    path := String.ofList (withoutMark path) }

def parseLine? (line : List Char) : Option Region :=
  match fields 6 line with
  | [range, permissions, offset, _, _, path] => regionOf? range permissions offset path
  | _ => none

def allRegions (text : String) : List Region :=
  (Text.lines '\n' '\r' text.toList).filterMap parseLine?

/-- The regions of a listing that are kept. -/
def parse (text : String) : List Region :=
  (allRegions text).take maxRegions

/-- Whether a listing has regions that are not kept. -/
def exceeds (text : String) : Bool :=
  maxRegions < (allRegions text).length

end MemoryMap

end StackProfiler
