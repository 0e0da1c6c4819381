import StackProfiler.Error.Domain
import StackProfiler.FoldedStacks.Basic
import StackProfiler.Text.Blank
import StackProfiler.Text.Numeral

/-!
# The folded text format

One line for each distinct path: the path, a space, and its count. Reading is lenient. Trailing
white space is dropped; an empty line and a line that starts with `#` are ignored; a line counts if
it ends in a space and a positive numeral and its path has a name in it; every other line is
skipped. Equal paths are merged. Writing is in ascending order of the paths.
-/

namespace StackProfiler

/-- What a line of folded text says. -/
inductive FoldedLine where
  /-- Blank, or a comment. -/
  | ignored
  /-- Malformed. -/
  | skipped
  /-- So many observations of the path through these frames. -/
  | counted (frames : List String) (count : Nat)
deriving DecidableEq, Repr

namespace FoldedLine

/-- A positive 64-bit numeral. -/
def count? (cs : List Char) : Option Nat :=
  (Text.unsigned? 10 (wordLimit 64) cs).filter (0 < ·)

/-- The frame names written before the count, some of them perhaps empty. -/
def frames (cs : List Char) : List String :=
  (Text.pieces frameSeparator (Text.trim cs)).map String.ofList

def read (line : List Char) : FoldedLine :=
  let line := Text.trimEnd line
  if line.isEmpty || line.head? == some '#' then .ignored
  else
    -- names may hold blanks, so the count stands behind the last one
    match Text.cutLast? ' ' line with
    | none => .skipped
    | some (path, count) =>
      match count? count with
      | none => .skipped
      | some n =>
        -- a path of separators has no name in it
        if (frames path).all (·.isEmpty) then .skipped else .counted (frames path) n

end FoldedLine

namespace FoldedStacks

def addLine (f : FoldedStacks) (line : List Char) : Checked FoldedStacks :=
  match FoldedLine.read line with
  | .ignored => .ok f
  | .skipped => .ok f.skipLine
  | .counted frames count => do
    let (_, f) ← f.addFrames frames count
    return f

def ofText (text : String) : Checked FoldedStacks :=
  (Text.lines '\n' '\r' text.toList).foldlM addLine empty

/-- Adds what the lines say, up to the first one that is not valid UTF-8. -/
def addByteLines : FoldedStacks → List (List UInt8) → Checked (Except FoldError FoldedStacks)
  | f, [] => .ok (.ok f)
  | f, line :: rest =>
    match String.fromUTF8? ⟨line.toArray⟩ with
    | none => .ok (.error (.read .invalidUtf8))
    | some text => do
      let f ← f.addLine text.toList
      f.addByteLines rest

/-- The profile written in a sequence of bytes, each line of which must be valid UTF-8. -/
def ofBytes (bytes : ByteArray) : Checked (Except FoldError FoldedStacks) :=
  empty.addByteLines (Text.lines 0x0a 0x0d bytes.data.toList)

def writeLine (entry : String × Nat) : String :=
  entry.1 ++ " " ++ toString entry.2 ++ "\n"

def toText (f : FoldedStacks) : String :=
  String.join (f.toList.map writeLine)

end FoldedStacks

end StackProfiler
