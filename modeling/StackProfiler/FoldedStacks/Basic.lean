import Std.Data.ExtTreeMap
import StackProfiler.Checked
import StackProfiler.Text.Pieces

/-!
# Folded stacks

A profile in its smallest form: every distinct call path, written root first with `;` between the
frame names, and how often it was observed. Paths are kept in ascending order of their text, and
two profiles are equal exactly if they hold the same paths with the same counts and skipped the
same number of lines.
-/

namespace StackProfiler

/-- What stands between the frame names of a path. -/
def frameSeparator : Char := ';'

/-- The frame names of a path, root first. -/
def framesOfPath (path : String) : List String :=
  (Text.pieces frameSeparator path.toList).map String.ofList

/-- The path through the given frames; empty names leave no trace in it. -/
def pathOfFrames (frames : List String) : String :=
  ";".intercalate (frames.filter (!·.isEmpty))

/-- The distinct, counted call paths of one profile. -/
structure FoldedStacks where
  /-- Observations of each path. -/
  counts : Std.ExtTreeMap String Nat compare := ∅
  /-- Lines that were neither counted nor ignored when the profile was read. -/
  skippedLines : Nat := 0
deriving DecidableEq

namespace FoldedStacks

def empty : FoldedStacks := {}

/-- Observations of one path, zero if it is absent. -/
def countOf (f : FoldedStacks) (path : String) : Nat :=
  f.counts.getD path 0

/-- The paths and their counts, in ascending order of the paths. -/
def toList (f : FoldedStacks) : List (String × Nat) :=
  f.counts.toList

/-- Number of distinct paths. -/
def size (f : FoldedStacks) : Nat :=
  f.counts.size

/-- Whether there is no path at all. -/
def isEmpty (f : FoldedStacks) : Bool :=
  f.counts.isEmpty

def totalSamples (f : FoldedStacks) : Checked Nat :=
  Checked.sum 64 (f.toList.map Prod.snd)

/--
Adds `count` observations of a path, and says whether anything was added: an empty path and a zero
count are ignored.
-/
def addPath (f : FoldedStacks) (path : String) (count : Nat) : Checked (Bool × FoldedStacks) :=
  if path.isEmpty || count == 0 then
    .ok (false, f)
  else do
    let sum ← Checked.add 64 (f.countOf path) count
    return (true, { f with counts := f.counts.insert path sum })

/-- Adds `count` observations of the path through the given frames. -/
def addFrames (f : FoldedStacks) (frames : List String) (count : Nat) :
    Checked (Bool × FoldedStacks) :=
  f.addPath (pathOfFrames frames) count

def skipLine (f : FoldedStacks) : FoldedStacks :=
  { f with skippedLines := f.skippedLines + 1 }

end FoldedStacks

end StackProfiler
