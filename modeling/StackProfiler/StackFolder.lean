import StackProfiler.FoldedStacks.Basic
import StackProfiler.FrameFilter

/-!
# Folding samples

A sample arrives as frame names, deepest first. It is turned root first, filtered, and counted as
one observation of its path; a sample with no name left is discarded.
-/

namespace StackProfiler

/-- A frame name with a `:` in place of each `;`, so that it is one segment of a path. -/
def separatorFree (name : String) : String :=
  String.ofList (name.toList.map fun c => if c == frameSeparator then ':' else c)

/-- The frames of a sample that are kept, root first. -/
def keptFrames (filter : FrameFilter) (deepestFirst : List String) : List String :=
  (deepestFirst.reverse.filter (!filter.removes ·)).map separatorFree

/-- A profile in the making. -/
structure StackFolder where
  filter : FrameFilter
  folded : FoldedStacks := .empty
  /-- Samples seen so far. -/
  samples : Nat := 0
  /-- Samples of which no frame was left. -/
  discarded : Nat := 0

namespace StackFolder

/-- Adds one sample, and says whether a frame of it was left. -/
def addStack (s : StackFolder) (deepestFirst : List String) : Checked (Bool × StackFolder) := do
  let (added, folded) ← s.folded.addFrames (keptFrames s.filter deepestFirst) 1
  return (added,
    { s with
      folded
      samples := s.samples + 1
      discarded := if added then s.discarded else s.discarded + 1 })

end StackFolder

end StackProfiler
