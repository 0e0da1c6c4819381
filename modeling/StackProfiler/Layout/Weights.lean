import StackProfiler.DiffTree
import StackProfiler.Layout.Basic

/-!
# Weights of frames

What makes a frame wide: its inclusive count in the graph of one profile, and the mean of its two
shares in the graph of a change.
-/

namespace StackProfiler

variable {R : Type} [Scalar R]

def FrameCounts.weight (counts : FrameCounts) : R :=
  Scalar.ofNat counts.inclusive

/-- The share of a total; nothing has no share of anything. -/
def share (count total : Nat) : R :=
  if total = 0 then Scalar.ofNat 0 else Scalar.ofNat count / Scalar.ofNat total

/-- The weight of a frame on both sides of a change. -/
def DiffTree.weight (tree : DiffTree) (counts : DiffCounts) : R :=
  (share counts.before tree.beforeTotal + share counts.after tree.afterTotal) / Scalar.ofNat 2

def FrameTree.layout (tree : FrameTree) (config : LayoutConfig R) :
    Checked (Except RenderError (Layout FrameCounts R)) :=
  Layout.ofTree FrameCounts.weight tree.maxDepth config tree.root

def DiffTree.layout (tree : DiffTree) (config : LayoutConfig R) :
    Checked (Except RenderError (Layout DiffCounts R)) :=
  Layout.ofTree tree.weight tree.maxDepth config tree.root

end StackProfiler
