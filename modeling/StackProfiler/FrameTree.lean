import StackProfiler.CallTree
import StackProfiler.FoldedStacks.Basic

/-!
# Frame trees

The call tree of one profile. Inserting a path with a count adds the count to every node on the way
and to the root, and to the self count of the last node, so that at every node

  `inclusive = selfCount + sum of the children's inclusive counts`.

A node takes at most `maxChildren` children under names of their own. Every further name is
collapsed into one child called `[other]`, which may itself be created past that bound; the rest
of the path goes on beneath it. No count is lost.
-/

namespace StackProfiler

def rootName : String := "root"

/-- The name of the child that collects the names past the bound. -/
def otherName : String := "[other]"

/-- Limits on a frame tree. -/
structure TreeConfig where
  /-- Most distinct children of a node before the rest is collapsed. -/
  maxChildren : Nat := 512
deriving DecidableEq, Repr

/-- What a frame tree knows of a frame. -/
structure FrameCounts where
  /-- The number of nodes that existed when this one was created. -/
  index : Nat
  /-- Distance from the root. -/
  depth : Nat
  /-- Samples in this frame or beneath it. -/
  inclusive : Nat := 0
  /-- Samples that end in this frame. -/
  selfCount : Nat := 0
  /-- Whether names have been collapsed here. -/
  collapsed : Bool := false
deriving DecidableEq, Repr

/-- What a frame tree knows of itself as a whole. -/
structure TreeGrowth where
  /-- Nodes created, the root included. -/
  size : Nat := 1
  /-- Depth of the deepest node. -/
  maxDepth : Nat := 0
  /-- Names of the nodes where names have been collapsed, in the order in which that began. -/
  collapsedAt : List String := []
deriving DecidableEq, Repr

/-- The call tree of one profile. -/
structure FrameTree where
  config : TreeConfig := {}
  root : CallTree FrameCounts := .node rootName { index := 0, depth := 0 } []
  growth : TreeGrowth := {}

namespace FrameTree

def empty (config : TreeConfig) : FrameTree :=
  { config }

/-- The step from a node to the child for a name, which is created if need be. -/
structure Step where
  /-- The node, perhaps marked as a place where names are collapsed. -/
  parent : CallTree FrameCounts
  child : CallTree FrameCounts
  growth : TreeGrowth

/-- The child of the given name, which may be a new one. -/
def stepTo (parent : CallTree FrameCounts) (growth : TreeGrowth) (name : String) : Step :=
  match parent.child? name with
  | some child => { parent, child, growth }
  | none =>
    let depth := parent.label.depth + 1
    { parent
      child := .node name { index := growth.size, depth } []
      growth :=
        { growth with size := growth.size + 1, maxDepth := max growth.maxDepth depth } }

/-- Marks the node as one where names are collapsed. -/
def markCollapsed (parent : CallTree FrameCounts) (growth : TreeGrowth) :
    CallTree FrameCounts × TreeGrowth :=
  if parent.label.collapsed then (parent, growth)
  else
    (parent.withLabel { parent.label with collapsed := true },
      { growth with collapsedAt := growth.collapsedAt ++ [parent.name] })

/-- The child that stands for a name: its own, or `[other]` once the node has taken its fill. -/
def childFor (config : TreeConfig) (parent : CallTree FrameCounts) (growth : TreeGrowth)
    (name : String) : Step :=
  if (parent.child? name).isSome then stepTo parent growth name
  else if config.maxChildren ≤ parent.children.length then
    -- full: the name shares a child with all other names that came late
    let (parent, growth) := markCollapsed parent growth
    stepTo parent growth otherName
  else stepTo parent growth name

def addInclusive (t : CallTree FrameCounts) (count : Nat) : Checked (CallTree FrameCounts) := do
  let inclusive ← Checked.add 64 t.label.inclusive count
  return t.withLabel { t.label with inclusive }

def addSelf (t : CallTree FrameCounts) (count : Nat) : Checked (CallTree FrameCounts) := do
  let selfCount ← Checked.add 64 t.label.selfCount count
  return t.withLabel { t.label with selfCount }

/-- Counts a path beneath a node; the self count goes to the node where the path ends. -/
def insertBelow (config : TreeConfig) (count : Nat) :
    List String → CallTree FrameCounts → TreeGrowth →
      Checked (CallTree FrameCounts × TreeGrowth)
  | [], t, growth => do
    let t ← addSelf t count
    return (t, growth)
  | name :: names, t, growth => do
    let step := childFor config t growth name
    let child ← addInclusive step.child count
    let (child, growth) ← insertBelow config count names child step.growth
    return (step.parent.putChild child, growth)

/-- Adds `count` observations of a path; an empty path and a zero count are ignored. -/
def insert (tree : FrameTree) (path : List String) (count : Nat) : Checked FrameTree :=
  if count == 0 || path.isEmpty then .ok tree
  else do
    -- the samples of the root are counted last, when the path is in place
    let (root, growth) ← insertBelow tree.config count path tree.root tree.growth
    let root ← addInclusive root count
    return { tree with root, growth }

def insertAll (tree : FrameTree) (paths : List (List String × Nat)) : Checked FrameTree :=
  paths.foldlM (fun tree (path, count) => tree.insert path count) tree

def ofFolded (folded : FoldedStacks) (config : TreeConfig) : Checked FrameTree :=
  (empty config).insertAll (folded.toList.map fun (path, count) => (framesOfPath path, count))

/-- The node reached by following the names from the root. -/
def find? (tree : FrameTree) (path : List String) : Option (CallTree FrameCounts) :=
  tree.root.find? path

def totalSamples (tree : FrameTree) : Nat :=
  tree.root.label.inclusive

def maxDepth (tree : FrameTree) : Nat :=
  tree.growth.maxDepth

/-- Number of nodes, the root included. -/
def size (tree : FrameTree) : Nat :=
  tree.growth.size

/-- Whether there are no samples. -/
def isEmpty (tree : FrameTree) : Bool :=
  tree.totalSamples == 0

/-- Number of nodes where names were collapsed. -/
def overflowedParents (tree : FrameTree) : Nat :=
  tree.growth.collapsedAt.length

/-- Whether the counts of a node add up. -/
def balanced (t : CallTree FrameCounts) : Checked Bool := do
  let below ← Checked.sum 64 (t.children.map (·.label.inclusive))
  let sum ← Checked.add 64 t.label.selfCount below
  return t.label.inclusive == sum

/-- Whether the counts of every node add up. -/
def isConsistent (tree : FrameTree) : Checked Bool :=
  tree.root.preorder.foldlM (fun ok t => if ok then balanced t else .ok false) true

end FrameTree

end StackProfiler
