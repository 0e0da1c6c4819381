import StackProfiler.FrameTree
import StackProfiler.Text.NameMap

/-!
# Difference trees

The call trees of a profile before and after a change, merged by names at every level. A node
keeps both inclusive counts. Its weight is the mean of its shares of the two totals: children never
outweigh their parent, and a frame that vanished from one side stays visible.

The nodes stand in one array and know their children by number. The merge works through a stack of
nodes whose children are still to be made: `Merge.run` takes the latest of them, makes its children
in the order of their names, and puts these on the stack.
-/

namespace StackProfiler

/-- The inclusive counts of a frame on both sides. -/
structure DiffCounts where
  /-- Distance from the root. -/
  depth : Nat
  before : Nat
  after : Nat
deriving DecidableEq, Repr, Inhabited

/-- A node of two merged call trees. -/
structure DiffNode extends DiffCounts where
  name : String
  /-- The numbers of the children, by their names. -/
  children : Std.ExtTreeMap String Nat compare := ∅
deriving Inhabited

/-- The numbers of the children, in ascending order of their names. -/
def DiffNode.childIds (node : DiffNode) : List Nat :=
  node.children.toList.map Prod.snd

/-- Two merged call trees. -/
structure DiffTree where
  /-- The nodes in the order in which they were made, the root first. -/
  nodes : Array DiffNode
  /-- Number of samples on the first side. -/
  beforeTotal : Nat
  /-- Number of samples on the second side. -/
  afterTotal : Nat
  /-- Depth of the deepest node. -/
  maxDepth : Nat := 0

namespace DiffTree

open NameMap (totalOf totalOf_toList_alter)

/-- The counts of a frame that may be absent on either side. -/
def countsOf (depth : Nat) (before after : Option FrameCounts) : DiffCounts where
  depth
  before := (before.map (·.inclusive)).getD 0
  after := (after.map (·.inclusive)).getD 0

/-- What stands at one place in the two frame trees. -/
structure Sides where
  before : Option (CallTree FrameCounts) := none
  after : Option (CallTree FrameCounts) := none

namespace Sides

def counts (depth : Nat) (sides : Sides) : DiffCounts :=
  countsOf depth (sides.before.map (·.label)) (sides.after.map (·.label))

def setBefore (t : CallTree FrameCounts) (sides : Sides) : Sides :=
  { sides with before := some t }

def setAfter (t : CallTree FrameCounts) (sides : Sides) : Sides :=
  { sides with after := some t }

/-- Enters nodes of one side under their names. -/
def enter (set : CallTree FrameCounts → Sides → Sides)
    (named : Std.ExtTreeMap String Sides compare) (ts : List (CallTree FrameCounts)) :
    Std.ExtTreeMap String Sides compare :=
  ts.foldl (fun named t => named.alter t.name fun sides => some (set t (sides.getD {}))) named

/-- The children on both sides, by their names. -/
def children (sides : Sides) : Std.ExtTreeMap String Sides compare :=
  let named := enter setBefore ∅ (sides.before.elim [] (·.children))
  enter setAfter named (sides.after.elim [] (·.children))

/-- Number of nodes on both sides. -/
def size (sides : Sides) : Nat :=
  sides.before.elim 0 (·.size) + sides.after.elim 0 (·.size)

/-- How many turns of the loop the merge of the sides takes at most. -/
def turns (sides : Sides) : Nat :=
  max 1 sides.size

theorem size_setBefore_le (t : CallTree FrameCounts) (sides : Sides) :
    (setBefore t sides).size ≤ sides.size + t.size := by
  simp only [size, setBefore, Option.elim]
  omega

theorem size_setAfter_le (t : CallTree FrameCounts) (sides : Sides) :
    (setAfter t sides).size ≤ sides.size + t.size := by
  simp only [size, setAfter, Option.elim]
  omega

theorem turns_set_le {set : CallTree FrameCounts → Sides → Sides}
    (hset : ∀ t sides, (set t sides).size ≤ sides.size + t.size) (t : CallTree FrameCounts)
    (sides : Option Sides) :
    (set t (sides.getD {})).turns ≤ (sides.map turns).getD 0 + t.size := by
  have hpos := t.size_pos
  have hle := hset t (sides.getD {})
  cases sides with
  | none =>
    have hempty : size {} = 0 := rfl
    simp only [turns, Option.getD_none, Option.map_none] at hle ⊢
    omega
  | some sides =>
    simp only [turns, Option.getD_some, Option.map_some] at hle ⊢
    omega

/-- Nodes of one side add no more than their sizes to what is to be done. -/
theorem totalOf_turns_enter_le {set : CallTree FrameCounts → Sides → Sides}
    (hset : ∀ t sides, (set t sides).size ≤ sides.size + t.size)
    (ts : List (CallTree FrameCounts)) (named : Std.ExtTreeMap String Sides compare) :
    totalOf turns (enter set named ts).toList ≤
      totalOf turns named.toList + CallTree.sizeAll ts := by
  induction ts generalizing named with
  | nil => exact Nat.le_add_right ..
  | cons t ts ih =>
    have hrest := ih (named.alter t.name fun sides => some (set t (sides.getD {})))
    have hfirst := totalOf_toList_alter named turns t.name
      fun sides => some (set t (sides.getD {}))
    have hturns := turns_set_le hset t named[t.name]?
    simp only [enter, List.foldl_cons, CallTree.sizeAll, Option.map_some, Option.getD_some]
      at hrest hfirst ⊢
    omega

theorem sizeAll_children (t : CallTree FrameCounts) :
    CallTree.sizeAll t.children + 1 = t.size := by
  cases t
  rfl

/-- The children of the sides are fewer nodes than the sides. -/
theorem totalOf_turns_children_lt (sides : Sides) :
    totalOf turns sides.children.toList < sides.turns := by
  have hbefore := totalOf_turns_enter_le size_setBefore_le (sides.before.elim [] (·.children)) ∅
  have hafter := totalOf_turns_enter_le size_setAfter_le (sides.after.elim [] (·.children))
    (enter setBefore ∅ (sides.before.elim [] (·.children)))
  have hempty : totalOf turns (∅ : Std.ExtTreeMap String Sides compare).toList = 0 := rfl
  have hsize : CallTree.sizeAll (sides.before.elim [] (·.children)) +
      CallTree.sizeAll (sides.after.elim [] (·.children)) < sides.turns := by
    obtain ⟨_ | t, _ | u⟩ := sides
    · decide
    · have := sizeAll_children u
      simp only [turns, size, Option.elim, CallTree.sizeAll]
      omega
    · have := sizeAll_children t
      simp only [turns, size, Option.elim, CallTree.sizeAll]
      omega
    · have := sizeAll_children t
      have := sizeAll_children u
      simp only [turns, size, Option.elim]
      omega
  rw [children]
  omega

end Sides

/-- A merge on its way. -/
structure Merge where
  tree : DiffTree
  /-- The nodes whose children are still to be made, the latest first. -/
  pending : List (Nat × Sides)

namespace Merge

/-- At first there is the root, whose children are still to be made. -/
def start (before after : FrameTree) : Merge :=
  let root : DiffNode :=
    { name := rootName, depth := 0, before := before.totalSamples, after := after.totalSamples }
  { tree := { nodes := #[root], beforeTotal := root.before, afterTotal := root.after }
    pending := [(0, { before := some before.root, after := some after.root })] }

/-- How many turns of the loop are left at most. -/
def turns (m : Merge) : Nat :=
  totalOf Sides.turns m.pending

/-- Makes the child of a node for what stands under a name. -/
def addChild (parent depth : Nat) (m : Merge) (entry : String × Sides) : Merge :=
  let (name, sides) := entry
  let id := m.tree.nodes.size
  let nodes := m.tree.nodes.push { toDiffCounts := sides.counts depth, name }
  { tree :=
      { m.tree with
        nodes := nodes.modify parent fun node =>
          { node with children := node.children.insert name id }
        maxDepth := max m.tree.maxDepth depth }
    pending := (id, sides) :: m.pending }

/-- Makes the children of a node, in the order of their names. -/
def addChildren (m : Merge) (parent : Nat) (sides : Sides) : Merge :=
  let depth := m.tree.nodes[parent]!.depth + 1
  sides.children.toList.foldl (addChild parent depth) m

theorem turns_foldl_addChild (parent depth : Nat) (entries : List (String × Sides)) (m : Merge) :
    (entries.foldl (addChild parent depth) m).turns =
      totalOf Sides.turns entries + m.turns := by
  induction entries generalizing m with
  | nil => exact (Nat.zero_add _).symm
  | cons entry entries ih =>
    rw [List.foldl_cons, ih]
    simp only [turns, addChild, totalOf]
    omega

/-- Makes the children of every node that waits for them. -/
def run : Merge → DiffTree
  | { tree, pending := [] } => tree
  | { tree, pending := (id, sides) :: pending } => run (addChildren { tree, pending } id sides)
termination_by m => m.turns
decreasing_by
  have hlt := sides.totalOf_turns_children_lt
  rw [addChildren, turns_foldl_addChild]
  simp only [turns, totalOf]
  omega

end Merge

/-- Merges two frame trees. -/
def ofTrees (before after : FrameTree) : DiffTree :=
  (Merge.start before after).run

def ofProfiles (before after : FoldedStacks) (config : TreeConfig) : Checked DiffTree := do
  let before ← FrameTree.ofFolded before config
  let after ← FrameTree.ofFolded after config
  return ofTrees before after

/-- The number of the node reached from a node by following the names. -/
def idFrom? (tree : DiffTree) : Nat → List String → Option Nat
  | id, [] => some id
  | id, name :: names => (tree.nodes[id]!.children[name]?).bind (idFrom? tree · names)

/-- The node reached by following the names from the root. -/
def find? (tree : DiffTree) (path : List String) : Option DiffNode :=
  (tree.idFrom? 0 path).map (tree.nodes[·]!)

/-- The call tree beneath a node, down to a number of levels. -/
def treeAt (tree : DiffTree) : Nat → Nat → CallTree DiffCounts
  | 0, id =>
    let node := tree.nodes[id]!
    .node node.name node.toDiffCounts []
  | levels + 1, id =>
    let node := tree.nodes[id]!
    .node node.name node.toDiffCounts
      (node.childIds.map (treeAt tree levels))

/-- The call tree that is drawn. -/
def root (tree : DiffTree) : CallTree DiffCounts :=
  tree.treeAt tree.maxDepth 0

end DiffTree

end StackProfiler
