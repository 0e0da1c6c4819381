import StackProfiler.CallTree
import StackProfiler.Checked
import StackProfiler.Error.Domain
import StackProfiler.Scalar

/-!
# Flame graph geometry

The root spans the canvas between the side margins, on the bottom row. A child's width is its
parent's width times its share of the parent's weight; children are placed from left to right in
the order of their names, from the parent's left edge on. A frame narrower than `minWidth` is not
drawn, and neither is anything above it; a frame without weight carries nothing.

`rectangles` works through a list of waiting boxes; `draw` states the same drawing as a recursion
over the tree.
-/

namespace StackProfiler

/-- Canvas geometry and text metrics. -/
structure LayoutConfig (R : Type) where
  /-- Canvas width in pixels. -/
  width : Nat
  rowHeight : Nat
  fontSize : Nat
  /-- Narrowest frame that is drawn. -/
  minWidth : R
  /-- Estimated width of one character. -/
  charWidth : R
  sideMargin : R
  bottomMargin : R
  /-- Space above the frames for title and subtitle. -/
  header : Nat

def LayoutConfig.standard : LayoutConfig Float where
  width := 1200
  rowHeight := 16
  fontSize := 11
  minWidth := 0.1
  charWidth := 6.5
  sideMargin := 10.0
  bottomMargin := 30.0
  header := 60

/-- One visible frame. -/
structure FrameRect (α R : Type) where
  name : String
  label : α
  depth : Nat
  x : R
  y : R
  width : R

/-- All visible frames: parents before children, siblings from left to right. -/
structure Layout (α R : Type) where
  width : Nat
  height : Nat
  rects : List (FrameRect α R)

namespace Layout

variable {α R : Type} [Scalar R]

/-- A part of the tree with the place that it is to be drawn at. -/
structure Box (α R : Type) where
  tree : CallTree α
  depth : Nat
  x : R
  width : R

/-- What the drawing of a tree depends on besides the tree. -/
structure Canvas (α R : Type) where
  /-- Horizontal weight of a node. -/
  weight : α → R
  minWidth : R
  rowHeight : R
  /-- The lower edge of the bottom row. -/
  bottom : R

/-- The rectangle of the node at the root of a box. -/
def Canvas.rect (c : Canvas α R) (b : Box α R) : FrameRect α R where
  name := b.tree.name
  label := b.tree.label
  depth := b.depth
  x := b.x
  y := c.bottom - Scalar.ofNat (b.depth + 1) * c.rowHeight
  width := b.width

/-- The boxes of siblings, from left to right: each gets its share of `width`. -/
def Canvas.siblings (c : Canvas α R) (depth : Nat) (width total : R) :
    R → List (CallTree α) → List (Box α R)
  | _, [] => []
  | x, tree :: trees =>
    let share := width * (c.weight tree.label / total)
    { tree, depth, x, width := share } :: c.siblings depth width total (x + share) trees

def Canvas.above (c : Canvas α R) (b : Box α R) : List (Box α R) :=
  let total := c.weight b.tree.label
  -- shares of nothing would be no numbers
  if total ≤ Scalar.ofNat 0 then []
  else c.siblings (b.depth + 1) b.width total b.x b.tree.children

def boxesSize (bs : List (Box α R)) : Nat :=
  CallTree.sizeAll (bs.map (·.tree))

omit [Scalar R] in
theorem boxesSize_append (bs cs : List (Box α R)) :
    boxesSize (bs ++ cs) = boxesSize bs + boxesSize cs := by
  simp [boxesSize, CallTree.sizeAll_append]

theorem Canvas.siblings_trees (c : Canvas α R) (depth : Nat) (width total x : R)
    (trees : List (CallTree α)) :
    (c.siblings depth width total x trees).map (·.tree) = trees := by
  induction trees generalizing x with
  | nil => rfl
  | cons tree trees ih => simp [Canvas.siblings, ih]

/-- What stands on a box has fewer nodes than the box. -/
theorem Canvas.boxesSize_above_lt (c : Canvas α R) (b : Box α R) :
    boxesSize (c.above b) < b.tree.size := by
  simp only [Canvas.above]
  split
  · exact b.tree.size_pos
  · cases hb : b.tree with
    | node name label children =>
      simp [boxesSize, Canvas.siblings_trees, CallTree.children, CallTree.size]

/-- Draws the waiting boxes in order, each followed by what stands on it. -/
def Canvas.rectangles (c : Canvas α R) : List (Box α R) → Array (FrameRect α R) →
    Array (FrameRect α R)
  | [], drawn => drawn
  | b :: waiting, drawn =>
    if b.width < c.minWidth then c.rectangles waiting drawn
    else c.rectangles (c.above b ++ waiting) (drawn.push (c.rect b))
termination_by waiting => boxesSize waiting
decreasing_by
  · have := b.tree.size_pos
    simp only [boxesSize, List.map_cons, CallTree.sizeAll]
    omega
  · have := c.boxesSize_above_lt b
    rw [boxesSize_append]
    simp only [boxesSize, List.map_cons, CallTree.sizeAll] at *
    omega

/-- The drawing of one box as a recursion: its rectangle, then the drawings of what stands on it. -/
def Canvas.draw (c : Canvas α R) (b : Box α R) : List (FrameRect α R) :=
  if b.width < c.minWidth then []
  else c.rect b :: (c.above b).attach.flatMap fun ⟨child, _⟩ => c.draw child
termination_by b.tree.size
decreasing_by
  rename_i hmem
  exact Nat.lt_of_le_of_lt (CallTree.size_le_sizeAll (List.mem_map_of_mem hmem))
    (c.boxesSize_above_lt b)

/-- Height of a canvas for a tree of the given depth: a row for each level, and one to spare. -/
def canvasHeight (config : LayoutConfig R) (maxDepth : Nat) : Checked Nat := do
  -- the depth is cut to a word of 32 bits before it is added to
  let rows ← Checked.add 32 (maxDepth % wordLimit 32) 2
  let body ← Checked.mul 32 rows config.rowHeight
  Checked.add 32 body config.header

def ofTree (weight : α → R) (maxDepth : Nat) (config : LayoutConfig R) (tree : CallTree α) :
    Checked (Except RenderError (Layout α R)) :=
  let usable := Scalar.ofNat config.width - Scalar.ofNat 2 * config.sideMargin
  if weight tree.label ≤ Scalar.ofNat 0 then .ok (.error .noSamples)
  else if usable ≤ Scalar.ofNat 0 then .ok (.error (.invalidWidth config.width))
  else do
    let height ← canvasHeight config maxDepth
    let canvas : Canvas α R :=
      { weight
        minWidth := config.minWidth
        rowHeight := Scalar.ofNat config.rowHeight
        bottom := Scalar.ofNat height - config.bottomMargin }
    let root : Box α R := { tree, depth := 0, x := config.sideMargin, width := usable }
    return .ok { width := config.width, height, rects := (canvas.rectangles [root] #[]).toList }

end Layout

end StackProfiler
