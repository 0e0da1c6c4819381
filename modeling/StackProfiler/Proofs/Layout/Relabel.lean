import StackProfiler.Layout.Basic
import StackProfiler.Proofs.CallTree.Relabel

/-!
# Drawings of relabelled trees

Of the labels of a tree, its drawing depends on the weights only: the drawing of a relabelled tree
is the drawing of the tree with its frames relabelled (`Layout.ofTree_relabel`).
-/

namespace StackProfiler

variable {α β R : Type}

/-! ## Section 1: Other labels on frames -/

def FrameRect.relabel (g : α → β) (rect : FrameRect α R) : FrameRect β R where
  name := rect.name
  label := g rect.label
  depth := rect.depth
  x := rect.x
  y := rect.y
  width := rect.width

namespace Layout

def relabel (g : α → β) (layout : Layout α R) : Layout β R where
  width := layout.width
  height := layout.height
  rects := layout.rects.map (FrameRect.relabel g)

def Box.relabel (g : α → β) (b : Box α R) : Box β R where
  tree := b.tree.relabel g
  depth := b.depth
  x := b.x
  width := b.width

/-- The canvas on which a label weighs as much as the other label on the given one. -/
def Canvas.comap (g : α → β) (c : Canvas β R) : Canvas α R where
  weight := c.weight ∘ g
  minWidth := c.minWidth
  rowHeight := c.rowHeight
  bottom := c.bottom

/-! ## Section 2: Drawing -/

variable [Scalar R] (g : α → β) (c : Canvas β R)

theorem Canvas.rect_relabel (b : Box α R) :
    c.rect (b.relabel g) = ((c.comap g).rect b).relabel g := by
  simp only [Canvas.rect, Box.relabel, CallTree.name_relabel, CallTree.label_relabel]
  rfl

theorem Canvas.siblings_relabel (depth : Nat) (width total x : R) (trees : List (CallTree α)) :
    c.siblings depth width total x (trees.map (CallTree.relabel g)) =
      ((c.comap g).siblings depth width total x trees).map (Box.relabel g) := by
  induction trees generalizing x with
  | nil => rfl
  | cons tree trees ih =>
    simp only [List.map_cons, Canvas.siblings, CallTree.label_relabel, ih]
    rfl

/-- The boxes on a relabelled box are those on the box, relabelled. -/
theorem Canvas.above_relabel (b : Box α R) :
    c.above (b.relabel g) = ((c.comap g).above b).map (Box.relabel g) := by
  have hweight : c.weight (b.relabel g).tree.label = (c.comap g).weight b.tree.label := by
    simp only [Box.relabel, CallTree.label_relabel, Canvas.comap, Function.comp_apply]
  have hchildren : (b.relabel g).tree.children = b.tree.children.map (CallTree.relabel g) :=
    CallTree.children_relabel g b.tree
  simp only [Canvas.above, hweight, hchildren]
  split
  · rfl
  · exact c.siblings_relabel g ..

/-- **Drawing** relabelled boxes is drawing the boxes and relabelling the frames. -/
theorem Canvas.rectangles_relabel (waiting : List (Box α R)) (drawn : Array (FrameRect α R)) :
    c.rectangles (waiting.map (Box.relabel g)) (drawn.map (FrameRect.relabel g)) =
      ((c.comap g).rectangles waiting drawn).map (FrameRect.relabel g) := by
  fun_induction (c.comap g).rectangles waiting drawn with
  | case1 drawn => rw [List.map_nil, Canvas.rectangles]
  | case2 b waiting drawn hnarrow ih =>
    have hnarrow' : (b.relabel g).width < c.minWidth := hnarrow
    rw [List.map_cons, Canvas.rectangles, if_pos hnarrow']
    exact ih
  | case3 b waiting drawn hnarrow ih =>
    have hnarrow' : ¬(b.relabel g).width < c.minWidth := hnarrow
    rw [List.map_cons, Canvas.rectangles, if_neg hnarrow', c.above_relabel, c.rect_relabel,
      ← List.map_append, ← Array.map_push]
    exact ih

/-- **The drawing of a relabelled tree** is the drawing of the tree with its frames relabelled. -/
theorem ofTree_relabel (weight : β → R) (maxDepth : Nat) (config : LayoutConfig R)
    (tree : CallTree α) :
    ofTree weight maxDepth config (tree.relabel g) =
      (ofTree (weight ∘ g) maxDepth config tree).map (·.map (relabel g)) := by
  simp only [ofTree, CallTree.label_relabel, Function.comp_apply]
  split
  · rfl
  · split
    · rfl
    · cases canvasHeight config maxDepth with
      | error fault => rfl
      | ok height =>
        -- the canvas of the one drawing is that of the other, with the weights of the new labels
        let canvas : Canvas β R :=
          { weight
            minWidth := config.minWidth
            rowHeight := Scalar.ofNat config.rowHeight
            bottom := Scalar.ofNat height - config.bottomMargin }
        let width := Scalar.ofNat config.width - Scalar.ofNat 2 * config.sideMargin
        have hdraw := canvas.rectangles_relabel g
          [{ tree, depth := 0, x := config.sideMargin, width }] #[]
        rw [Array.map_empty] at hdraw
        simp only [bind, Except.bind, pure, Except.pure, Except.map, relabel, ← Array.toList_map]
        exact congrArg (fun drawn => Except.ok (Except.ok
          { width := config.width, height, rects := drawn.toList : Layout β R })) hdraw

end Layout

end StackProfiler
