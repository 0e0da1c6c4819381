import Mathlib.Data.List.Flatten
import Mathlib.Logic.Function.Iterate
import StackProfiler.Layout.Weights
import StackProfiler.Proofs.DiffTree

/-!
# Drawing by a loop and by recursion

The loop that draws works on a stack of waiting boxes. It comes to an end after at most one turn for
each node, and what it has drawn then is the recursive drawing of the tree
(`Canvas.rectangles_eq`). The frames stand in the order of the paths of their nodes, each node at
most once and behind the node that it stands on (`Canvas.placed`).

Nothing here depends on what the numbers are, so it holds of floating-point numbers.
-/

namespace StackProfiler.Layout

variable {α R : Type} [Scalar R] (c : Canvas α R)

/-! ## Section 1: The recursion -/

/-- What stands on a box is smaller than the box, so boxes can be reasoned about from above. -/
theorem Canvas.box_induction {motive : Box α R → Prop}
    (h : ∀ b, (∀ u ∈ c.above b, motive u) → motive b) (b : Box α R) : motive b := by
  generalize hsize : b.tree.size = n
  induction n using Nat.strongRecOn generalizing b with
  | ind n ih =>
    refine h b fun u hu => ih u.tree.size ?_ u rfl
    rw [← hsize]
    exact Nat.lt_of_le_of_lt (CallTree.size_le_sizeAll (List.mem_map_of_mem hu))
      (c.boxesSize_above_lt b)

/-- **The recursive drawing** of a box: nothing, or its rectangle and the drawings of what stands
on it. -/
theorem Canvas.draw_eq (b : Box α R) :
    c.draw b = if b.width < c.minWidth then [] else c.rect b :: (c.above b).flatMap c.draw := by
  rw [Canvas.draw]
  split <;> simp

/-- The part of its width that a box gives to a child. -/
def Canvas.shareOf (b : Box α R) (child : CallTree α) : R :=
  b.width * (c.weight child.label / c.weight b.tree.label)

/-- The box of a child behind so many siblings, the widths of which are added up from the left. -/
def Canvas.childBox (b : Box α R) (k : Nat) (child : CallTree α) : Box α R where
  tree := child
  depth := b.depth + 1
  x := ((b.tree.children.take k).map (c.shareOf b)).foldl (· + ·) b.x
  width := c.shareOf b child

theorem Canvas.siblings_eq (depth : Nat) (width total x : R) (trees : List (CallTree α)) :
    c.siblings depth width total x trees = trees.mapIdx fun k tree =>
      { tree, depth
        x := ((trees.take k).map fun t => width * (c.weight t.label / total)).foldl (· + ·) x
        width := width * (c.weight tree.label / total) } := by
  induction trees generalizing x with
  | nil => rfl
  | cons tree trees ih =>
    rw [Canvas.siblings, ih, List.mapIdx_cons]
    rfl

/-- **What stands on a box**: all children of its node, if the node has a weight. -/
theorem Canvas.above_eq (b : Box α R) :
    c.above b = if c.weight b.tree.label ≤ Scalar.ofNat 0 then []
      else b.tree.children.mapIdx (c.childBox b) := by
  rw [Canvas.above]
  split
  · rfl
  · rw [Canvas.siblings_eq]
    rfl

/-! ## Section 2: The loop -/

/-- **The loop draws what the recursion draws**, for all boxes that wait, behind what was drawn
before. -/
theorem Canvas.rectangles_eq (waiting : List (Box α R)) (drawn : Array (FrameRect α R)) :
    (c.rectangles waiting drawn).toList = drawn.toList ++ waiting.flatMap c.draw := by
  fun_induction c.rectangles waiting drawn with
  | case1 drawn => rw [List.flatMap_nil, List.append_nil]
  | case2 b waiting drawn hnarrow ih => rw [ih, List.flatMap_cons, c.draw_eq, if_pos hnarrow]; rfl
  | case3 b waiting drawn hnarrow ih =>
    -- the boxes that come to the front are drawn before all that waited
    rw [ih, List.flatMap_cons, List.flatMap_append, c.draw_eq b, if_neg hnarrow,
      Array.toList_push, List.append_assoc, List.cons_append, List.nil_append]
    rfl

/-- One turn of the loop. The top of the stack is its last box, which is taken off; if it is wide
enough, it is drawn, and what stands on it is put on the stack from right to left. -/
def Canvas.turn : List (Box α R) × List (FrameRect α R) → List (Box α R) × List (FrameRect α R)
  | (pending, drawn) =>
    match pending.getLast? with
    | none => (pending, drawn)
    | some b =>
      if b.width < c.minWidth then (pending.dropLast, drawn)
      else (pending.dropLast ++ (c.above b).reverse, drawn ++ [c.rect b])

/-- **The loop ends** after no more turns than there are nodes. -/
theorem Canvas.exists_iterate_turn (waiting : List (Box α R)) (drawn : Array (FrameRect α R)) :
    ∃ n ≤ boxesSize waiting, c.turn^[n] (waiting.reverse, drawn.toList) =
      ([], (c.rectangles waiting drawn).toList) := by
  fun_induction c.rectangles waiting drawn with
  | case1 drawn => exact ⟨0, Nat.zero_le _, rfl⟩
  | case2 b waiting drawn hnarrow ih =>
    obtain ⟨n, hn, hturns⟩ := ih
    refine ⟨n + 1, ?_, ?_⟩
    · have hpos := b.tree.size_pos
      simp only [boxesSize, List.map_cons, CallTree.sizeAll] at hn ⊢
      omega
    · rw [Function.iterate_succ_apply, ← hturns]
      simp [Canvas.turn, hnarrow]
  | case3 b waiting drawn hnarrow ih =>
    obtain ⟨n, hn, hturns⟩ := ih
    refine ⟨n + 1, ?_, ?_⟩
    · have hlt := c.boxesSize_above_lt b
      rw [boxesSize_append] at hn
      simp only [boxesSize, List.map_cons, CallTree.sizeAll] at hn hlt ⊢
      omega
    · rw [Function.iterate_succ_apply, ← hturns]
      simp [Canvas.turn, hnarrow]

/-! ## Section 3: The nodes that are drawn -/

/-- The boxes that are drawn, in order, each with the names on the way to its node. -/
def Canvas.placed (b : Box α R) : List (List String × Box α R) :=
  if b.width < c.minWidth then []
  else
    ([], b) :: (c.above b).attach.flatMap fun ⟨u, _⟩ =>
      (Canvas.placed u).map fun (path, v) => (u.tree.name :: path, v)
termination_by b.tree.size
decreasing_by
  rename_i hmem
  exact Nat.lt_of_le_of_lt (CallTree.size_le_sizeAll (List.mem_map_of_mem hmem))
    (c.boxesSize_above_lt b)

theorem Canvas.placed_eq (b : Box α R) :
    c.placed b = if b.width < c.minWidth then []
      else ([], b) :: (c.above b).flatMap fun u =>
        (c.placed u).map fun (path, v) => (u.tree.name :: path, v) := by
  rw [Canvas.placed]
  split <;> simp

/-- The drawing shows the boxes that are placed. -/
theorem Canvas.map_rect_placed (b : Box α R) : (c.placed b).map (c.rect ·.2) = c.draw b := by
  induction b using c.box_induction with
  | h b ih =>
    rw [c.placed_eq, c.draw_eq]
    split
    · rfl
    · rw [List.map_cons, List.map_flatMap]
      congr 1
      apply List.flatMap_congr
      intro u hu
      rw [List.map_map]
      exact ih u hu

section Members

variable {c} {b u v : Box α R} {path rest : List String} {name : String}

theorem Canvas.mem_above (h : u ∈ c.above b) :
    u.tree ∈ b.tree.children ∧ u.depth = b.depth + 1 ∧ u.width = c.shareOf b u.tree := by
  rw [c.above_eq] at h
  split at h
  · exact absurd h List.not_mem_nil
  · obtain ⟨k, hk, rfl⟩ := List.mem_mapIdx.mp h
    exact ⟨List.getElem_mem hk, rfl, rfl⟩

theorem Canvas.mem_placed_nil :
    ([], v) ∈ c.placed b ↔ ¬b.width < c.minWidth ∧ v = b := by
  rw [c.placed_eq]
  split <;> simp [*]

/-- Beneath a box that is drawn, the boxes that are drawn are those beneath what stands on it. -/
theorem Canvas.mem_placed_cons :
    (name :: path, v) ∈ c.placed b ↔
      ¬b.width < c.minWidth ∧ ∃ u ∈ c.above b, u.tree.name = name ∧ (path, v) ∈ c.placed u := by
  rw [c.placed_eq]
  split <;> simp [*, and_comm]

theorem Canvas.not_narrow_of_mem_placed (h : (path, v) ∈ c.placed b) : ¬b.width < c.minWidth := by
  cases path with
  | nil => exact (mem_placed_nil.mp h).1
  | cons name path => exact (mem_placed_cons.mp h).1

/-- **Paths of drawn nodes** lead through drawn nodes. -/
theorem Canvas.mem_placed_append :
    (path ++ rest, v) ∈ c.placed b ↔ ∃ u, (path, u) ∈ c.placed b ∧ (rest, v) ∈ c.placed u := by
  induction path generalizing b with
  | nil =>
    constructor
    · intro h
      exact ⟨b, mem_placed_nil.mpr ⟨not_narrow_of_mem_placed h, rfl⟩, h⟩
    · rintro ⟨u, hu, h⟩
      exact (mem_placed_nil.mp hu).2 ▸ h
  | cons name path ih =>
    rw [List.cons_append, mem_placed_cons]
    constructor
    · rintro ⟨hwide, w, hw, hname, h⟩
      obtain ⟨u, hu, hv⟩ := ih.mp h
      exact ⟨u, mem_placed_cons.mpr ⟨hwide, w, hw, hname, hu⟩, hv⟩
    · rintro ⟨u, hu, hv⟩
      obtain ⟨hwide, w, hw, hname, hu⟩ := mem_placed_cons.mp hu
      exact ⟨hwide, w, hw, hname, ih.mpr ⟨u, hu, hv⟩⟩

theorem Canvas.depth_of_mem_placed (h : (path, v) ∈ c.placed b) :
    v.depth = b.depth + path.length := by
  induction path generalizing b with
  | nil =>
    rw [(mem_placed_nil.mp h).2]
    rfl
  | cons name path ih =>
    obtain ⟨-, u, hu, -, h⟩ := mem_placed_cons.mp h
    rw [ih h, (mem_above hu).2.1, List.length_cons, Nat.add_right_comm, Nat.add_assoc]

end Members

/-- **The drawn nodes** are nodes of the tree, in their usual order. -/
theorem Canvas.placed_sublist (b : Box α R) :
    ((c.placed b).map fun (path, v) => (path, v.tree)).Sublist b.tree.nodePaths := by
  induction b using c.box_induction with
  | h b ih =>
    rw [c.placed_eq]
    split
    · exact List.nil_sublist _
    · rw [CallTree.nodePaths_eq, List.map_cons, CallTree.nodePathsAll_eq_flatMap, List.map_flatMap]
      apply List.Sublist.cons_cons
      -- the boxes on this one are those of the children, or there are none
      have htrees : ((c.above b).map (·.tree)).Sublist b.tree.children := by
        simp only [Canvas.above]
        split
        · exact List.nil_sublist _
        · rw [c.siblings_trees]
      refine List.Sublist.trans ?_ (htrees.flatMap _)
      rw [List.flatMap_map]
      apply List.Sublist.flatMap_right
      intro u hu
      have hcons := (ih u hu).map (Prod.map (u.tree.name :: ·) id)
      rw [List.map_map] at hcons ⊢
      exact hcons

/-- A node that is drawn is found at its path. -/
theorem Canvas.find?_of_mem_placed {b v : Box α R} {path : List String}
    (hordered : b.tree.IsOrdered) (h : (path, v) ∈ c.placed b) :
    b.tree.find? path = some v.tree :=
  (CallTree.mem_nodePaths_iff hordered).mp
    ((c.placed_sublist b).subset (List.mem_map_of_mem (f := fun (path, v) => (path, v.tree)) h))

/-- **The order of drawing** is that of the paths. -/
theorem Canvas.pairwise_before_placed {b : Box α R} (hordered : b.tree.IsOrdered) :
    ((c.placed b).map Prod.fst).Pairwise CallTree.Before := by
  have hsublist := (c.placed_sublist b).map Prod.fst
  rw [List.map_map] at hsublist
  exact (CallTree.pairwise_before_nodePaths hordered).sublist hsublist

/-- There is one box for a path. -/
theorem Canvas.placed_unique {b u v : Box α R} (hordered : b.tree.IsOrdered) {path : List String}
    (hu : (path, u) ∈ c.placed b) (hv : (path, v) ∈ c.placed b) : u = v := by
  have hnodup := (c.pairwise_before_placed hordered).imp CallTree.Before.ne
  exact congrArg Prod.snd (List.inj_on_of_nodup_map hnodup hu hv rfl)

/-- A node is drawn behind the node that it stands on. -/
theorem Canvas.exists_parent_of_placed {b v : Box α R} (hordered : b.tree.IsOrdered)
    {path : List String} {name : String} {front back : List (List String × Box α R)}
    (h : c.placed b = front ++ (path ++ [name], v) :: back) :
    ∃ parent, (path, parent) ∈ front := by
  have hmem : (path ++ [name], v) ∈ c.placed b := by
    rw [h]
    exact List.mem_append_right _ List.mem_cons_self
  obtain ⟨parent, hparent, -⟩ := Canvas.mem_placed_append.mp hmem
  refine ⟨parent, ?_⟩
  have hbefore := c.pairwise_before_placed hordered
  have hpath : CallTree.Before path (path ++ [name]) :=
    CallTree.before_append (List.cons_ne_nil name [])
  rw [h, List.map_append, List.map_cons, List.pairwise_append, List.pairwise_cons] at hbefore
  obtain ⟨-, ⟨hback, -⟩, -⟩ := hbefore
  rw [h, List.mem_append, List.mem_cons] at hparent
  rcases hparent with hfront | heq | hlater
  · exact hfront
  · -- the parent has another path than the node, and nothing behind the node comes before it
    exact absurd (congrArg Prod.fst heq) hpath.ne
  · exact absurd hpath (CallTree.Before.asymm (hback path (List.mem_map_of_mem hlater)))

/-! ## Section 4: Layouts of profiles -/

/-- The canvas of a layout of the given height. -/
def canvasOf (weight : α → R) (config : LayoutConfig R) (height : Nat) : Canvas α R where
  weight
  minWidth := config.minWidth
  rowHeight := Scalar.ofNat config.rowHeight
  bottom := Scalar.ofNat height - config.bottomMargin

/-- The width between the side margins. -/
def usableWidth (config : LayoutConfig R) : R :=
  Scalar.ofNat config.width - Scalar.ofNat 2 * config.sideMargin

/-- The box of a whole tree. -/
def rootBox (config : LayoutConfig R) (tree : CallTree α) : Box α R where
  tree
  depth := 0
  x := config.sideMargin
  width := usableWidth config

/-- **A layout** of a tree with a weight, on a canvas with room, is the drawing of its box. -/
theorem ofTree_eq_ok_iff {weight : α → R} {maxDepth : Nat} {config : LayoutConfig R}
    {tree : CallTree α} {layout : Layout α R} :
    ofTree weight maxDepth config tree = .ok (.ok layout) ↔
      ¬weight tree.label ≤ Scalar.ofNat 0 ∧ ¬usableWidth config ≤ Scalar.ofNat 0 ∧
        canvasHeight config maxDepth = .ok layout.height ∧ layout.width = config.width ∧
        layout.rects = (canvasOf weight config layout.height).draw (rootBox config tree) := by
  have hdraw : ∀ height, ((canvasOf weight config height).rectangles
      [rootBox config tree] #[]).toList = (canvasOf weight config height).draw
        (rootBox config tree) := fun height => by
    rw [Canvas.rectangles_eq, List.flatMap_singleton]
    rfl
  obtain ⟨width, height, rects⟩ := layout
  simp only [ofTree]
  split
  case isTrue hnone => simp [hnone]
  case isFalse hweight =>
    split
    case isTrue hnarrow =>
      have hnarrow' : usableWidth config ≤ Scalar.ofNat 0 := hnarrow
      simp [hnarrow']
    case isFalse hroom =>
      rw [Checked.bind_eq_ok_iff]
      constructor
      · rintro ⟨height', hheight, heq⟩
        cases heq
        exact ⟨hweight, hroom, hheight, rfl, hdraw _⟩
      · rintro ⟨-, -, hheight, rfl, rfl⟩
        exact ⟨height, hheight, by rw [← hdraw]; rfl⟩

/--
The rectangles are drawn by recursion over the tree of the root box, by a loop that ends. Each node
is drawn at most once, at its depth, and behind the node that it stands on.
-/
structure DrawnInPreorder (c : Canvas α R) (root : Box α R) (depthOf : α → Nat) (maxDepth : Nat)
    (rects : List (FrameRect α R)) : Prop where
  /-- The recursion: nothing, or the rectangle of the node and the drawings of its children. -/
  recursion : ∀ b : Box α R, c.draw b =
    if b.width < c.minWidth then []
    else c.rect b :: if c.weight b.tree.label ≤ Scalar.ofNat 0 then []
      else (b.tree.children.mapIdx (c.childBox b)).flatMap c.draw
  ordered : root.tree.IsOrdered
  drawn : rects = c.draw root
  ends : ∃ n ≤ root.tree.size, c.turn^[n] ([root], []) = ([], rects)
  nodes : ∃ placed : List (List String × Box α R),
    rects = placed.map (c.rect ·.2) ∧ (placed.map Prod.fst).Nodup ∧
    (∀ path b, (path, b) ∈ placed → root.tree.find? path = some b.tree ∧
      b.depth = path.length ∧ depthOf b.tree.label = path.length ∧ path.length ≤ maxDepth) ∧
    ∀ front back path name b, placed = front ++ (path ++ [name], b) :: back →
      ∃ parent, (path, parent) ∈ front

/-- Every layout is drawn so, if the labels of the tree know the depths of their nodes. -/
theorem drawnInPreorder_of_ofTree {weight : α → R} {maxDepth : Nat} {config : LayoutConfig R}
    {tree : CallTree α} {layout : Layout α R} {depthOf : α → Nat} (hordered : tree.IsOrdered)
    (hdepth : ∀ path u, tree.find? path = some u → depthOf u.label = path.length)
    (hmax : maxDepth = tree.height)
    (h : ofTree weight maxDepth config tree = .ok (.ok layout)) :
    DrawnInPreorder (canvasOf weight config layout.height) (rootBox config tree) depthOf maxDepth
      layout.rects := by
  obtain ⟨-, -, -, -, hrects⟩ := ofTree_eq_ok_iff.mp h
  let c := canvasOf weight config layout.height
  let root := rootBox config tree
  refine ⟨fun b => ?_, hordered, hrects, ?_, c.placed root, ?_, ?_, ?_, ?_⟩
  · rw [Canvas.draw_eq, Canvas.above_eq]
    split
    · rfl
    · split <;> rfl
  · obtain ⟨n, hn, hturns⟩ := c.exists_iterate_turn [root] #[]
    rw [c.rectangles_eq, List.flatMap_singleton] at hturns
    refine ⟨n, hn, ?_⟩
    rw [hrects]
    exact hturns
  · rw [hrects, c.map_rect_placed]
  · exact (c.pairwise_before_placed hordered).imp CallTree.Before.ne
  · intro path b hb
    have hfind := c.find?_of_mem_placed hordered hb
    refine ⟨hfind, ?_, hdepth path b.tree hfind, ?_⟩
    · rw [Canvas.depth_of_mem_placed hb]
      exact Nat.zero_add _
    · rw [hmax]
      exact CallTree.length_le_height hfind
  · intro front back path name b hsplit
    exact c.exists_parent_of_placed hordered hsplit

/--
**Layouts are drawn by recursion.** With numbers of any kind, a layout of a frame tree, or of two
frame trees that were merged, which any insertions have led to with any bounds on children, has
the rectangles of the recursive drawing: nothing for a node that is too narrow, and otherwise its
rectangle, followed by the drawings of its children in the order of their names, each of which
starts behind the widths of all siblings before it, unless the node has no weight. The loop that
draws ends, no node is drawn twice or before its parent, and all nodes are drawn at their depths.
-/
theorem layouts_drawn_in_preorder (config : LayoutConfig R) :
    (∀ (limits : TreeConfig) (paths : List (List String × Nat)) (tree : FrameTree)
      (layout : Layout FrameCounts R),
      (FrameTree.empty limits).insertAll paths = .ok tree →
      tree.layout config = .ok (.ok layout) →
      DrawnInPreorder (canvasOf FrameCounts.weight config layout.height)
        (rootBox config tree.root) (·.depth) tree.maxDepth layout.rects) ∧
    ∀ (limits limits' : TreeConfig) (paths paths' : List (List String × Nat))
      (before after : FrameTree) (layout : Layout DiffCounts R),
      (FrameTree.empty limits).insertAll paths = .ok before →
      (FrameTree.empty limits').insertAll paths' = .ok after →
      (DiffTree.ofTrees before after).layout config = .ok (.ok layout) →
      DrawnInPreorder (canvasOf (DiffTree.ofTrees before after).weight config layout.height)
        (rootBox config (DiffTree.ofTrees before after).root) (·.depth)
        (DiffTree.ofTrees before after).maxDepth layout.rects := by
  constructor
  · intro limits paths tree layout hinsert hlayout
    have htree := (FrameTree.Counted.empty limits).of_insertAll hinsert
    exact drawnInPreorder_of_ofTree htree.isOrdered (fun _ _ => htree.depth_of_find?)
      htree.maxDepth_eq_height hlayout
  · intro limits limits' paths paths' before after layout hinsert hinsert' hlayout
    have hmerge := DiffTree.Mergeable.of_insertAll hinsert hinsert'
    exact drawnInPreorder_of_ofTree (DiffTree.isOrdered_root hmerge)
      (fun _ _ => DiffTree.depth_of_find? hmerge) (DiffTree.maxDepth_ofTrees hmerge) hlayout

private def drawnTree : FrameTree where
  root := .node "root" { index := 0, depth := 0, inclusive := 8 }
    [.node "a" { index := 1, depth := 1, inclusive := 1 }
        [.node "b" { index := 2, depth := 2, inclusive := 1, selfCount := 1 } []],
      .node "c" { index := 3, depth := 1, inclusive := 7, selfCount := 4 }
        [.node "d" { index := 4, depth := 2, inclusive := 3, selfCount := 3 } []]]
  growth := { size := 5, maxDepth := 2 }

/-- A canvas whose usable width is eighty. -/
private def smallCanvas : LayoutConfig Rat where
  width := 100
  rowHeight := 16
  fontSize := 11
  minWidth := 20
  charWidth := 6
  sideMargin := 10
  bottomMargin := 30
  header := 60

private def drawnLayout : Layout FrameCounts Rat where
  width := 100
  height := 124
  rects := (canvasOf FrameCounts.weight smallCanvas 124).draw (rootBox smallCanvas drawnTree.root)

/-- A narrow frame is left out with what it carries, and its sibling starts behind it. -/
theorem layouts_drawn_in_preorder_narrow :
    drawnTree.layout smallCanvas = .ok (.ok drawnLayout) ∧
      DrawnInPreorder (canvasOf FrameCounts.weight smallCanvas 124)
        (rootBox smallCanvas drawnTree.root) (·.depth) 2 drawnLayout.rects ∧
      drawnLayout.rects.map (fun rect => (rect.name, rect.depth, rect.x, rect.width)) =
        [("root", 0, 10, 80), ("c", 1, 20, 70), ("d", 2, 20, 30)] := by
  have hinsert : (FrameTree.empty {}).insertAll
      [(["a", "b"], 1), (["c"], 4), (["c", "d"], 3)] = .ok drawnTree := rfl
  have hlayout : drawnTree.layout smallCanvas = .ok (.ok drawnLayout) := by
    refine ofTree_eq_ok_iff.mpr ⟨by decide +kernel, by decide +kernel, rfl, rfl, rfl⟩
  refine ⟨hlayout, (layouts_drawn_in_preorder smallCanvas).1 {} _ _ _ hinsert hlayout, ?_⟩
  decide +kernel

end StackProfiler.Layout
