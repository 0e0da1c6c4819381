import Mathlib.Algebra.BigOperators.Ring.Finset
import Mathlib.Tactic.GCongr
import StackProfiler.Proofs.Layout.Geometry

/-!
# Flame graphs of profiles and of changes

Over rational numbers, the layout of a weighted tree is a flame graph (`IsFlameGraph`): widths are to
scale, what is wide enough is drawn, and no frame leaves its parent, overlaps another of its row or
stands outside of the margins. The tree of a profile is weighted by its samples, and the merged tree
of a change by the mean of its two shares (`layouts_to_scale`).
-/

namespace StackProfiler.Layout

open CallTree

variable {α : Type} {c : Canvas α ℚ} {b v : Box α ℚ}

/-! ## Section 1: Frames and rows -/

/-- The rectangles of the boxes that are drawn, each with the path of its node. -/
def Canvas.frames (c : Canvas α ℚ) (b : Box α ℚ) : List (List String × FrameRect α ℚ) :=
  (c.placed b).map fun (path, v) => (path, c.rect v)

theorem Canvas.mem_frames {path : List String} {rect : FrameRect α ℚ} :
    (path, rect) ∈ c.frames b ↔ ∃ v, (path, v) ∈ c.placed b ∧ rect = c.rect v := by
  simp [Canvas.frames, eq_comm]

/-- The frames come in the order of their paths, and from left to right within a row. -/
theorem Canvas.Sound.pairwise_frames (h : c.Sound b) :
    (c.frames b).Pairwise fun (path, rect) (path', rect') =>
      Before path path' ∧ (rect.depth = rect'.depth → rect.x + rect.width ≤ rect'.x) := by
  have hbefore := c.pairwise_before_placed h.weighted.ordered
  rw [Canvas.frames, List.pairwise_map]
  rw [List.pairwise_map] at hbefore
  refine hbefore.imp_of_mem ?_
  rintro ⟨path, u⟩ ⟨path', v⟩ hu hv hbefore
  refine ⟨hbefore, fun hrow => h.placed_apart hu hv ?_ hbefore⟩
  -- boxes of one depth stand at paths of one length
  have hdepth : u.depth = v.depth := hrow
  rw [depth_of_mem_placed hu, depth_of_mem_placed hv] at hdepth
  exact Nat.add_left_cancel hdepth

/-- **The height** of a canvas, if it fits in a word: a row for each level, one to spare, and the
header. -/
theorem height_eq_of_canvasHeight {config : LayoutConfig ℚ} {maxDepth height : Nat}
    (hword : maxDepth < wordLimit 32) (h : canvasHeight config maxDepth = .ok height) :
    height = (maxDepth + 2) * config.rowHeight + config.header := by
  obtain ⟨rows, hrows, h⟩ := Checked.bind_eq_ok_iff.mp h
  obtain ⟨body, hbody, hheight⟩ := Checked.bind_eq_ok_iff.mp h
  obtain ⟨rfl, -⟩ := Checked.add_eq_ok_iff.mp hrows
  obtain ⟨rfl, -⟩ := Checked.fit_eq_ok_iff.mp hbody
  obtain ⟨rfl, -⟩ := Checked.add_eq_ok_iff.mp hheight
  rw [Nat.mod_eq_of_lt hword]

/-- A row that is not above the top row stands between the margins. -/
theorem rows_within {weight : α → ℚ} {config : LayoutConfig ℚ} {maxDepth height : Nat}
    (hheight : height = (maxDepth + 2) * config.rowHeight + config.header)
    (hdepth : v.depth ≤ maxDepth) :
    (config.header - config.bottomMargin + config.rowHeight : ℚ) ≤
        ((canvasOf weight config height).rect v).y ∧
      ((canvasOf weight config height).rect v).y + config.rowHeight ≤
        height - config.bottomMargin := by
  have hy : ((canvasOf weight config height).rect v).y =
      height - config.bottomMargin - (v.depth + 1 : ℕ) * config.rowHeight := rfl
  obtain ⟨above, rfl⟩ := Nat.exists_eq_add_of_le hdepth
  have hbelow : (0 : ℚ) ≤ v.depth * config.rowHeight := by positivity
  have habove : (0 : ℚ) ≤ above * config.rowHeight := by positivity
  rw [hy, hheight]
  push_cast
  constructor <;> linarith

/-! ## Section 2: Flame graphs -/

/-- The width of a node on a canvas that the root spans. -/
def shareOfUsable (weight : α → ℚ) (config : LayoutConfig ℚ) (tree node : CallTree α) : ℚ :=
  usableWidth config * (weight node.label / weight tree.label)

/--
The rectangles of a layout, each with the path of its node, are a flame graph of a tree: their
widths are to scale, all nodes that are wide enough are drawn, children stand on their parents, no
two frames of a row overlap, and all of them stand between the margins.
-/
structure IsFlameGraph (weight : α → ℚ) (config : LayoutConfig ℚ) (tree : CallTree α)
    (layout : Layout α ℚ) (frames : List (List String × FrameRect α ℚ)) : Prop where
  rects_eq : layout.rects = frames.map Prod.snd
  /-- Every frame shows the node at its path, in the row of its depth. -/
  shows : ∀ path rect, (path, rect) ∈ frames → ∃ node, tree.find? path = some node ∧
    rect.name = node.name ∧ rect.label = node.label ∧ rect.depth = path.length ∧
    rect.width = shareOfUsable weight config tree node
  /-- A node is drawn exactly if it is wide enough, whatever stands beneath it. -/
  drawn_iff : ∀ path node, tree.find? path = some node →
    ((∃ rect, (path, rect) ∈ frames) ↔ config.minWidth ≤ shareOfUsable weight config tree node)
  /-- A frame stands between the edges of its parent. -/
  inside : ∀ path name rect, (path ++ [name], rect) ∈ frames →
    ∃ parent, (path, parent) ∈ frames ∧ parent.x ≤ rect.x ∧
      rect.x + rect.width ≤ parent.x + parent.width
  /-- The first child starts at the left edge of its parent. -/
  first : ∀ path node child children rect, tree.find? path = some node →
    node.children = child :: children → (path ++ [child.name], rect) ∈ frames →
    ∃ parent, (path, parent) ∈ frames ∧ rect.x = parent.x
  /-- The frames come in the order of their paths, and from left to right within a row. -/
  apart : frames.Pairwise fun (path, rect) (path', rect') =>
    Before path path' ∧ (rect.depth = rect'.depth → rect.x + rect.width ≤ rect'.x)
  rows : ∀ path rect, (path, rect) ∈ frames →
    (config.header - config.bottomMargin + config.rowHeight ≤ rect.y ∧
      rect.y + config.rowHeight ≤ layout.height - config.bottomMargin)

/-- **Layouts of weighted trees** are flame graphs. -/
theorem exists_isFlameGraph {weight : α → ℚ} {config : LayoutConfig ℚ} {tree : CallTree α}
    {maxDepth height : Nat} (hweighted : Weighted weight tree) (hroom : 0 < usableWidth config)
    (hdepth : maxDepth = tree.height) (hword : maxDepth < wordLimit 32)
    (hheight : canvasHeight config maxDepth = .ok height) :
    ∃ layout frames, ofTree weight maxDepth config tree = .ok (.ok layout) ∧
      IsFlameGraph weight config tree layout frames := by
  let c := canvasOf weight config height
  let root := rootBox config tree
  have hsound : c.Sound root := ⟨hweighted, hroom.le⟩
  let layout : Layout α ℚ := { width := config.width, height, rects := c.draw root }
  have hlayout : ofTree weight maxDepth config tree = .ok (.ok layout) :=
    ofTree_eq_ok_iff.mpr ⟨not_le.mpr hweighted.root_pos, not_le.mpr hroom, hheight, rfl, rfl⟩
  have hfind : ∀ {path v}, (path, v) ∈ c.placed root → tree.find? path = some v.tree :=
    fun hv => c.find?_of_mem_placed (b := root) hweighted.ordered hv
  have hlevel : ∀ {path v}, (path, v) ∈ c.placed root → v.depth = path.length := fun hv =>
    (Canvas.depth_of_mem_placed hv).trans (Nat.zero_add _)
  refine ⟨layout, c.frames root, hlayout, ?_, ?_, ?_, ?_, ?_, hsound.pairwise_frames, ?_⟩
  · rw [Canvas.frames, List.map_map]
    exact (c.map_rect_placed root).symm
  · intro path rect hrect
    obtain ⟨v, hv, rfl⟩ := Canvas.mem_frames.mp hrect
    exact ⟨v.tree, hfind hv, rfl, rfl, hlevel hv, hsound.width_eq hv⟩
  · intro path node hnode
    refine Iff.trans ?_ (hsound.exists_placed_iff hnode)
    constructor
    · rintro ⟨rect, hrect⟩
      obtain ⟨v, hv, -⟩ := Canvas.mem_frames.mp hrect
      exact ⟨v, hv⟩
    · rintro ⟨v, hv⟩
      exact ⟨c.rect v, Canvas.mem_frames.mpr ⟨v, hv, rfl⟩⟩
  · intro path name rect hrect
    obtain ⟨v, hv, rfl⟩ := Canvas.mem_frames.mp hrect
    obtain ⟨u, hu, hbeneath⟩ := Canvas.mem_placed_append.mp hv
    exact ⟨c.rect u, Canvas.mem_frames.mpr ⟨u, hu, rfl⟩,
      (hsound.of_mem_placed hu).placed_within hbeneath⟩
  · intro path node child children rect hnode hchildren hrect
    obtain ⟨v, hv, rfl⟩ := Canvas.mem_frames.mp hrect
    obtain ⟨u, hu, hbeneath⟩ := Canvas.mem_placed_append.mp hv
    rw [hfind hu] at hnode
    obtain rfl : u.tree = node := Option.some.inj hnode
    exact ⟨c.rect u, Canvas.mem_frames.mpr ⟨u, hu, rfl⟩,
      (hsound.of_mem_placed hu).first_x hchildren hbeneath⟩
  · intro path rect hrect
    obtain ⟨v, hv, rfl⟩ := Canvas.mem_frames.mp hrect
    refine rows_within (height_eq_of_canvasHeight hword hheight) ?_
    rw [hlevel hv, hdepth]
    exact length_le_height (hfind hv)

/-! ## Section 3: Profiles and changes -/

section Profiles

variable {total total' : Nat}

/-- A profile with samples is weighted by them. -/
theorem weighted_of_counted {tree : FrameTree} (h : FrameTree.Counted tree total)
    (htotal : 0 < tree.totalSamples) : Weighted FrameCounts.weight tree.root where
  ordered := h.isOrdered
  pos u hu := Nat.cast_pos.mpr (h.inclusive_pos htotal hu)
  sum_le u hu := by
    have hcast : (u.children.map fun v => (FrameCounts.weight v.label : ℚ)).sum =
        ((u.children.map (·.label.inclusive)).sum : ℕ) := by
      rw [Nat.cast_list_sum, List.map_map]
      rfl
    have hle : (u.children.map (·.label.inclusive)).sum ≤ u.label.inclusive := by
      rw [(h.sound u hu).balanced]
      exact Nat.le_add_left ..
    rw [hcast]
    exact Nat.cast_le.mpr hle

theorem weight_eq {tree : DiffTree} (hbefore : 0 < tree.beforeTotal)
    (hafter : 0 < tree.afterTotal) (counts : DiffCounts) :
    (tree.weight counts : ℚ) =
      (counts.before / tree.beforeTotal + counts.after / tree.afterTotal) / 2 := by
  rw [DiffTree.weight, share, share, if_neg hbefore.ne', if_neg hafter.ne']
  rfl

/-- Weights of siblings add up. -/
theorem sum_weight {tree : DiffTree} (hbefore : 0 < tree.beforeTotal)
    (hafter : 0 < tree.afterTotal) (trees : List (CallTree DiffCounts)) :
    (trees.map fun t => (tree.weight t.label : ℚ)).sum =
      ((trees.map (·.label.before)).sum / tree.beforeTotal +
        (trees.map (·.label.after)).sum / tree.afterTotal) / 2 := by
  induction trees with
  | nil => simp
  | cons t ts ih =>
    rw [List.map_cons, List.sum_cons, ih, weight_eq hbefore hafter, List.map_cons, List.map_cons,
      List.sum_cons, List.sum_cons]
    push_cast
    ring

/-- **A change** with samples on both sides is weighted by the mean of its shares. -/
theorem weighted_ofTrees {before after : FrameTree} (hmerge : DiffTree.Mergeable before after)
    (hbefore : FrameTree.Counted before total) (hafter : FrameTree.Counted after total')
    (htotal : 0 < (DiffTree.ofTrees before after).beforeTotal)
    (htotal' : 0 < (DiffTree.ofTrees before after).afterTotal) :
    Weighted (DiffTree.ofTrees before after).weight (DiffTree.ofTrees before after).root where
  ordered := DiffTree.isOrdered_root hmerge
  pos u hu := by
    rw [weight_eq htotal htotal']
    rcases DiffTree.counts_pos hmerge hbefore hafter htotal htotal' hu with hu | hu <;> positivity
  sum_le u hu := by
    obtain ⟨hle, hle'⟩ := DiffTree.sum_counts_children_le hmerge hbefore hafter hu
    rw [sum_weight htotal htotal', weight_eq htotal htotal']
    gcongr

end Profiles

/--
**Layouts are to scale.** With rational numbers, on a canvas with room between its side margins
whose height fits in a word, every frame tree with samples, and every difference tree with samples
on both sides, has a layout, which is a flame graph of it. This holds of all trees that any
insertions have led to, with any bounds on children.
-/
theorem layouts_to_scale (config : LayoutConfig ℚ) (hroom : 0 < usableWidth config) :
    (∀ (limits : TreeConfig) (paths : List (List String × Nat)) (tree : FrameTree) (height : Nat),
      (FrameTree.empty limits).insertAll paths = .ok tree → 0 < tree.totalSamples →
      tree.maxDepth < wordLimit 32 → canvasHeight config tree.maxDepth = .ok height →
      ∃ layout frames, tree.layout config = .ok (.ok layout) ∧
        IsFlameGraph FrameCounts.weight config tree.root layout frames) ∧
    ∀ (limits limits' : TreeConfig) (paths paths' : List (List String × Nat))
      (before after : FrameTree) (height : Nat),
      (FrameTree.empty limits).insertAll paths = .ok before →
      (FrameTree.empty limits').insertAll paths' = .ok after →
      0 < (DiffTree.ofTrees before after).beforeTotal →
      0 < (DiffTree.ofTrees before after).afterTotal →
      (DiffTree.ofTrees before after).maxDepth < wordLimit 32 →
      canvasHeight config (DiffTree.ofTrees before after).maxDepth = .ok height →
      ∃ layout frames, (DiffTree.ofTrees before after).layout config = .ok (.ok layout) ∧
        IsFlameGraph (DiffTree.ofTrees before after).weight config
          (DiffTree.ofTrees before after).root layout frames := by
  constructor
  · intro limits paths tree height hinsert htotal hword hheight
    have htree := (FrameTree.Counted.empty limits).of_insertAll hinsert
    exact exists_isFlameGraph (weighted_of_counted htree htotal) hroom htree.maxDepth_eq_height
      hword hheight
  · intro limits limits' paths paths' before after height hinsert hinsert' htotal htotal' hword
      hheight
    have hbefore := (FrameTree.Counted.empty limits).of_insertAll hinsert
    have hafter := (FrameTree.Counted.empty limits').of_insertAll hinsert'
    have hmerge := DiffTree.Mergeable.of_insertAll hinsert hinsert'
    exact exists_isFlameGraph (weighted_ofTrees hmerge hbefore hafter htotal htotal') hroom
      (DiffTree.maxDepth_ofTrees hmerge) hword hheight

private def scaledTree : FrameTree where
  root := .node "root" { index := 0, depth := 0, inclusive := 8 }
    [.node "a" { index := 1, depth := 1, inclusive := 1 }
        [.node "b" { index := 2, depth := 2, inclusive := 1, selfCount := 1 } []],
      .node "c" { index := 3, depth := 1, inclusive := 7, selfCount := 7 } []]
  growth := { size := 4, maxDepth := 2 }

private def scaledTreeAfter : FrameTree where
  root := .node "root" { index := 0, depth := 0, inclusive := 2 }
    [.node "d" { index := 1, depth := 1, inclusive := 2, selfCount := 2 } []]
  growth := { size := 2, maxDepth := 1 }

/-- A canvas whose usable width is eighty. -/
private def scaledCanvas : LayoutConfig ℚ where
  width := 100
  rowHeight := 16
  fontSize := 11
  minWidth := 20
  charWidth := 6
  sideMargin := 10
  bottomMargin := 30
  header := 60

/-- A profile with a frame that is too narrow, and its change into a profile that shares no frame
with it, are to scale. -/
theorem layouts_to_scale_vanished :
    (∃ layout frames, scaledTree.layout scaledCanvas = .ok (.ok layout) ∧
      IsFlameGraph FrameCounts.weight scaledCanvas scaledTree.root layout frames) ∧
    ∃ layout frames,
      (DiffTree.ofTrees scaledTree scaledTreeAfter).layout scaledCanvas = .ok (.ok layout) ∧
      IsFlameGraph (DiffTree.ofTrees scaledTree scaledTreeAfter).weight scaledCanvas
        (DiffTree.ofTrees scaledTree scaledTreeAfter).root layout frames := by
  have hroom : 0 < usableWidth scaledCanvas := by decide +kernel
  have hinsert : (FrameTree.empty {}).insertAll [(["a", "b"], 1), (["c"], 7)] = .ok scaledTree :=
    rfl
  have hinsert' : (FrameTree.empty {}).insertAll [(["d"], 2)] = .ok scaledTreeAfter := rfl
  have hmerge := DiffTree.Mergeable.of_insertAll hinsert hinsert'
  have hdepth : (DiffTree.ofTrees scaledTree scaledTreeAfter).maxDepth = 2 := by
    rw [DiffTree.maxDepth_ofTrees hmerge, DiffTree.root_ofTrees hmerge]
    exact height_union DiffTree.countsOf 0 scaledTree.root scaledTreeAfter.root
  obtain ⟨hprofile, hchange⟩ := layouts_to_scale scaledCanvas hroom
  refine ⟨hprofile {} _ scaledTree 124 hinsert (by decide) (by decide) rfl,
    hchange {} {} _ _ scaledTree scaledTreeAfter 124 hinsert hinsert' ?_ ?_ ?_ ?_⟩
  · rw [DiffTree.beforeTotal_ofTrees]
    decide
  · rw [DiffTree.afterTotal_ofTrees]
    decide
  · rw [hdepth]
    decide
  · rw [hdepth]
    rfl

end StackProfiler.Layout
