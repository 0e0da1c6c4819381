import Mathlib.Algebra.BigOperators.Group.List.Basic
import Mathlib.Algebra.Order.BigOperators.Group.List
import Mathlib.Algebra.Order.Field.Rat
import Mathlib.Tactic.FieldSimp
import Mathlib.Tactic.Linarith
import Mathlib.Tactic.Positivity
import Mathlib.Tactic.Ring
import StackProfiler.Proofs.Layout.Preorder

/-!
# Boxes of weighted trees

With rational numbers, nothing is rounded. If no node of a tree weighs less than its children
together (`Weighted`), the boxes on a box stay between its edges and apart from each other. From
there on the argument goes along the paths of the nodes, one name at a time: the width of a box that
is drawn is its share of every box beneath it (`Canvas.Sound.width_eq`), a node is drawn exactly if
its share is wide enough (`Canvas.Sound.exists_placed_iff`), and boxes at paths of one length stand
apart in the order of these (`Canvas.Sound.placed_apart`).
-/

namespace StackProfiler.Layout

open CallTree

variable {α : Type}

/-! ## Section 1: Weighted trees -/

/-- A tree in order whose nodes all have a weight, and none less than its children together. -/
structure Weighted (weight : α → ℚ) (t : CallTree α) : Prop where
  ordered : t.IsOrdered
  pos : ∀ u ∈ t.preorder, 0 < weight u.label
  sum_le : ∀ u ∈ t.preorder, (u.children.map (weight ·.label)).sum ≤ weight u.label

namespace Weighted

variable {weight : α → ℚ} {t u : CallTree α}

theorem root_pos (h : Weighted weight t) : 0 < weight t.label :=
  h.pos t (mem_preorder_self t)

theorem of_mem (h : Weighted weight t) (hu : u ∈ t.children) : Weighted weight u := by
  have hsub : ∀ v ∈ u.preorder, v ∈ t.preorder := by
    intro v hv
    rw [preorder_eq t]
    exact List.mem_cons_of_mem _ (mem_preorderAll.mpr ⟨u, hu, hv⟩)
  exact ⟨h.ordered.of_mem hu, fun v hv => h.pos v (hsub v hv), fun v hv => h.sum_le v (hsub v hv)⟩

theorem child_le (h : Weighted weight t) (hu : u ∈ t.children) :
    weight u.label ≤ weight t.label := by
  refine le_trans ?_ (h.sum_le t (mem_preorder_self t))
  refine List.single_le_sum ?_ _ (List.mem_map_of_mem hu)
  intro w hw
  obtain ⟨v, hv, rfl⟩ := List.mem_map.mp hw
  exact (h.of_mem hv).root_pos.le

/-- **Weights fall** along every path. -/
theorem le_of_find? (h : Weighted weight t) {path : List String} (hfind : t.find? path = some u) :
    weight u.label ≤ weight t.label := by
  induction path generalizing t with
  | nil =>
    cases hfind
    exact le_rfl
  | cons name path ih =>
    obtain ⟨v, hchild, hfind⟩ := Option.bind_eq_some_iff.mp hfind
    have hv := List.mem_of_find?_eq_some hchild
    exact (ih (h.of_mem hv) hfind).trans (h.child_le hv)

end Weighted

/-! ## Section 2: Siblings -/

variable {c : Canvas α ℚ} {depth : Nat} {width total x : ℚ} {trees : List (CallTree α)}
variable {b u v : Box α ℚ}

/-- Siblings stand in the part of the width that their weights have in the total. -/
theorem Canvas.siblings_within (hwidth : 0 ≤ width) (htotal : 0 < total)
    (hpos : ∀ t ∈ trees, 0 < c.weight t.label) (hu : u ∈ c.siblings depth width total x trees) :
    x ≤ u.x ∧ u.x + u.width ≤ x + width * ((trees.map (c.weight ·.label)).sum / total) := by
  induction trees generalizing x with
  | nil => exact absurd hu List.not_mem_nil
  | cons t ts ih =>
    obtain ⟨ht, hts⟩ := List.forall_mem_cons.mp hpos
    have hshare : 0 ≤ width * (c.weight t.label / total) := by positivity
    have hrest : 0 ≤ width * ((ts.map (c.weight ·.label)).sum / total) := by
      have hsum : 0 ≤ (ts.map (c.weight ·.label)).sum := by
        apply List.sum_nonneg
        intro w hw
        obtain ⟨s, hs, rfl⟩ := List.mem_map.mp hw
        exact (hts s hs).le
      positivity
    rw [List.map_cons, List.sum_cons, add_div, mul_add]
    rcases List.mem_cons.mp hu with rfl | hu
    · exact ⟨le_rfl, by dsimp only; linarith⟩
    · obtain ⟨hleft, hright⟩ := ih hts hu
      constructor <;> linarith

/-- **Siblings stand apart**, from left to right in the order of their names. -/
theorem Canvas.siblings_apart (hwidth : 0 ≤ width) (htotal : 0 < total)
    (hpos : ∀ t ∈ trees, 0 < c.weight t.label) (hordered : Ordered trees)
    (hu : u ∈ c.siblings depth width total x trees)
    (hv : v ∈ c.siblings depth width total x trees) (hlt : u.tree.name < v.tree.name) :
    u.x + u.width ≤ v.x := by
  induction trees generalizing x with
  | nil => exact absurd hu List.not_mem_nil
  | cons t ts ih =>
    obtain ⟨-, hts⟩ := List.forall_mem_cons.mp hpos
    obtain ⟨hhead, htail⟩ := List.pairwise_cons.mp hordered
    have hmem : ∀ w ∈ c.siblings depth width total (x + width * (c.weight t.label / total)) ts,
        w.tree ∈ ts := fun w hw => by
      rw [← c.siblings_trees depth width total _ ts]
      exact List.mem_map_of_mem hw
    rcases List.mem_cons.mp hu with rfl | hu <;> rcases List.mem_cons.mp hv with rfl | hv
    · exact absurd hlt (String.lt_irrefl _)
    · exact (siblings_within hwidth htotal hts hv).1
    · exact absurd hlt (String.lt_asymm (hhead u.tree (hmem u hu)))
    · exact ih hts htail hu hv

/-! ## Section 3: Boxes on a box -/

/-- A box for a weighted tree. -/
structure Canvas.Sound (c : Canvas α ℚ) (b : Box α ℚ) : Prop where
  weighted : Weighted c.weight b.tree
  width_nonneg : 0 ≤ b.width

namespace Canvas.Sound

/-- All children of a node stand on its box. -/
theorem above_eq (h : c.Sound b) :
    c.above b =
      c.siblings (b.depth + 1) b.width (c.weight b.tree.label) b.x b.tree.children := by
  have hpos : ¬c.weight b.tree.label ≤ Scalar.ofNat 0 := not_le.mpr h.weighted.root_pos
  rw [Canvas.above]
  exact if_neg hpos

theorem of_mem (h : c.Sound b) (hu : u ∈ c.above b) : c.Sound u := by
  obtain ⟨htree, -, hwidth⟩ := mem_above hu
  have hchild := h.weighted.of_mem htree
  refine ⟨hchild, ?_⟩
  rw [hwidth, shareOf]
  have hb := h.weighted.root_pos
  have hu := hchild.root_pos
  have hwidth := h.width_nonneg
  positivity

theorem exists_mem_above (h : c.Sound b) {t : CallTree α} (ht : t ∈ b.tree.children) :
    ∃ u ∈ c.above b, u.tree = t := by
  rw [← c.siblings_trees (b.depth + 1) b.width (c.weight b.tree.label) b.x b.tree.children,
    ← h.above_eq] at ht
  exact List.mem_map.mp ht

/-- **What stands on a box** stays between its edges. -/
theorem within (h : c.Sound b) (hu : u ∈ c.above b) :
    b.x ≤ u.x ∧ u.x + u.width ≤ b.x + b.width := by
  have hpos := h.weighted.root_pos
  rw [h.above_eq] at hu
  obtain ⟨hleft, hright⟩ := siblings_within h.width_nonneg hpos
    (fun t ht => (h.weighted.of_mem ht).root_pos) hu
  refine ⟨hleft, hright.trans ?_⟩
  have hshare := div_le_one_of_le₀ (h.weighted.sum_le b.tree (mem_preorder_self _)) hpos.le
  have hle := mul_le_of_le_one_right h.width_nonneg hshare
  linarith

theorem apart (h : c.Sound b) (hu : u ∈ c.above b) (hv : v ∈ c.above b)
    (hlt : u.tree.name < v.tree.name) : u.x + u.width ≤ v.x := by
  rw [h.above_eq] at hu hv
  exact siblings_apart h.width_nonneg h.weighted.root_pos
    (fun t ht => (h.weighted.of_mem ht).root_pos) h.weighted.ordered.children hu hv hlt

/-! ## Section 4: Boxes that are drawn -/

variable {path path' : List String}

/-- **The width of a frame** is its share of the width of every frame that it stands on. -/
theorem width_eq (h : c.Sound b) (hv : (path, v) ∈ c.placed b) :
    v.width = b.width * (c.weight v.tree.label / c.weight b.tree.label) := by
  induction path generalizing b with
  | nil =>
    rw [(mem_placed_nil.mp hv).2, div_self h.weighted.root_pos.ne', mul_one]
  | cons name path ih =>
    obtain ⟨-, u, hu, -, hv⟩ := mem_placed_cons.mp hv
    have hsound := h.of_mem hu
    have hpos := hsound.weighted.root_pos.ne'
    rw [ih hsound hv, (mem_above hu).2.2, shareOf]
    field_simp

theorem of_mem_placed (h : c.Sound b) (hv : (path, v) ∈ c.placed b) : c.Sound v := by
  induction path generalizing b with
  | nil => exact (mem_placed_nil.mp hv).2 ▸ h
  | cons name path ih =>
    obtain ⟨-, u, hu, -, hv⟩ := mem_placed_cons.mp hv
    exact ih (h.of_mem hu) hv

/-- A frame stays between the edges of every frame that it stands on. -/
theorem placed_within (h : c.Sound b) (hv : (path, v) ∈ c.placed b) :
    b.x ≤ v.x ∧ v.x + v.width ≤ b.x + b.width := by
  induction path generalizing b with
  | nil =>
    rw [(mem_placed_nil.mp hv).2]
    exact ⟨le_rfl, le_rfl⟩
  | cons name path ih =>
    obtain ⟨-, u, hu, -, hv⟩ := mem_placed_cons.mp hv
    obtain ⟨hleft, hright⟩ := h.within hu
    obtain ⟨hleft', hright'⟩ := ih (h.of_mem hu) hv
    exact ⟨hleft.trans hleft', hright'.trans hright⟩

/-- A box is as wide as any node in it, so it is drawn if one of them is wide enough. -/
theorem not_narrow (h : c.Sound b) {t : CallTree α} (hfind : b.tree.find? path = some t)
    (hwide : c.minWidth ≤ b.width * (c.weight t.label / c.weight b.tree.label)) :
    ¬b.width < c.minWidth := by
  have hshare := div_le_one_of_le₀ (h.weighted.le_of_find? hfind) h.weighted.root_pos.le
  exact not_lt.mpr (hwide.trans (mul_le_of_le_one_right h.width_nonneg hshare))

/-- **A node is drawn** exactly if its own share is wide enough. -/
theorem exists_placed_iff (h : c.Sound b) {t : CallTree α} (hfind : b.tree.find? path = some t) :
    (∃ v, (path, v) ∈ c.placed b) ↔
      c.minWidth ≤ b.width * (c.weight t.label / c.weight b.tree.label) := by
  constructor
  · rintro ⟨v, hv⟩
    have htree := c.find?_of_mem_placed h.weighted.ordered hv
    rw [hfind] at htree
    obtain rfl : t = v.tree := Option.some.inj htree
    obtain ⟨u, hu, hself⟩ := mem_placed_append.mp ((List.append_nil path).symm ▸ hv)
    obtain ⟨hwide, rfl⟩ := mem_placed_nil.mp hself
    rw [← h.width_eq hv]
    exact not_lt.mp hwide
  · intro hwide
    have hb := h.not_narrow hfind hwide
    induction path generalizing b with
    | nil => exact ⟨b, mem_placed_nil.mpr ⟨hb, rfl⟩⟩
    | cons name path ih =>
      obtain ⟨s, hchild, hfind⟩ := Option.bind_eq_some_iff.mp hfind
      obtain ⟨hs, hname⟩ := (child?_eq_some_iff h.weighted.ordered.children).mp hchild
      obtain ⟨u, hu, rfl⟩ := h.exists_mem_above hs
      have hsound := h.of_mem hu
      -- the width of the child is its share, in which the node has its share again
      have hshare : c.minWidth ≤ u.width * (c.weight t.label / c.weight u.tree.label) := by
        have hpos := hsound.weighted.root_pos.ne'
        rw [(mem_above hu).2.2, shareOf]
        refine hwide.trans_eq ?_
        field_simp
      obtain ⟨v, hv⟩ := ih hsound hfind hshare (hsound.not_narrow hfind hshare)
      exact ⟨v, mem_placed_cons.mpr ⟨hb, u, hu, hname, hv⟩⟩

/-- **The first child** starts where its parent starts. -/
theorem first_x (h : c.Sound b) {t : CallTree α} {ts : List (CallTree α)}
    (hchildren : b.tree.children = t :: ts) (hv : ([t.name], v) ∈ c.placed b) : v.x = b.x := by
  obtain ⟨-, u, hu, hname, hv⟩ := mem_placed_cons.mp hv
  obtain ⟨-, rfl⟩ := mem_placed_nil.mp hv
  rw [h.above_eq, hchildren] at hu
  rcases List.mem_cons.mp hu with rfl | hu
  · rfl
  · -- every other child has a later name
    have hmem := List.mem_map_of_mem (f := (·.tree)) hu
    rw [c.siblings_trees] at hmem
    have hordered := h.weighted.ordered.children
    rw [hchildren] at hordered
    exact absurd hname.symm (String.ne_of_lt ((List.pairwise_cons.mp hordered).1 v.tree hmem))

/-- **Frames of a row** stand apart, from left to right in the order of their paths. -/
theorem placed_apart (h : c.Sound b) (hu : (path, u) ∈ c.placed b)
    (hv : (path', v) ∈ c.placed b) (hlength : path.length = path'.length)
    (hbefore : Before path path') : u.x + u.width ≤ v.x := by
  induction hbefore generalizing b with
  | nil => exact absurd hlength (Nat.succ_ne_zero _).symm
  | @cons name path path' hrest ih =>
    -- the paths go through one child, so the frames stand on one box
    obtain ⟨hb, s, hs, hname, hu⟩ := mem_placed_cons.mp hu
    obtain ⟨-, s', hs', hname', hv⟩ := mem_placed_cons.mp hv
    have hbox : s = s' := by
      have hmem : ([name], s) ∈ c.placed b := mem_placed_cons.mpr
        ⟨hb, s, hs, hname, mem_placed_nil.mpr ⟨not_narrow_of_mem_placed hu, rfl⟩⟩
      have hmem' : ([name], s') ∈ c.placed b := mem_placed_cons.mpr
        ⟨hb, s', hs', hname', mem_placed_nil.mpr ⟨not_narrow_of_mem_placed hv, rfl⟩⟩
      exact c.placed_unique h.weighted.ordered hmem hmem'
    subst hbox
    exact ih (h.of_mem hs) hu hv (Nat.succ.inj hlength)
  | rel hlt =>
    obtain ⟨-, s, hs, rfl, hin⟩ := mem_placed_cons.mp hu
    obtain ⟨-, s', hs', rfl, hin'⟩ := mem_placed_cons.mp hv
    calc
      u.x + u.width ≤ s.x + s.width := ((h.of_mem hs).placed_within hin).2
      _ ≤ s'.x := h.apart hs hs' hlt
      _ ≤ v.x := ((h.of_mem hs').placed_within hin').1

end Canvas.Sound

end StackProfiler.Layout
