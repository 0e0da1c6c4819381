import StackProfiler.Proofs.DiffTree.ReadBack
import StackProfiler.Proofs.FrameTree.Built

/-!
# A difference tree is the union of its sides

Two frame trees that insertions have led to, with any bounds on children, are merged name by name
and level by level: a path stands in the difference tree if it stands on one of the sides, once,
with the counts that it has there (`DiffTree.ofTrees_pointwise`).
-/

namespace StackProfiler.DiffTree

open CallTree

variable {before after : FrameTree} {total total' : Nat}

/-! ## Section 1: Counts on both sides -/

theorem before_countsOf (depth : Nat) (x y : Option FrameCounts) :
    (countsOf depth x y).before =
      (x.map (·.inclusive)).getD 0 + (y.map fun _ => 0).getD 0 := by
  cases y <;> rfl

theorem after_countsOf (depth : Nat) (x y : Option FrameCounts) :
    (countsOf depth x y).after =
      (x.map fun _ => 0).getD 0 + (y.map (·.inclusive)).getD 0 := by
  cases x <;> simp [countsOf]

/-- A merged node has the counts of the nodes that it stands for. -/
theorem counts_of_unionOption {depth : Nat} {t t' : Option (CallTree FrameCounts)}
    {u : CallTree DiffCounts} (h : unionOption countsOf depth t t' = some u) :
    u.label.before = (t.map (·.label.inclusive)).getD 0 ∧
      u.label.after = (t'.map (·.label.inclusive)).getD 0 ∧ u.label.depth = depth := by
  rw [label_of_unionOption countsOf h]
  cases t <;> cases t' <;> exact ⟨rfl, rfl, rfl⟩

/-! ## Section 2: Merged trees -/

/-- Two trees that can be merged: their children are in order, and the first has the usual root. -/
structure Mergeable (before after : FrameTree) : Prop where
  name_root : before.root.name = rootName
  before : before.root.IsOrdered
  after : after.root.IsOrdered

/-- Trees that insertions have led to can be merged. -/
theorem Mergeable.of_insertAll {config config' : TreeConfig}
    {paths paths' : List (List String × Nat)}
    (hbefore : (FrameTree.empty config).insertAll paths = .ok before)
    (hafter : (FrameTree.empty config').insertAll paths' = .ok after) : Mergeable before after where
  name_root := FrameTree.name_root_of_insertAll hbefore
  before := ((FrameTree.Counted.empty config).of_insertAll hbefore).isOrdered
  after := ((FrameTree.Counted.empty config').of_insertAll hafter).isOrdered

theorem beforeTotal_ofTrees : (ofTrees before after).beforeTotal = before.totalSamples :=
  (Merge.totals_run _).1

theorem afterTotal_ofTrees : (ofTrees before after).afterTotal = after.totalSamples :=
  (Merge.totals_run _).2

/-- At a path of the union there is what the two sides have at the path. -/
theorem find?_union (h : Mergeable before after) (path : List String) :
    (CallTree.union countsOf 0 before.root after.root).find? path =
      unionOption countsOf path.length (before.find? path) (after.find? path) := by
  have hfind := CallTree.find?_union countsOf 0 h.before h.after path
  rw [Nat.zero_add] at hfind
  exact hfind

theorem isOrdered_union (h : Mergeable before after) :
    (CallTree.union countsOf 0 before.root after.root).IsOrdered :=
  h.before.union countsOf 0 h.after

/-- The depth of a node of the union is the length of its path. -/
theorem depth_union (h : Mergeable before after) (path : List String) (u : CallTree DiffCounts)
    (hu : (CallTree.union countsOf 0 before.root after.root).find? path = some u) :
    u.label.depth = path.length := by
  rw [find?_union h] at hu
  exact (counts_of_unionOption hu).2.2

/-- The merge starts with the root, which is on the stack. -/
theorem sound_start (h : Mergeable before after) :
    Merge.Sound (CallTree.union countsOf 0 before.root after.root) (fun _ => []) []
      (Merge.start before after) := by
  have honly : ∀ {root node : DiffNode} {id : Nat}, #[root][id]? = some node →
      id = 0 ∧ node = root := by
    intro root node id hnode
    obtain ⟨hlt, heq⟩ := Array.getElem?_eq_some_iff.mp hnode
    obtain rfl : id = 0 := Nat.lt_one_iff.mp hlt
    exact ⟨rfl, heq.symm⟩
  constructor
  case size_pos => exact Nat.one_pos
  case home_root => rfl
  case node =>
    intro id node hnode
    obtain ⟨rfl, rfl⟩ := honly hnode
    refine ⟨_, rfl, ?_, ?_⟩
    · rw [name_union, h.name_root]
    · rw [label_union]
      rfl
  case link =>
    intro id node name child hnode hlink
    obtain ⟨rfl, rfl⟩ := honly hnode
    cases hlink
  case parent =>
    intro child hpos hlt
    exact absurd (Nat.lt_one_iff.mp hlt) hpos.ne'
  case pending =>
    intro id sides hmem
    cases List.mem_singleton.mp hmem
    exact ⟨⟨fun t ht => Option.some.inj ht ▸ h.before, fun t ht => Option.some.inj ht ▸ h.after⟩,
      _, rfl, rfl, rfl⟩
  case nodup => exact List.nodup_singleton 0
  case unmade =>
    intro id name hmem
    cases hmem
  case complete =>
    intro id node name hnode _
    obtain ⟨rfl, -⟩ := honly hnode
    exact .inr (.inl List.mem_cons_self)
  case depth_le =>
    intro id node hnode
    obtain ⟨-, rfl⟩ := honly hnode
    exact Nat.le_refl 0
  case depth_eq => exact ⟨0, _, rfl, rfl⟩

/-- **The merge** ends with every node of the union made. -/
theorem exists_sound_ofTrees (h : Mergeable before after) :
    ∃ home, Merge.Sound (CallTree.union countsOf 0 before.root after.root) home []
      { tree := ofTrees before after, pending := [] } :=
  (sound_start h).run

/-- **What is drawn** is the union of the two call trees. -/
theorem root_ofTrees (h : Mergeable before after) :
    (ofTrees before after).root = CallTree.union countsOf 0 before.root after.root := by
  obtain ⟨home, hsound⟩ := exists_sound_ofTrees h
  exact hsound.root_eq (isOrdered_union h) (depth_union h)

theorem maxDepth_ofTrees (h : Mergeable before after) :
    (ofTrees before after).maxDepth = (ofTrees before after).root.height := by
  obtain ⟨home, hsound⟩ := exists_sound_ofTrees h
  rw [root_ofTrees h, hsound.maxDepth_eq (isOrdered_union h) (depth_union h)]

theorem isOrdered_root (h : Mergeable before after) : (ofTrees before after).root.IsOrdered := by
  rw [root_ofTrees h]
  exact isOrdered_union h

/-- The depth that a merged node keeps is the length of its path. -/
theorem depth_of_find? (h : Mergeable before after) {path : List String} {u : CallTree DiffCounts}
    (hfind : (ofTrees before after).root.find? path = some u) : u.label.depth = path.length := by
  rw [root_ofTrees h] at hfind
  exact depth_union h path u hfind

/-- In a tree whose counts add up, the children of a node have at most its samples. -/
theorem sum_inclusive_children_le {tree : FrameTree} (h : FrameTree.Counted tree total)
    (path : List String) :
    ((tree.find? path).map fun u => (u.children.map (·.label.inclusive)).sum).getD 0 ≤
      ((tree.find? path).map (·.label.inclusive)).getD 0 := by
  cases hfind : tree.find? path with
  | none => exact Nat.le_refl 0
  | some u =>
    have hsound := h.sound u (mem_preorder_of_find? h.isOrdered hfind)
    rw [Option.map_some, Option.map_some, Option.getD_some, Option.getD_some, hsound.balanced]
    exact Nat.le_add_left ..

/-- A merged node stands for what the two sides have at its path. -/
theorem exists_unionOption_of_mem (h : Mergeable before after) {u : CallTree DiffCounts}
    (hu : u ∈ (ofTrees before after).root.preorder) :
    ∃ path, unionOption countsOf path.length (before.find? path) (after.find? path) = some u := by
  rw [root_ofTrees h] at hu
  obtain ⟨path, hfind⟩ := exists_find?_of_mem_preorder (isOrdered_union h) hu
  exact ⟨path, (find?_union h path).symm.trans hfind⟩

/-- On each side, the children of a merged node have at most its samples. -/
theorem sum_counts_children_le (h : Mergeable before after)
    (hbefore : FrameTree.Counted before total) (hafter : FrameTree.Counted after total')
    {u : CallTree DiffCounts} (hu : u ∈ (ofTrees before after).root.preorder) :
    (u.children.map (·.label.before)).sum ≤ u.label.before ∧
      (u.children.map (·.label.after)).sum ≤ u.label.after := by
  obtain ⟨path, hunion⟩ := exists_unionOption_of_mem h hu
  obtain ⟨hleft, hright, -⟩ := counts_of_unionOption hunion
  have hbelow := sum_inclusive_children_le hbefore path
  have hbelow' := sum_inclusive_children_le hafter path
  rw [hleft, hright, sum_children_of_unionOption countsOf before_countsOf hunion,
    sum_children_of_unionOption countsOf after_countsOf hunion]
  generalize before.find? path = t at *
  generalize after.find? path = t' at *
  cases t <;> cases t' <;> simp_all

/-- A merged node has samples on one side, if there are samples on both. -/
theorem counts_pos (h : Mergeable before after) (hbefore : FrameTree.Counted before total)
    (hafter : FrameTree.Counted after total') (htotal : 0 < (ofTrees before after).beforeTotal)
    (htotal' : 0 < (ofTrees before after).afterTotal) {u : CallTree DiffCounts}
    (hu : u ∈ (ofTrees before after).root.preorder) :
    0 < u.label.before ∨ 0 < u.label.after := by
  rw [beforeTotal_ofTrees] at htotal
  rw [afterTotal_ofTrees] at htotal'
  obtain ⟨path, hunion⟩ := exists_unionOption_of_mem h hu
  obtain ⟨hleft, hright, -⟩ := counts_of_unionOption hunion
  rw [hleft, hright]
  cases ht : before.find? path with
  | some t =>
    exact .inl (hbefore.inclusive_pos htotal (mem_preorder_of_find? hbefore.isOrdered ht))
  | none =>
    cases ht' : after.find? path with
    | some t' =>
      exact .inr (hafter.inclusive_pos htotal' (mem_preorder_of_find? hafter.isOrdered ht'))
    | none =>
      rw [ht, ht'] at hunion
      cases hunion

/--
**The merge is the pointwise union.** Of two trees that any insertions have led to, with any bounds
on children: a path leads to a node of the merged tree if and only if it stands on one of the
sides; the node then has the counts that the path has on the two sides and the depth of the path.
Every node is reached by exactly one path, and the tree that is drawn is the union of the two call
trees. The depth that the merge has kept is that of the deeper side, which is how deep the deepest
node stands, and on each side no node has less than its children together.
-/
theorem ofTrees_pointwise {config config' : TreeConfig} {paths paths' : List (List String × Nat)}
    (hbefore : (FrameTree.empty config).insertAll paths = .ok before)
    (hafter : (FrameTree.empty config').insertAll paths' = .ok after) :
    (∀ path, ((ofTrees before after).find? path).isSome ↔
      (before.find? path).isSome ∨ (after.find? path).isSome) ∧
    (∀ path node, (ofTrees before after).find? path = some node →
      node.before = ((before.find? path).map (·.label.inclusive)).getD 0 ∧
      node.after = ((after.find? path).map (·.label.inclusive)).getD 0 ∧
      node.depth = path.length) ∧
    ((∀ path id, (ofTrees before after).idFrom? 0 path = some id →
      id < (ofTrees before after).nodes.size) ∧
      ∀ id < (ofTrees before after).nodes.size,
        ∃! path, (ofTrees before after).idFrom? 0 path = some id) ∧
    (ofTrees before after).root = CallTree.union countsOf 0 before.root after.root ∧
    (ofTrees before after).maxDepth = max before.maxDepth after.maxDepth ∧
    ((∀ node ∈ (ofTrees before after).nodes, node.depth ≤ (ofTrees before after).maxDepth) ∧
      ∃ node ∈ (ofTrees before after).nodes, node.depth = (ofTrees before after).maxDepth) ∧
    ∀ node ∈ (ofTrees before after).nodes,
      (node.childIds.map fun id => (ofTrees before after).nodes[id]!.before).sum ≤
        node.before ∧
      (node.childIds.map fun id => (ofTrees before after).nodes[id]!.after).sum ≤
        node.after := by
  have h := Mergeable.of_insertAll hbefore hafter
  have hleft := (FrameTree.Counted.empty config).of_insertAll hbefore
  have hright := (FrameTree.Counted.empty config').of_insertAll hafter
  obtain ⟨home, hsound⟩ := exists_sound_ofTrees h
  have hwhole := isOrdered_union h
  have hfind : ∀ path, ((ofTrees before after).find? path).map (·.toDiffCounts) =
      (unionOption countsOf path.length (before.find? path) (after.find? path)).map (·.label) := by
    intro path
    rw [← find?_union h]
    have heq := congrArg (Option.map Prod.snd) (hsound.find?_eq path)
    rwa [Option.map_map, Option.map_map] at heq
  refine ⟨fun path => ?_, fun path node hnode => ?_, ⟨fun path id hid => ?_, fun id hid => ?_⟩,
    root_ofTrees h, ?_, ⟨fun node hnode => ?_, ?_⟩, fun node hnode => ?_⟩
  · rw [← isSome_unionOption countsOf path.length, ← Option.isSome_map, hfind, Option.isSome_map]
  · have hcounts := hfind path
    rw [hnode, Option.map_some] at hcounts
    obtain ⟨u, hunion, hlabel⟩ := Option.map_eq_some_iff.mp hcounts.symm
    rw [← hlabel]
    exact counts_of_unionOption hunion
  · exact (hsound.idFrom?_eq_some_iff.mp hid).1
  · exact hsound.existsUnique_path hid
  · rw [maxDepth_ofTrees h, root_ofTrees h, height_union, hleft.maxDepth_eq_height,
      hright.maxDepth_eq_height]
  · obtain ⟨id, hid⟩ := Array.getElem?_of_mem hnode
    exact hsound.depth_le id node hid
  · obtain ⟨id, node, hid, hmax⟩ := hsound.depth_eq
    exact ⟨node, Array.mem_of_getElem? hid, hmax⟩
  · obtain ⟨id, hid⟩ := Array.getElem?_of_mem hnode
    obtain ⟨u, hu, hlabel, hchildren⟩ := hsound.map_childIds hwhole hid
    have hbelow := fun number : DiffCounts → Nat =>
      congrArg (fun labels => (labels.map number).sum) hchildren
    simp only [List.map_map] at hbelow
    obtain ⟨hle, hle'⟩ := sum_counts_children_le h hleft hright
      (root_ofTrees h ▸ mem_preorder_of_find? hwhole hu)
    rw [hlabel]
    exact ⟨(hbelow DiffCounts.before).le.trans hle, (hbelow DiffCounts.after).le.trans hle'⟩

private def pathsBefore : List (List String × Nat) :=
  [(["a", "b"], 2), (["c"], 3)]

private def pathsAfter : List (List String × Nat) :=
  [(["a"], 1), (["c", "d"], 4)]

/-- The tree with room for one child beneath a node, where the second name is collapsed. -/
private def treeBefore : FrameTree where
  config := { maxChildren := 1 }
  root := .node "root" { index := 0, depth := 0, inclusive := 5, collapsed := true }
    [.node "[other]" { index := 3, depth := 1, inclusive := 3, selfCount := 3 } [],
      .node "a" { index := 1, depth := 1, inclusive := 2 }
        [.node "b" { index := 2, depth := 2, inclusive := 2, selfCount := 2 } []]]
  growth := { size := 4, maxDepth := 2, collapsedAt := ["root"] }

private def treeAfter : FrameTree where
  root := .node "root" { index := 0, depth := 0, inclusive := 5 }
    [.node "a" { index := 1, depth := 1, inclusive := 1, selfCount := 1 } [],
      .node "c" { index := 2, depth := 1, inclusive := 4 }
        [.node "d" { index := 3, depth := 2, inclusive := 4, selfCount := 4 } []]]
  growth := { size := 4, maxDepth := 2 }

/-- A name that is collapsed on one side stands on the other side with its own count. -/
theorem ofTrees_pointwise_collapsed :
    (FrameTree.empty { maxChildren := 1 }).insertAll pathsBefore = .ok treeBefore ∧
      (FrameTree.empty {}).insertAll pathsAfter = .ok treeAfter ∧
      (ofTrees treeBefore treeAfter).maxDepth = 2 ∧
      ∃ node, (ofTrees treeBefore treeAfter).find? ["c"] = some node ∧
        node.before = 0 ∧ node.after = 4 ∧ node.depth = 1 := by
  have hbefore : (FrameTree.empty { maxChildren := 1 }).insertAll pathsBefore = .ok treeBefore :=
    rfl
  have hafter : (FrameTree.empty {}).insertAll pathsAfter = .ok treeAfter := rfl
  obtain ⟨hsome, hcounts, -, -, hdepth, -⟩ := ofTrees_pointwise hbefore hafter
  refine ⟨hbefore, hafter, hdepth, ?_⟩
  obtain ⟨node, hnode⟩ := Option.isSome_iff_exists.mp ((hsome ["c"]).mpr (.inr rfl))
  exact ⟨node, hnode, hcounts ["c"] node hnode⟩

end StackProfiler.DiffTree
