import StackProfiler.Proofs.DiffTree.Merge

/-!
# Reading a merged tree back

When the merge has ended, following names from the root leads to a node exactly if they lead to
something in the whole that the trees were merged into (`DiffTree.Merge.Sound.idFrom?_eq_some_iff`),
and every node is reached by one path only. The tree that is read back from the nodes is the whole
(`DiffTree.Merge.Sound.root_eq`).
-/

namespace StackProfiler.DiffTree.Merge.Sound

open CallTree

variable {whole : CallTree DiffCounts} {home : Nat → List String} {tree : DiffTree}

theorem getElem!_eq {id : Nat} {node : DiffNode} (h : tree.nodes[id]? = some node) :
    tree.nodes[id]! = node := by
  rw [getElem!_def, h]

theorem exists_node {id : Nat} (hid : id < tree.nodes.size) :
    ∃ node, tree.nodes[id]? = some node ∧ tree.nodes[id]! = node :=
  ⟨_, Array.getElem?_eq_getElem hid, getElem!_eq (Array.getElem?_eq_getElem hid)⟩

/-! ## Section 1: Nodes and their places -/

/-- Whatever stands beneath a node has been made. -/
theorem exists_child (h : Sound whole home [] { tree, pending := [] }) {id : Nat} {node : DiffNode}
    {name : String} (hnode : tree.nodes[id]? = some node)
    (hsome : (whole.find? (home id ++ [name])).isSome) :
    ∃ child, node.children[name]? = some child := by
  rcases h.complete id node name hnode hsome with hlink | hmem | hmem
  · exact Option.isSome_iff_exists.mp hlink
  · cases hmem
  · cases hmem

/-- Following names leads to the place that they lead to. -/
theorem home_of_idFrom? (h : Sound whole home [] { tree, pending := [] }) {id id' : Nat}
    {path : List String} (hid : id < tree.nodes.size) (hpath : tree.idFrom? id path = some id') :
    id' < tree.nodes.size ∧ home id' = home id ++ path := by
  induction path generalizing id with
  | nil =>
    cases hpath
    exact ⟨hid, (List.append_nil _).symm⟩
  | cons name path ih =>
    obtain ⟨node, hnode, hget⟩ := exists_node hid
    rw [idFrom?, hget] at hpath
    obtain ⟨child, hlink, hrest⟩ := Option.bind_eq_some_iff.mp hpath
    obtain ⟨hchild, hhome⟩ := h.link id node name child hnode hlink
    obtain ⟨hid', hhome'⟩ := ih hchild hrest
    refine ⟨hid', ?_⟩
    rw [hhome', hhome, List.append_assoc, List.singleton_append]

/-- Names that lead to something in the whole lead to a node. -/
theorem isSome_idFrom? (h : Sound whole home [] { tree, pending := [] }) {id : Nat}
    (path : List String) (hid : id < tree.nodes.size)
    (hsome : (whole.find? (home id ++ path)).isSome) : (tree.idFrom? id path).isSome := by
  induction path generalizing id with
  | nil => rfl
  | cons name path ih =>
    obtain ⟨node, hnode, hget⟩ := exists_node hid
    rw [← List.singleton_append, ← List.append_assoc] at hsome
    -- the place of the child is on the way
    have hchild : (whole.find? (home id ++ [name])).isSome := by
      rw [find?_append] at hsome
      cases hfind : whole.find? (home id ++ [name]) with
      | none =>
        rw [hfind] at hsome
        cases hsome
      | some u => rfl
    obtain ⟨child, hlink⟩ := h.exists_child hnode hchild
    obtain ⟨hlt, hhome⟩ := h.link id node name child hnode hlink
    rw [idFrom?, hget, hlink, Option.bind_some]
    exact ih hlt (hhome ▸ hsome)

theorem idFrom?_append (tree : DiffTree) (id : Nat) (path path' : List String) :
    tree.idFrom? id (path ++ path') = (tree.idFrom? id path).bind (tree.idFrom? · path') := by
  induction path generalizing id with
  | nil => rfl
  | cons name path ih =>
    rw [List.cons_append, idFrom?, idFrom?, Option.bind_assoc]
    congr 1
    funext child
    exact ih child

/-- The names of its place lead to a node. -/
theorem idFrom?_home (h : Sound whole home [] { tree, pending := [] }) {id : Nat}
    (hid : id < tree.nodes.size) : tree.idFrom? 0 (home id) = some id := by
  induction id using Nat.strongRecOn with
  | ind id ih =>
    rcases Nat.eq_zero_or_pos id with rfl | hpos
    · rw [h.home_root]
      rfl
    · obtain ⟨parent, hparent, node, name, hnode, hlink⟩ := h.parent id hpos hid
      obtain ⟨-, hhome⟩ := h.link parent node name id hnode hlink
      rw [hhome, idFrom?_append, ih parent hparent (hparent.trans hid), Option.bind_some, idFrom?,
        getElem!_eq hnode, hlink]
      rfl

/-- **Nodes and places**: following names leads to the one node whose place it is. -/
theorem idFrom?_eq_some_iff (h : Sound whole home [] { tree, pending := [] }) {id : Nat}
    {path : List String} :
    tree.idFrom? 0 path = some id ↔ id < tree.nodes.size ∧ home id = path := by
  constructor
  · intro hpath
    obtain ⟨hid, hhome⟩ := h.home_of_idFrom? h.size_pos hpath
    rw [h.home_root, List.nil_append] at hhome
    exact ⟨hid, hhome⟩
  · rintro ⟨hid, rfl⟩
    exact h.idFrom?_home hid

/-- Every node is reached by exactly one path. -/
theorem existsUnique_path (h : Sound whole home [] { tree, pending := [] }) {id : Nat}
    (hid : id < tree.nodes.size) : ∃! path, tree.idFrom? 0 path = some id :=
  ⟨home id, h.idFrom?_home hid, fun _ hpath => (h.idFrom?_eq_some_iff.mp hpath).2.symm⟩

/-- **At every path** is a node for what the whole has there, and nothing else. -/
theorem find?_eq (h : Sound whole home [] { tree, pending := [] }) (path : List String) :
    (tree.find? path).map (fun node => (node.name, node.toDiffCounts)) =
      (whole.find? path).map fun u => (u.name, u.label) := by
  rw [find?]
  cases hid : tree.idFrom? 0 path with
  | some id =>
    obtain ⟨hlt, rfl⟩ := h.idFrom?_eq_some_iff.mp hid
    obtain ⟨node, hnode, hget⟩ := exists_node hlt
    obtain ⟨u, hu, hname, hlabel⟩ := h.node id node hnode
    rw [Option.map_some, Option.map_some, hget, hu, Option.map_some, hname, hlabel]
  | none =>
    cases hfind : whole.find? path with
    | none => rfl
    | some u =>
      have hsome := h.isSome_idFrom? path h.size_pos
      rw [h.home_root, List.nil_append, hfind, hid] at hsome
      cases hsome rfl

/-! ## Section 2: The tree beneath a node -/

/-- The nodes that the links of a node lead to have the names of the links. -/
theorem name_of_link (h : Sound whole home [] { tree, pending := [] }) {id child : Nat}
    {node : DiffNode} {name : String} (hnode : tree.nodes[id]? = some node)
    (hlink : node.children[name]? = some child) : tree.nodes[child]!.name = name := by
  obtain ⟨hlt, hhome⟩ := h.link id node name child hnode hlink
  obtain ⟨childNode, hchildNode, hget⟩ := exists_node hlt
  obtain ⟨v, hv, hname, -⟩ := h.node child childNode hchildNode
  rw [hhome] at hv
  rw [hget, hname, name_of_find?_append hv]

theorem name_treeAt (tree : DiffTree) (levels id : Nat) :
    (tree.treeAt levels id).name = tree.nodes[id]!.name := by
  cases levels <;> rfl

theorem label_treeAt (tree : DiffTree) (levels id : Nat) :
    (tree.treeAt levels id).label = tree.nodes[id]!.toDiffCounts := by
  cases levels <;> rfl

theorem children_treeAt_succ (tree : DiffTree) (levels id : Nat) :
    (tree.treeAt (levels + 1) id).children =
      tree.nodes[id]!.childIds.map (tree.treeAt levels) := rfl

/-- The trees beneath the children of a node stand in the order of their names. -/
theorem ordered_children (h : Sound whole home [] { tree, pending := [] }) {id : Nat}
    {node : DiffNode} (hnode : tree.nodes[id]? = some node) (levels : Nat) :
    Ordered (node.children.toList.map fun entry => tree.treeAt levels entry.2) := by
  refine List.pairwise_map.mpr (Std.ExtTreeMap.ordered_keys_toList.imp_of_mem ?_)
  intro entry entry' hmem hmem' hlt
  have hname : ∀ entry ∈ node.children.toList,
      (tree.treeAt levels entry.2).name = entry.1 := by
    intro entry hmem
    rw [name_treeAt]
    exact h.name_of_link hnode (Std.ExtTreeMap.mem_toList_iff_getElem?_eq_some.mp hmem)
  rw [hname entry hmem, hname entry' hmem']
  exact compareOfLessAndEq_eq_lt.mp hlt

/-- Among the children, a name leads to the tree beneath the node that it is linked to. -/
theorem find?_children (h : Sound whole home [] { tree, pending := [] }) {id : Nat}
    {node : DiffNode} (hnode : tree.nodes[id]? = some node) (levels : Nat) (name : String) :
    (node.children.toList.map fun entry => tree.treeAt levels entry.2).find? (·.name == name) =
      node.children[name]?.map (tree.treeAt levels) := by
  refine Option.ext fun t => ?_
  rw [(h.ordered_children hnode levels).find?_eq_some_iff, Option.map_eq_some_iff, List.mem_map]
  constructor
  · rintro ⟨⟨⟨name', child⟩, hmem, rfl⟩, rfl⟩
    have hlink := Std.ExtTreeMap.mem_toList_iff_getElem?_eq_some.mp hmem
    refine ⟨child, ?_, rfl⟩
    rwa [name_treeAt, h.name_of_link hnode hlink]
  · rintro ⟨child, hlink, rfl⟩
    refine ⟨⟨(name, child), Std.ExtTreeMap.mem_toList_iff_getElem?_eq_some.mpr hlink, rfl⟩, ?_⟩
    rw [name_treeAt, h.name_of_link hnode hlink]

/-- **The tree beneath a node** is what the whole has at its place. -/
theorem treeAt_eq (h : Sound whole home [] { tree, pending := [] }) (hwhole : whole.IsOrdered)
    {levels id : Nat} {u : CallTree DiffCounts} (hid : id < tree.nodes.size)
    (hu : whole.find? (home id) = some u) (hlevels : u.height ≤ levels) :
    tree.treeAt levels id = u := by
  obtain ⟨node, hnode, hget⟩ := exists_node hid
  obtain ⟨u', hu', hname, hlabel⟩ := h.node id node hnode
  obtain rfl : u = u' := Option.some.inj (hu.symm.trans hu')
  induction levels generalizing id u node with
  | zero =>
    -- there is nothing beneath a node without height
    have hleaf : u.children = [] := by
      refine List.eq_nil_iff_forall_not_mem.mpr fun v hv => ?_
      have hlt := height_lt_heightAll hv
      rw [← height_eq] at hlt
      omega
    refine CallTree.ext ?_ ?_ hleaf.symm
    · rw [name_treeAt, hget, hname]
    · rw [label_treeAt, hget, hlabel]
  | succ levels ih =>
    have hordered : Ordered u.children := hwhole u (mem_preorder_of_find? hwhole hu)
    have hchildren : (tree.treeAt (levels + 1) id).children =
        node.children.toList.map fun entry => tree.treeAt levels entry.2 := by
      rw [children_treeAt_succ, hget, DiffNode.childIds, List.map_map]
      rfl
    refine CallTree.ext ?_ ?_ ?_
    · rw [name_treeAt, hget, hname]
    · rw [label_treeAt, hget, hlabel]
    · rw [hchildren]
      refine (h.ordered_children hnode levels).eq_of_find? hordered fun name => ?_
      have hplace : whole.find? (home id ++ [name]) = u.child? name := by
        rw [find?_append, hu, Option.bind_some, find?_singleton]
      rw [h.find?_children hnode, ← child?, ← hplace]
      cases hlink : node.children[name]? with
      | none =>
        cases hv : whole.find? (home id ++ [name]) with
        | none => rfl
        | some v =>
          obtain ⟨child, hchild⟩ := h.exists_child hnode (Option.isSome_of_eq_some hv)
          rw [hlink] at hchild
          cases hchild
      | some child =>
        obtain ⟨hlt, hhome⟩ := h.link id node name child hnode hlink
        obtain ⟨childNode, hchildNode, hchildGet⟩ := exists_node hlt
        obtain ⟨v, hv, hvname, hvlabel⟩ := h.node child childNode hchildNode
        have hvu : v ∈ u.children := by
          rw [hhome, hplace] at hv
          exact List.mem_of_find?_eq_some hv
        have hlower := height_lt_heightAll hvu
        rw [← height_eq] at hlower
        rw [Option.map_some, ih hlt hv (by omega) childNode hchildNode hchildGet hv hvname hvlabel,
          ← hhome, hv]

/-- The children of a node have the labels of what stands beneath its place. -/
theorem map_childIds (h : Sound whole home [] { tree, pending := [] }) (hwhole : whole.IsOrdered)
    {id : Nat} {node : DiffNode} (hnode : tree.nodes[id]? = some node) :
    ∃ u, whole.find? (home id) = some u ∧ node.toDiffCounts = u.label ∧
      node.childIds.map (fun child => tree.nodes[child]!.toDiffCounts) =
        u.children.map (·.label) := by
  obtain ⟨u, hu, -, hlabel⟩ := h.node id node hnode
  refine ⟨u, hu, hlabel, ?_⟩
  have hid : id < tree.nodes.size := (Array.getElem?_eq_some_iff.mp hnode).1
  rw [← congrArg children (h.treeAt_eq hwhole hid hu (Nat.le_succ u.height)),
    children_treeAt_succ, getElem!_eq hnode, List.map_map]
  exact List.map_congr_left fun child _ => (label_treeAt ..).symm

/-- The depth that the merge has kept is how far the whole reaches. -/
theorem maxDepth_eq (h : Sound whole home [] { tree, pending := [] }) (hwhole : whole.IsOrdered)
    (hdepth : ∀ path u, whole.find? path = some u → u.label.depth = path.length) :
    tree.maxDepth = whole.height := by
  refine Nat.le_antisymm ?_ ?_
  · obtain ⟨id, node, hnode, hmax⟩ := h.depth_eq
    obtain ⟨u, hu, -, hlabel⟩ := h.node id node hnode
    rw [← show node.depth = tree.maxDepth from hmax, hlabel, hdepth _ u hu]
    exact length_le_height hu
  · obtain ⟨path, u, hu, hlength⟩ := exists_length_eq_height hwhole
    have hsome := h.isSome_idFrom? path h.size_pos
    rw [h.home_root, List.nil_append, hu] at hsome
    obtain ⟨id, hid⟩ := Option.isSome_iff_exists.mp (hsome rfl)
    obtain ⟨hlt, rfl⟩ := h.idFrom?_eq_some_iff.mp hid
    obtain ⟨node, hnode, -⟩ := exists_node hlt
    obtain ⟨u', hu', -, hlabel⟩ := h.node id node hnode
    rw [← hlength, ← hdepth _ u' hu', ← hlabel]
    exact h.depth_le id node hnode

/-- **The tree that is read back** is the whole. -/
theorem root_eq (h : Sound whole home [] { tree, pending := [] }) (hwhole : whole.IsOrdered)
    (hdepth : ∀ path u, whole.find? path = some u → u.label.depth = path.length) :
    tree.root = whole := by
  refine h.treeAt_eq hwhole h.size_pos ?_ (h.maxDepth_eq hwhole hdepth).ge
  rw [h.home_root]
  rfl

end StackProfiler.DiffTree.Merge.Sound
