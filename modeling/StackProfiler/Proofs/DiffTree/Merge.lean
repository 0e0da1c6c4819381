import Mathlib.Logic.Function.Basic
import StackProfiler.Proofs.DiffTree.Sides
import StackProfiler.Proofs.FrameTree.Conservation

/-!
# The loop that merges two trees

While two trees are merged, every node that has been made stands at a place of the whole that they
are merged into, and has its name and its counts (`DiffTree.Merge.Sound`). What is still to be made
lies beneath a node on the stack, or beneath a name whose turn is to come. So in the end every node
of the whole has been made, once (`DiffTree.Merge.sound_run`).
-/

namespace StackProfiler.DiffTree.Merge

open CallTree

/--
What is true of a merge on its way: `home` tells at which place of the whole a node stands, and
`waiting` holds the names under which children of a node are made next.
-/
structure Sound (whole : CallTree DiffCounts) (home : Nat → List String)
    (waiting : List (Nat × String)) (m : Merge) : Prop where
  size_pos : 0 < m.tree.nodes.size
  home_root : home 0 = []
  node : ∀ (id : Nat) (node : DiffNode), m.tree.nodes[id]? = some node →
    ∃ u, whole.find? (home id) = some u ∧ node.name = u.name ∧ node.toDiffCounts = u.label
  /-- A link leads to a node that stands beneath. -/
  link : ∀ (id : Nat) (node : DiffNode) (name : String) (child : Nat),
    m.tree.nodes[id]? = some node → node.children[name]? = some child →
      child < m.tree.nodes.size ∧ home child = home id ++ [name]
  /-- Every node except the root has a link that leads to it, from a node that was made before. -/
  parent : ∀ child, 0 < child → child < m.tree.nodes.size →
    ∃ id < child, ∃ (node : DiffNode) (name : String),
      m.tree.nodes[id]? = some node ∧ node.children[name]? = some child
  /-- What is on the stack has no children yet, and is to have those of its place. -/
  pending : ∀ (id : Nat) (sides : Sides), (id, sides) ∈ m.pending → sides.IsOrdered ∧
    ∃ node, m.tree.nodes[id]? = some node ∧ node.children = ∅ ∧
      sides.union node.depth = whole.find? (home id)
  nodup : (m.pending.map Prod.fst).Nodup
  unmade : ∀ (id : Nat) (name : String), (id, name) ∈ waiting → id ∉ m.pending.map Prod.fst ∧
    ∃ node, m.tree.nodes[id]? = some node ∧ node.children[name]? = none
  /-- What stands beneath a node has been made, unless it is still to come. -/
  complete : ∀ (id : Nat) (node : DiffNode) (name : String), m.tree.nodes[id]? = some node →
    (whole.find? (home id ++ [name])).isSome →
      (node.children[name]?).isSome ∨ id ∈ m.pending.map Prod.fst ∨ (id, name) ∈ waiting
  depth_le : ∀ (id : Nat) (node : DiffNode), m.tree.nodes[id]? = some node →
    node.depth ≤ m.tree.maxDepth
  depth_eq : ∃ (id : Nat) (node : DiffNode), m.tree.nodes[id]? = some node ∧
    node.depth = m.tree.maxDepth

variable {whole : CallTree DiffCounts} {home : Nat → List String}
variable {waiting : List (Nat × String)} {m : Merge}
variable {parent depth : Nat} {name : String} {sides : Sides}

/-! ## Section 1: One child -/

theorem size_addChild : (m.addChild parent depth (name, sides)).tree.nodes.size =
    m.tree.nodes.size + 1 := by
  simp [addChild]

/-- A child is made behind all nodes, and its parent has a link to it. -/
theorem getElem?_addChild (hparent : parent < m.tree.nodes.size) (id : Nat) :
    (m.addChild parent depth (name, sides)).tree.nodes[id]? =
      if id = m.tree.nodes.size then some { toDiffCounts := sides.counts depth, name }
      else if id = parent then
        m.tree.nodes[id]?.map fun node =>
          { node with children := node.children.insert name m.tree.nodes.size }
      else m.tree.nodes[id]? := by
  rw [addChild, Array.getElem?_modify, Array.getElem?_push]
  by_cases hid : id = m.tree.nodes.size
  · have hne : parent ≠ id := by omega
    rw [if_neg hne, if_pos hid, if_pos hid]
  · by_cases hp : id = parent
    · rw [if_pos hp.symm, if_neg hid, if_neg hid, if_pos hp]
    · rw [if_neg (Ne.symm hp), if_neg hid, if_neg hid, if_neg hp]

/-- A node that was there is as it was, but for the new link of the parent. -/
theorem exists_getElem?_addChild {id : Nat} {node : DiffNode} (hparent : parent < m.tree.nodes.size)
    (h : m.tree.nodes[id]? = some node) :
    ∃ node', (m.addChild parent depth (name, sides)).tree.nodes[id]? = some node' ∧
      node'.toDiffCounts = node.toDiffCounts ∧ node'.name = node.name ∧
      node'.children =
        if id = parent then node.children.insert name m.tree.nodes.size else node.children := by
  have hid : id ≠ m.tree.nodes.size := (Array.getElem?_eq_some_iff.mp h).1.ne
  rw [getElem?_addChild hparent, if_neg hid, h]
  split
  · exact ⟨_, rfl, rfl, rfl, rfl⟩
  · exact ⟨_, rfl, rfl, rfl, rfl⟩

/-- There is the child, and what was there. -/
theorem getElem?_addChild_cases {id : Nat} {node' : DiffNode} (hparent : parent < m.tree.nodes.size)
    (h : (m.addChild parent depth (name, sides)).tree.nodes[id]? = some node') :
    (id = m.tree.nodes.size ∧ node' = { toDiffCounts := sides.counts depth, name }) ∨
      ∃ node, m.tree.nodes[id]? = some node ∧ node'.toDiffCounts = node.toDiffCounts ∧
        node'.name = node.name ∧
        node'.children =
          if id = parent then node.children.insert name m.tree.nodes.size else node.children := by
  by_cases hid : id = m.tree.nodes.size
  · rw [getElem?_addChild hparent, if_pos hid] at h
    exact .inl ⟨hid, (Option.some.inj h).symm⟩
  · have hlt := (Array.getElem?_eq_some_iff.mp h).1
    rw [size_addChild] at hlt
    have hold : m.tree.nodes[id]? = some m.tree.nodes[id] := Array.getElem?_eq_getElem (by omega)
    obtain ⟨node'', hnode'', hkept⟩ :=
      @exists_getElem?_addChild m parent depth name sides id _ hparent hold
    rw [h] at hnode''
    cases hnode''
    exact .inr ⟨_, hold, hkept⟩

/-- The links of a node are kept, if the new one has a new name. -/
theorem getElem?_children_of_kept {id size child : Nat} {node node' : DiffNode}
    (hkept : node'.children =
      if id = parent then node.children.insert name size else node.children)
    (hnew : id = parent → node.children[name]? = none) {name' : String}
    (hlink : node.children[name']? = some child) : node'.children[name']? = some child := by
  rw [hkept]
  split
  case isTrue hid =>
    have hne : name ≠ name' := by
      rintro rfl
      rw [hnew hid] at hlink
      cases hlink
    rw [Std.ExtTreeMap.getElem?_insert, if_neg (by simpa using hne), hlink]
  case isFalse => exact hlink

theorem name_of_find?_append {α : Type} {t v : CallTree α} {path : List String} {name : String}
    (h : t.find? (path ++ [name]) = some v) : v.name = name := by
  rw [find?_append] at h
  obtain ⟨u, -, hchild⟩ := Option.bind_eq_some_iff.mp h
  rw [find?_singleton] at hchild
  exact beq_iff_eq.mp (List.find?_some hchild :)

namespace Sound

theorem lt_of_pending (h : Sound whole home waiting m) {id : Nat}
    (hid : id ∈ m.pending.map Prod.fst) : id < m.tree.nodes.size := by
  obtain ⟨⟨id, sides⟩, hmem, rfl⟩ := List.mem_map.mp hid
  obtain ⟨-, node, hnode, -⟩ := h.pending id sides hmem
  exact (Array.getElem?_eq_some_iff.mp hnode).1

/-- The node whose turn it is has been made. -/
theorem parent_lt (h : Sound whole home ((parent, name) :: waiting) m) :
    parent < m.tree.nodes.size := by
  obtain ⟨-, node, hnode, -⟩ := h.unmade parent name List.mem_cons_self
  exact (Array.getElem?_eq_some_iff.mp hnode).1

/-- It has no child of the name whose turn it is. -/
theorem children_eq_none (h : Sound whole home ((parent, name) :: waiting) m) {id : Nat}
    {node : DiffNode} (hnode : m.tree.nodes[id]? = some node) (hid : id = parent) :
    node.children[name]? = none := by
  subst hid
  obtain ⟨-, node', hnode', hnone⟩ := h.unmade id name List.mem_cons_self
  rw [hnode] at hnode'
  exact Option.some.inj hnode' ▸ hnone

/-- A node that was there is at the place where it was. -/
theorem update_home {id : Nat} {node : DiffNode} (hnode : m.tree.nodes[id]? = some node)
    (path : List String) : Function.update home m.tree.nodes.size path id = home id :=
  Function.update_of_ne (Array.getElem?_eq_some_iff.mp hnode).1.ne _ _

theorem link_addChild (h : Sound whole home ((parent, name) :: waiting) m) {id child : Nat}
    {node' : DiffNode} {name' : String}
    (hnode' : (m.addChild parent depth (name, sides)).tree.nodes[id]? = some node')
    (hlink : node'.children[name']? = some child) :
    child < (m.addChild parent depth (name, sides)).tree.nodes.size ∧
      Function.update home m.tree.nodes.size (home parent ++ [name]) child =
        Function.update home m.tree.nodes.size (home parent ++ [name]) id ++ [name'] := by
  rw [size_addChild]
  rcases getElem?_addChild_cases h.parent_lt hnode' with ⟨rfl, rfl⟩ | ⟨node, hnode, -, -, hkept⟩
  · cases hlink
  · rw [update_home hnode]
    by_cases hthis : id = parent ∧ name' = name
    · -- the new link
      obtain ⟨rfl, rfl⟩ := hthis
      rw [hkept, if_pos rfl, Std.ExtTreeMap.getElem?_insert_self] at hlink
      cases hlink
      exact ⟨Nat.lt_succ_self _, Function.update_self ..⟩
    · have hold : node.children[name']? = some child := by
        rw [hkept] at hlink
        split at hlink
        case isTrue hid =>
          rwa [Std.ExtTreeMap.getElem?_insert, if_neg] at hlink
          simpa using fun hname : name = name' => hthis ⟨hid, hname.symm⟩
        case isFalse => exact hlink
      obtain ⟨hchildlt, hchildhome⟩ := h.link id node name' child hnode hold
      exact ⟨Nat.lt_succ_of_lt hchildlt,
        (Function.update_of_ne hchildlt.ne _ _).trans hchildhome⟩

theorem parent_addChild (h : Sound whole home ((parent, name) :: waiting) m) {child : Nat}
    (hpos : 0 < child)
    (hsize : child < (m.addChild parent depth (name, sides)).tree.nodes.size) :
    ∃ id < child, ∃ (node' : DiffNode) (name' : String),
      (m.addChild parent depth (name, sides)).tree.nodes[id]? = some node' ∧
        node'.children[name']? = some child := by
  rw [size_addChild] at hsize
  rcases Nat.lt_succ_iff_lt_or_eq.mp hsize with hsize | rfl
  · obtain ⟨id, hid, node, name', hnode, hlink⟩ := h.parent child hpos hsize
    obtain ⟨node', hnode', -, -, hkept⟩ := exists_getElem?_addChild h.parent_lt hnode
    exact ⟨id, hid, node', name', hnode',
      getElem?_children_of_kept hkept (h.children_eq_none hnode) hlink⟩
  · obtain ⟨-, node, hnode, -⟩ := h.unmade parent name List.mem_cons_self
    obtain ⟨node', hnode', -, -, hkept⟩ := exists_getElem?_addChild h.parent_lt hnode
    refine ⟨parent, h.parent_lt, node', name, hnode', ?_⟩
    rw [hkept, if_pos rfl, Std.ExtTreeMap.getElem?_insert_self]

theorem unmade_addChild (h : Sound whole home ((parent, name) :: waiting) m)
    (hnames : (parent, name) ∉ waiting) {id : Nat} {name' : String}
    (hmem : (id, name') ∈ waiting) :
    id ∉ (m.addChild parent depth (name, sides)).pending.map Prod.fst ∧
      ∃ node', (m.addChild parent depth (name, sides)).tree.nodes[id]? = some node' ∧
        node'.children[name']? = none := by
  obtain ⟨hid, node, hnode, hnone⟩ := h.unmade id name' (List.mem_cons_of_mem _ hmem)
  obtain ⟨node', hnode', -, -, hkept⟩ := exists_getElem?_addChild h.parent_lt hnode
  refine ⟨?_, node', hnode', ?_⟩
  · intro hmem'
    rcases List.mem_cons.mp hmem' with rfl | hmem'
    · exact (Array.getElem?_eq_some_iff.mp hnode).1.false
    · exact hid hmem'
  · rw [hkept]
    split
    case isTrue heq =>
      subst heq
      rw [Std.ExtTreeMap.getElem?_insert, if_neg, hnone]
      simp only [Std.LawfulEqCmp.compare_eq_iff_eq]
      rintro rfl
      exact hnames hmem
    case isFalse => exact hnone

theorem complete_addChild (h : Sound whole home ((parent, name) :: waiting) m) {id : Nat}
    {node' : DiffNode} {name' : String}
    (hnode' : (m.addChild parent depth (name, sides)).tree.nodes[id]? = some node')
    (hsome : (whole.find?
      (Function.update home m.tree.nodes.size (home parent ++ [name]) id ++ [name'])).isSome) :
    (node'.children[name']?).isSome ∨
      id ∈ (m.addChild parent depth (name, sides)).pending.map Prod.fst ∨
      (id, name') ∈ waiting := by
  rcases getElem?_addChild_cases h.parent_lt hnode' with ⟨rfl, -⟩ | ⟨node, hnode, -, -, hkept⟩
  · exact .inr (.inl List.mem_cons_self)
  · rw [update_home hnode] at hsome
    rcases h.complete id node name' hnode hsome with hlink | hmem | hmem
    · obtain ⟨child, hlink⟩ := Option.isSome_iff_exists.mp hlink
      rw [getElem?_children_of_kept hkept (h.children_eq_none hnode) hlink]
      exact .inl rfl
    · exact .inr (.inl (List.mem_cons_of_mem _ hmem))
    · rcases List.mem_cons.mp hmem with heq | hmem
      · cases heq
        rw [hkept, if_pos rfl, Std.ExtTreeMap.getElem?_insert_self]
        exact .inl rfl
      · exact .inr (.inr hmem)

/-- **One child**: the name whose turn it is gets the node that stands beneath it. -/
theorem addChild (h : Sound whole home ((parent, name) :: waiting) m)
    (hnames : (parent, name) ∉ waiting) (hordered : sides.IsOrdered) {v : CallTree DiffCounts}
    (hunion : sides.union depth = some v)
    (hfind : whole.find? (home parent ++ [name]) = some v) :
    Sound whole (Function.update home m.tree.nodes.size (home parent ++ [name])) waiting
      (m.addChild parent depth (name, sides)) := by
  have hself : Function.update home m.tree.nodes.size (home parent ++ [name]) m.tree.nodes.size =
      home parent ++ [name] := Function.update_self ..
  have hchild : (m.addChild parent depth (name, sides)).tree.nodes[m.tree.nodes.size]? =
      some { toDiffCounts := sides.counts depth, name } := by
    rw [getElem?_addChild h.parent_lt, if_pos rfl]
  constructor
  case size_pos =>
    rw [size_addChild]
    exact Nat.succ_pos _
  case home_root => rw [Function.update_of_ne h.size_pos.ne, h.home_root]
  case node =>
    intro id node' hnode'
    rcases getElem?_addChild_cases h.parent_lt hnode' with
      ⟨rfl, rfl⟩ | ⟨node, hnode, hcounts, hname, -⟩
    · rw [hself]
      exact ⟨v, hfind, (name_of_find?_append hfind).symm, Sides.counts_eq_label hunion⟩
    · obtain ⟨u, hu, huname, hulabel⟩ := h.node id node hnode
      exact ⟨u, (update_home hnode _).symm ▸ hu, hname.trans huname, hcounts.trans hulabel⟩
  case link => exact fun id node' name' child => h.link_addChild
  case parent => exact fun child => h.parent_addChild
  case pending =>
    intro id sides' hmem
    rcases List.mem_cons.mp hmem with heq | hmem
    · cases heq
      rw [hself]
      exact ⟨hordered, _, hchild, rfl, hunion.trans hfind.symm⟩
    · obtain ⟨hordered', node, hnode, hempty, hunion'⟩ := h.pending id sides' hmem
      have hid : id ∈ m.pending.map Prod.fst := List.mem_map_of_mem (f := Prod.fst) hmem
      have hne : id ≠ parent := fun heq =>
        (h.unmade parent name List.mem_cons_self).1 (heq ▸ hid)
      obtain ⟨node', hnode', hcounts, -, hkept⟩ := exists_getElem?_addChild h.parent_lt hnode
      rw [if_neg hne] at hkept
      rw [update_home hnode]
      exact ⟨hordered', node', hnode', hkept.trans hempty, hcounts ▸ hunion'⟩
  case nodup =>
    refine List.nodup_cons.mpr ⟨fun hmem => ?_, h.nodup⟩
    exact (h.lt_of_pending hmem).false
  case unmade => exact fun id name' => h.unmade_addChild hnames
  case complete => exact fun id node' name' => h.complete_addChild
  case depth_le =>
    intro id node' hnode'
    rcases getElem?_addChild_cases h.parent_lt hnode' with ⟨-, rfl⟩ | ⟨node, hnode, hcounts, -, -⟩
    · exact Nat.le_max_right _ _
    · rw [hcounts]
      exact (h.depth_le id node hnode).trans (Nat.le_max_left _ _)
  case depth_eq =>
    rcases Nat.le_total depth m.tree.maxDepth with hle | hle
    · obtain ⟨id, node, hnode, hmax⟩ := h.depth_eq
      obtain ⟨node', hnode', hcounts, -, -⟩ := exists_getElem?_addChild h.parent_lt hnode
      exact ⟨id, node', hnode', by rw [hcounts, hmax]; exact (Nat.max_eq_left hle).symm⟩
    · exact ⟨_, _, hchild, (Nat.max_eq_right hle).symm⟩

/-! ## Section 2: The children of a node -/

/-- Children are made one by one, each of which stands beneath the parent. -/
theorem exists_foldl_addChild {entries : List (String × Sides)}
    (h : Sound whole home (entries.map fun entry => (parent, entry.1)) m)
    (hnodup : (entries.map Prod.fst).Nodup)
    (hentries : ∀ entry ∈ entries, entry.2.IsOrdered ∧ ∃ v, entry.2.union depth = some v ∧
      whole.find? (home parent ++ [entry.1]) = some v) :
    ∃ home', Sound whole home' [] (entries.foldl (Merge.addChild parent depth) m) := by
  induction entries generalizing home m with
  | nil => exact ⟨home, h⟩
  | cons entry entries ih =>
    obtain ⟨name, sides⟩ := entry
    obtain ⟨hname, hnodup⟩ := List.nodup_cons.mp hnodup
    obtain ⟨⟨hordered, v, hunion, hfind⟩, hentries⟩ := List.forall_mem_cons.mp hentries
    obtain ⟨-, node, hnode, -⟩ := h.unmade parent name List.mem_cons_self
    have hparent : parent ≠ m.tree.nodes.size := (Array.getElem?_eq_some_iff.mp hnode).1.ne
    have hnew : (parent, name) ∉ entries.map fun entry => (parent, entry.1) := by
      intro hmem
      obtain ⟨entry, hentry, heq⟩ := List.mem_map.mp hmem
      cases heq
      exact hname (List.mem_map.mpr ⟨entry, hentry, rfl⟩)
    rw [List.foldl_cons]
    refine ih (h.addChild hnew hordered hunion hfind) hnodup ?_
    rwa [Function.update_of_ne hparent]

/-- The node on top of the stack is taken from it, and its children are made next. -/
theorem pop {tree : DiffTree} {id : Nat} {pending : List (Nat × Sides)}
    (h : Sound whole home [] { tree, pending := (id, sides) :: pending }) :
    Sound whole home (sides.children.toList.map fun entry => (id, entry.1)) { tree, pending } := by
  obtain ⟨hordered, node, hnode, hempty, hunion⟩ := h.pending id sides List.mem_cons_self
  obtain ⟨hid, hnodup⟩ := List.nodup_cons.mp h.nodup
  refine
    { h with
      pending := fun id' sides' hmem => h.pending id' sides' (List.mem_cons_of_mem _ hmem)
      nodup := hnodup
      unmade := ?_
      complete := ?_ }
  · intro id' name hmem
    obtain ⟨entry, -, heq⟩ := List.mem_map.mp hmem
    cases heq
    exact ⟨hid, node, hnode, by rw [hempty, Std.ExtTreeMap.getElem?_empty]⟩
  · intro id' node' name hnode' hsome
    rcases h.complete id' node' name hnode' hsome with hlink | hmem | hmem
    · exact .inl hlink
    · rcases List.mem_cons.mp hmem with rfl | hmem
      · -- everything beneath the node is among the children on the two sides
        obtain ⟨u, hu, -⟩ := h.node id' node hnode
        rw [find?_append, hu, Option.bind_some, find?_singleton] at hsome
        obtain ⟨v, hv⟩ := Option.isSome_iff_exists.mp hsome
        obtain ⟨below, hbelow⟩ := Option.isSome_iff_exists.mp
          (Sides.isSome_getElem?_children hordered (hunion.trans hu) hv)
        exact .inr (.inr (List.mem_map.mpr
          ⟨(name, below), Std.ExtTreeMap.mem_toList_iff_getElem?_eq_some.mpr hbelow, rfl⟩))
      · exact .inr (.inl hmem)
    · cases hmem

/-- **One turn of the loop** makes the children of the node on top of the stack. -/
theorem addChildren {tree : DiffTree} {id : Nat} {pending : List (Nat × Sides)}
    (h : Sound whole home [] { tree, pending := (id, sides) :: pending }) :
    ∃ home', Sound whole home' [] (Merge.addChildren { tree, pending } id sides) := by
  obtain ⟨hordered, node, hnode, -, hunion⟩ := h.pending id sides List.mem_cons_self
  obtain ⟨u, hu, -⟩ := h.node id node hnode
  have hdepth : tree.nodes[id]!.depth = node.depth := by
    rw [getElem!_def, show tree.nodes[id]? = some node from hnode]
  rw [Merge.addChildren, hdepth]
  refine h.pop.exists_foldl_addChild ?_ fun entry hentry => ?_
  · rw [Std.ExtTreeMap.map_fst_toList_eq_keys]
    exact Std.ExtTreeMap.nodup_keys
  · have hget := Std.ExtTreeMap.mem_toList_iff_getElem?_eq_some.mp hentry
    obtain ⟨hbelow, v, hchild, hv⟩ :=
      Sides.getElem?_children_eq_some hordered (hunion.trans hu) hget
    refine ⟨hbelow, v, hv, ?_⟩
    rw [find?_append, hu, Option.bind_some, find?_singleton, hchild]

/-! ## Section 3: The whole loop -/

/-- **The merge** has made everything when it ends. -/
theorem run (h : Sound whole home [] m) :
    ∃ home', Sound whole home' [] { tree := m.run, pending := [] } := by
  fun_induction Merge.run m generalizing home with
  | case1 tree => exact ⟨home, h⟩
  | case2 tree id sides pending ih =>
    obtain ⟨home', hturn⟩ := h.addChildren
    exact ih hturn

end Sound

/-- The loop leaves the totals as they were. -/
theorem totals_run (m : Merge) :
    m.run.beforeTotal = m.tree.beforeTotal ∧ m.run.afterTotal = m.tree.afterTotal := by
  have hchildren : ∀ (entries : List (String × Sides)) (m : Merge) (parent depth : Nat),
      (entries.foldl (addChild parent depth) m).tree.beforeTotal = m.tree.beforeTotal ∧
        (entries.foldl (addChild parent depth) m).tree.afterTotal = m.tree.afterTotal := by
    intro entries
    induction entries with
    | nil => exact fun _ _ _ => ⟨rfl, rfl⟩
    | cons entry entries ih => exact fun m parent depth => ih (addChild parent depth m entry) _ _
  fun_induction run m with
  | case1 tree => exact ⟨rfl, rfl⟩
  | case2 tree id sides pending ih =>
    obtain ⟨hbefore, hafter⟩ := hchildren sides.children.toList { tree, pending } id
      (tree.nodes[id]!.depth + 1)
    exact ⟨ih.1.trans hbefore, ih.2.trans hafter⟩

end StackProfiler.DiffTree.Merge
