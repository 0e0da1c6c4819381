import StackProfiler.Proofs.FoldedStacks.Counts
import StackProfiler.Proofs.FrameTree.Insert

/-!
# No count is lost in a frame tree

Whatever is inserted into a tree and whatever the bound on children is, the counts of the tree add
up at every node and over the tree as a whole, and the nodes form a tree: every node but the root
has one parent, is younger than it and stands one level below it.
-/

namespace StackProfiler

namespace CallTree

variable {α : Type}

/-! ## Section 1: Parents -/

/-- A path is followed one part after the other. -/
theorem find?_append (t : CallTree α) (path path' : List String) :
    t.find? (path ++ path') = (t.find? path).bind (·.find? path') := by
  induction path generalizing t with
  | nil => rfl
  | cons name path ih =>
    rw [List.cons_append, find?, find?, Option.bind_assoc]
    congr 1
    funext u
    exact ih u

theorem find?_singleton (t : CallTree α) (name : String) : t.find? [name] = t.child? name := by
  rw [find?]
  cases t.child? name <;> rfl

/-- The children of a node are found by their names behind its path. -/
theorem find?_append_child {t u v : CallTree α} (h : t.IsOrdered) {path : List String}
    (hfind : t.find? path = some u) (hv : v ∈ u.children) :
    t.find? (path ++ [v.name]) = some v := by
  have hu : u ∈ t.preorder := mem_preorder_of_find? h hfind
  have hchild : u.child? v.name = some v := (child?_eq_some_iff (h u hu)).mpr ⟨hv, rfl⟩
  rw [find?_append, hfind, Option.bind_some, find?, hchild]
  rfl

/-- Every node beneath another is the child of some node. -/
theorem exists_parent {t u : CallTree α} (hu : u ∈ preorderAll t.children) :
    ∃ parent ∈ t.preorder, u ∈ parent.children := by
  induction t using induction_on with
  | h t ih =>
    obtain ⟨v, hv, huv⟩ := mem_preorderAll.mp hu
    rw [preorder_eq] at huv
    rcases List.mem_cons.mp huv with rfl | huv
    · exact ⟨t, mem_preorder_self t, hv⟩
    · obtain ⟨parent, hparent, hchild⟩ := ih v hv huv
      refine ⟨parent, ?_, hchild⟩
      rw [preorder_eq]
      exact List.mem_cons_of_mem _ (mem_preorderAll.mpr ⟨v, hv, hparent⟩)

/-- If the nodes of a tree in order can be told apart by a number, no node has two parents. -/
theorem parent_unique {t : CallTree α} (h : t.IsOrdered) {number : CallTree α → Nat}
    (hnodup : (t.preorder.map number).Nodup) {u parent parent' : CallTree α}
    (hparent : parent ∈ t.preorder) (hchild : u ∈ parent.children) (hparent' : parent' ∈ t.preorder)
    (hchild' : u ∈ parent'.children) : parent = parent' := by
  -- a parent stands at the path of its child without the last name
  have hpath : ∀ v ∈ t.preorder, u ∈ v.children →
      ∃ path, t.find? path = some v ∧ (path ++ [u.name], u) ∈ t.nodePaths := by
    intro v hv huv
    rw [← map_snd_nodePaths] at hv
    obtain ⟨⟨path, w⟩, hmem, rfl⟩ := List.mem_map.mp hv
    have hfind := (mem_nodePaths_iff h).mp hmem
    exact ⟨path, hfind, (mem_nodePaths_iff h).mpr (find?_append_child h hfind huv)⟩
  obtain ⟨path, hfind, hmem⟩ := hpath parent hparent hchild
  obtain ⟨path', hfind', hmem'⟩ := hpath parent' hparent' hchild'
  -- one node stands at both paths with the last name, so the paths are one
  have hinj : (t.nodePaths.map (number ∘ Prod.snd)).Nodup := by
    rw [← List.map_map, map_snd_nodePaths]
    exact hnodup
  have hentry := List.inj_on_of_nodup_map hinj hmem hmem' rfl
  have hpaths : path = path' := List.append_cancel_right (Prod.mk.inj hentry).1
  rw [hpaths, hfind'] at hfind
  exact (Option.some.inj hfind).symm

end CallTree

namespace FrameTree

open CallTree

variable {t : CallTree FrameCounts}

/-! ## Section 2: Sums over sound trees -/

/-- **The self counts** of a sound tree sum to the inclusive count of its root. -/
theorem sum_selfCount_preorder (h : ∀ u ∈ t.preorder, IsSound u) :
    (t.preorder.map (·.label.selfCount)).sum = t.label.inclusive := by
  induction t using induction_on with
  | h t ih =>
    have hchildren : ∀ u ∈ t.children,
        (u.preorder.map (·.label.selfCount)).sum = u.label.inclusive := by
      intro u hu
      apply ih u hu
      intro v hv
      apply h
      rw [preorder_eq]
      exact List.mem_cons_of_mem _ (mem_preorderAll.mpr ⟨u, hu, hv⟩)
    rw [(h t (mem_preorder_self t)).balanced, outflow, preorder_eq, List.map_cons, List.sum_cons,
      preorderAll_eq_flatMap, List.map_flatMap, List.flatMap_def, List.sum_flatten, List.map_map]
    congr 2
    exact List.map_congr_left hchildren

/-- No node of a sound tree has more samples than its root. -/
theorem inclusive_le_root (h : ∀ u ∈ t.preorder, IsSound u) :
    ∀ u ∈ t.preorder, u.label.inclusive ≤ t.label.inclusive := by
  induction t using induction_on with
  | h t ih =>
    have hroot := (h t (mem_preorder_self t)).balanced
    rw [preorder_eq] at h ⊢
    intro u hu
    rcases List.mem_cons.mp hu with rfl | hu
    · exact Nat.le_refl _
    · obtain ⟨v, hv, huv⟩ := mem_preorderAll.mp hu
      have hsound : ∀ w ∈ v.preorder, IsSound w := fun w hw =>
        h w (List.mem_cons_of_mem _ (mem_preorderAll.mpr ⟨v, hv, hw⟩))
      have hle := ih v hv hsound u huv
      have hout := inclusive_le_outflow hv
      omega

theorem balanced_eq_ok (h : IsSound t) (hfit : t.label.inclusive < wordLimit 64) :
    balanced t = .ok true := by
  have hsum : outflow t < wordLimit 64 := h.balanced ▸ hfit
  have hbelow : (t.children.map (·.label.inclusive)).sum < wordLimit 64 := by
    unfold outflow at hsum
    omega
  unfold balanced
  rw [Checked.sum_eq_ok_iff.mpr ⟨rfl, hbelow⟩]
  simp only [bind, Except.bind, Checked.add_eq_ok_iff.mpr ⟨rfl, hsum⟩, pure, Except.pure]
  rw [h.balanced, outflow, beq_self_eq_true]

/-- **A sound tree is consistent**, and finding that out does not overflow. -/
theorem isConsistent_eq_ok {tree : FrameTree} (h : ∀ u ∈ tree.root.preorder, IsSound u)
    (hfit : tree.root.label.inclusive < wordLimit 64) : tree.isConsistent = .ok true := by
  have hbalanced : ∀ u ∈ tree.root.preorder, balanced u = .ok true := fun u hu =>
    balanced_eq_ok (h u hu) (Nat.lt_of_le_of_lt (inclusive_le_root h u hu) hfit)
  unfold isConsistent
  -- no node fails, so the fold goes through all of them
  generalize tree.root.preorder = nodes at hbalanced
  induction nodes with
  | nil => rfl
  | cons u nodes ih =>
    obtain ⟨hu, hnodes⟩ := List.forall_mem_cons.mp hbalanced
    rw [List.foldlM_cons, if_pos rfl, hu]
    exact ih hnodes

/-! ## Section 3: Numbers and depths -/

namespace Counted

variable {tree : FrameTree} {total : Nat}

theorem isOrdered (h : Counted tree total) : tree.root.IsOrdered :=
  fun u hu => (h.sound u hu).ordered

/-- The nodes are numbered from zero on without gaps. -/
theorem indices_perm (h : Counted tree total) :
    (tree.root.preorder.map (·.label.index)).Perm (List.range tree.size) := by
  obtain ⟨added, hperm, hindices, -⟩ := h.stamped
  have hfst := hperm.map Prod.fst
  rw [stamps, List.map_map, hindices] at hfst
  exact hfst

theorem nodup_indices (h : Counted tree total) :
    (tree.root.preorder.map (·.label.index)).Nodup :=
  h.indices_perm.nodup_iff.mpr List.nodup_range

/-- The depth of the tree is the largest depth of a node. -/
theorem maxDepth_spec (h : Counted tree total) :
    (∀ u ∈ tree.root.preorder, u.label.depth ≤ tree.maxDepth) ∧
      ∃ u ∈ tree.root.preorder, u.label.depth = tree.maxDepth := by
  obtain ⟨added, hperm, -, hmax⟩ := h.stamped
  have hdepths : (tree.root.preorder.map (·.label.depth)).Perm (added.map Prod.snd) := by
    have hsnd := hperm.map Prod.snd
    rw [stamps, List.map_map] at hsnd
    exact hsnd
  -- the depth zero, from which the maximum is taken, is that of the root
  obtain ⟨hmem, hle⟩ := List.max?_eq_some_iff.mp
    (List.max?_cons' : (0 :: added.map Prod.snd).max? = _)
  rw [← hmax] at hmem hle
  have hroot : 0 ∈ added.map Prod.snd := by
    rw [← hdepths.mem_iff, ← h.depth_eq]
    exact List.mem_map_of_mem (mem_preorder_self _)
  have hattained : tree.growth.maxDepth ∈ tree.root.preorder.map (·.label.depth) := by
    rw [hdepths.mem_iff]
    rcases List.mem_cons.mp hmem with hzero | hmem
    · rw [hzero]
      exact hroot
    · exact hmem
  refine ⟨fun u hu => ?_, List.mem_map.mp hattained⟩
  apply hle
  exact List.mem_cons_of_mem _ (hdepths.mem_iff.mp (List.mem_map_of_mem hu))

/-- If there are samples at all, then every node has some. -/
theorem inclusive_pos (h : Counted tree total) (htotal : 0 < tree.totalSamples)
    {u : CallTree FrameCounts} (hu : u ∈ tree.root.preorder) : 0 < u.label.inclusive := by
  rw [preorder_eq] at hu
  rcases List.mem_cons.mp hu with rfl | hbelow
  · exact htotal
  · obtain ⟨parent, hparent, hchild⟩ := exists_parent hbelow
    exact (h.sound parent hparent).inclusive_pos u hchild

/-- Every node but the root is the child of one node only, one level above it and older. -/
theorem exists_unique_parent (h : Counted tree total) {u : CallTree FrameCounts}
    (hu : u ∈ tree.root.preorder) (hroot : u ≠ tree.root) :
    0 < u.label.inclusive ∧ ∃ parent ∈ tree.root.preorder, parent.child? u.name = some u ∧
      parent.label.index < u.label.index ∧ u.label.depth = parent.label.depth + 1 ∧
      ∀ parent' ∈ tree.root.preorder, u ∈ parent'.children → parent' = parent := by
  have hbelow : u ∈ preorderAll tree.root.children := by
    rw [preorder_eq] at hu
    exact (List.mem_cons.mp hu).resolve_left hroot
  obtain ⟨parent, hparent, hchild⟩ := exists_parent hbelow
  have hsound := h.sound parent hparent
  refine ⟨hsound.inclusive_pos u hchild, parent, hparent,
    (child?_eq_some_iff hsound.ordered).mpr ⟨hchild, rfl⟩, hsound.index_lt u hchild,
    hsound.depth_eq u hchild, ?_⟩
  intro parent' hparent' hchild'
  exact parent_unique h.isOrdered h.nodup_indices hparent' hchild' hparent hchild

end Counted

/-! ## Section 4: Every sequence of insertions -/

/--
**No count is lost.** After any insertions whose counts together fit in a word, with any bound on
children, the counts add up at every node and over all nodes, the root has the samples of all
paths but the empty one, every other node has samples and one parent, and the depth of the tree is
that of its deepest node.
-/
theorem insertAll_conserves (config : TreeConfig) (paths : List (List String × Nat))
    (hfit : (paths.map Prod.snd).sum < wordLimit 64) :
    ∃ tree, (FrameTree.empty config).insertAll paths = .ok tree ∧
      (∀ u ∈ tree.root.preorder,
        u.label.inclusive = u.label.selfCount + (u.children.map (·.label.inclusive)).sum) ∧
      tree.isConsistent = .ok true ∧
      tree.root.label.selfCount = 0 ∧
      tree.totalSamples = ((paths.filter (!·.1.isEmpty)).map Prod.snd).sum ∧
      (tree.root.preorder.map (·.label.selfCount)).sum = tree.totalSamples ∧
      (tree.root.preorder.map (·.label.index)).Perm (List.range tree.size) ∧
      (∀ u ∈ tree.root.preorder, u ≠ tree.root → 0 < u.label.inclusive ∧
        ∃ parent ∈ tree.root.preorder, parent.child? u.name = some u ∧
          parent.label.index < u.label.index ∧ u.label.depth = parent.label.depth + 1 ∧
          ∀ parent' ∈ tree.root.preorder, u ∈ parent'.children → parent' = parent) ∧
      tree.root.label.depth = 0 ∧ (∀ u ∈ tree.root.preorder, u.label.depth ≤ tree.maxDepth) ∧
      ∃ u ∈ tree.root.preorder, u.label.depth = tree.maxDepth := by
  have hstart := Counted.empty config
  obtain ⟨tree, hinsert, hcounted⟩ := hstart.insertAll paths (by rwa [Nat.zero_add])
  rw [Nat.zero_add] at hcounted
  have htotal : tree.totalSamples = countedTotal paths := hcounted.inclusive_eq
  have hword : tree.root.label.inclusive < wordLimit 64 := by
    rw [hcounted.inclusive_eq]
    refine Nat.lt_of_le_of_lt ?_ hfit
    exact ((List.filter_sublist).map Prod.snd).sum_le_sum fun _ _ => Nat.zero_le _
  exact ⟨tree, hinsert, fun u hu => (hcounted.sound u hu).balanced,
    isConsistent_eq_ok hcounted.sound hword, hcounted.selfCount_eq, htotal,
    sum_selfCount_preorder hcounted.sound, hcounted.indices_perm,
    fun u hu hroot => hcounted.exists_unique_parent hu hroot, hcounted.depth_eq,
    hcounted.maxDepth_spec⟩

/-- With room for one child, the second name is collapsed, and no count is lost. -/
theorem insertAll_conserves_collapsed :
    ∃ tree, (FrameTree.empty { maxChildren := 1 }).insertAll
        [(["a", "b"], 2), (["c", "d"], 3), ([], 4), (["a"], 0)] = .ok tree ∧
      tree.totalSamples = 5 ∧ tree.isConsistent = .ok true := by
  obtain ⟨tree, hinsert, -, hconsistent, -, htotal, -⟩ :=
    insertAll_conserves { maxChildren := 1 } [(["a", "b"], 2), (["c", "d"], 3), ([], 4), (["a"], 0)]
      (by decide)
  exact ⟨tree, hinsert, htotal, hconsistent⟩

end FrameTree

end StackProfiler
