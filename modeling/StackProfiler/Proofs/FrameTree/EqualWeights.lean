import Mathlib.Algebra.BigOperators.Group.Finset.Basic
import Mathlib.Algebra.BigOperators.Group.Finset.Piecewise
import StackProfiler.Proofs.FrameTree.Built

/-!
# Trees of paths with equal weights

Within the bound on children, a tree is determined by what is counted for each path altogether: in
which order the paths came, into how many insertions their counts were split and what was ignored
in between is seen in the numbers of the nodes only (`FrameTree.root_eq_of_weights`).
-/

namespace StackProfiler.FrameTree

open CallTree

variable {paths paths' : List (List String × Nat)}

/-! ## Section 1: Weights of paths -/

theorem exactWeight_cons (names path : List String) (count : Nat)
    (paths : List (List String × Nat)) :
    exactWeight names ((path, count) :: paths) =
      (if path = names then count else 0) + exactWeight names paths := by
  by_cases h : path = names <;> simp [exactWeight, h]

/-- What is counted for the paths of some kind is the sum of what is counted for each of them. -/
theorem sum_filter_eq_sum_exactWeight (kind : List String → Bool) {all : Finset (List String)}
    (h : ∀ entry ∈ paths, entry.1 ∈ all) :
    ((paths.filter (kind ·.1)).map Prod.snd).sum =
      ∑ path ∈ all with kind path, exactWeight path paths := by
  induction paths with
  | nil => exact (Finset.sum_eq_zero fun _ _ => rfl).symm
  | cons entry paths ih =>
    obtain ⟨path, count⟩ := entry
    obtain ⟨hpath, hrest⟩ := List.forall_mem_cons.mp h
    simp only [exactWeight_cons, Finset.sum_add_distrib, ← ih hrest, Finset.sum_ite_eq,
      Finset.mem_filter]
    cases hkind : kind path <;> simp [hkind, hpath]

/-- If the same is counted for each path of some kind, the same is counted for all of them. -/
theorem sum_filter_congr (kind : List String → Bool)
    (h : ∀ path, kind path → exactWeight path paths = exactWeight path paths') :
    ((paths.filter (kind ·.1)).map Prod.snd).sum =
      ((paths'.filter (kind ·.1)).map Prod.snd).sum := by
  let all := ((paths ++ paths').map Prod.fst).toFinset
  have hleft : ∀ entry ∈ paths, entry.1 ∈ all := fun entry hentry =>
    List.mem_toFinset.mpr (List.mem_map_of_mem (List.mem_append_left _ hentry))
  have hright : ∀ entry ∈ paths', entry.1 ∈ all := fun entry hentry =>
    List.mem_toFinset.mpr (List.mem_map_of_mem (List.mem_append_right _ hentry))
  rw [sum_filter_eq_sum_exactWeight kind hleft, sum_filter_eq_sum_exactWeight kind hright]
  exact Finset.sum_congr rfl fun path hpath => h path (Finset.mem_filter.mp hpath).2

/-- The same is counted for every path but the empty one, which is ignored. -/
def SameWeights (paths paths' : List (List String × Nat)) : Prop :=
  ∀ path ≠ [], exactWeight path paths = exactWeight path paths'

theorem SameWeights.prefixWeight_eq (h : SameWeights paths paths') {names : List String}
    (hnames : names ≠ []) : prefixWeight names paths = prefixWeight names paths' := by
  refine sum_filter_congr (names.isPrefixOf ·) fun path hprefix => h path ?_
  rintro rfl
  exact hnames (List.prefix_nil.mp (List.isPrefixOf_iff_prefix.mp hprefix))

theorem SameWeights.countedTotal_eq (h : SameWeights paths paths') :
    countedTotal paths = countedTotal paths' :=
  sum_filter_congr (!·.isEmpty) fun path hpath => h path (by simpa using hpath)

/-- A prefix has a weight if it is one of a path that is counted. -/
theorem prefixWeight_pos_iff {names : List String} :
    0 < prefixWeight names paths ↔ ∃ entry ∈ paths, 0 < entry.2 ∧ names <+: entry.1 := by
  rw [prefixWeight, List.sum_pos_iff_exists_pos_nat]
  constructor
  · rintro ⟨count, hmem, hcount⟩
    obtain ⟨entry, hentry, rfl⟩ := List.mem_map.mp hmem
    obtain ⟨hpath, hprefix⟩ := List.mem_filter.mp hentry
    exact ⟨entry, hpath, hcount, List.isPrefixOf_iff_prefix.mp hprefix⟩
  · rintro ⟨entry, hpath, hcount, hprefix⟩
    exact ⟨entry.2, List.mem_map_of_mem (List.mem_filter.mpr
      ⟨hpath, List.isPrefixOf_iff_prefix.mpr hprefix⟩), hcount⟩

/-! ## Section 2: Paths that are ignored -/

/-- The paths that are not empty. -/
def nonemptyPaths (paths : List (List String × Nat)) : List (List String × Nat) :=
  paths.filter (!·.1.isEmpty)

/-- Empty paths might as well not be inserted. -/
theorem insertAll_nonemptyPaths (tree : FrameTree) (paths : List (List String × Nat)) :
    tree.insertAll (nonemptyPaths paths) = tree.insertAll paths := by
  induction paths generalizing tree with
  | nil => rfl
  | cons entry paths ih =>
    obtain ⟨path, count⟩ := entry
    cases path with
    | nil =>
      have hignored : tree.insert [] count = .ok tree := by
        rw [FrameTree.insert, List.isEmpty_nil, Bool.or_true, if_pos rfl]
      have hskip : nonemptyPaths (([], count) :: paths) = nonemptyPaths paths := rfl
      rw [hskip, ih, insertAll, insertAll, List.foldlM_cons]
      simp only [hignored]
      rfl
    | cons name names =>
      have hkeep : nonemptyPaths ((name :: names, count) :: paths) =
          (name :: names, count) :: nonemptyPaths paths := rfl
      rw [hkeep, insertAll, insertAll, List.foldlM_cons, List.foldlM_cons]
      congr 1
      funext tree'
      exact ih tree'

theorem exactWeight_nonemptyPaths {path : List String} (hpath : path ≠ []) :
    exactWeight path (nonemptyPaths paths) = exactWeight path paths := by
  rw [exactWeight, nonemptyPaths, List.filter_filter, exactWeight]
  congr 2
  apply List.filter_congr
  intro entry _
  by_cases h : entry.1 = path <;> simp [h, hpath]

theorem WithinBound.nonemptyPaths {maxChildren : Nat} (h : WithinBound maxChildren paths) :
    WithinBound maxChildren (nonemptyPaths paths) := by
  intro names
  refine Nat.le_trans (Finset.card_le_card ?_) (h names)
  intro name hname
  rw [List.mem_toFinset, mem_nextNames] at hname ⊢
  obtain ⟨entry, hentry, hcounted⟩ := hname
  exact ⟨entry, (List.mem_filter.mp hentry).1, hcounted⟩

/-- Within the bound, paths whose counts together fit in a word make a tree of their sums. -/
theorem exists_holdsSums (config : TreeConfig) (hfit : countedTotal paths < wordLimit 64)
    (hbound : WithinBound config.maxChildren paths) :
    ∃ tree, (empty config).insertAll paths = .ok tree ∧
      HoldsSums tree (nonemptyPaths paths) ∧ Counted tree (countedTotal paths) := by
  have hfit' : 0 + ((nonemptyPaths paths).map Prod.snd).sum < wordLimit 64 := by
    rwa [Nat.zero_add]
  obtain ⟨tree, hinsert, hsums, -⟩ :=
    (HoldsSums.empty config).insertAll (Counted.empty config) hfit' hbound.nonemptyPaths
  rw [insertAll_nonemptyPaths] at hinsert
  have htree := (Counted.empty config).of_insertAll hinsert
  rw [Nat.zero_add] at htree
  exact ⟨tree, hinsert, hsums, htree⟩

/-! ## Section 3: Trees without numbers -/

/-- The counts of a frame, without its number and its marks. -/
def unnumbered (counts : FrameCounts) : FrameCounts :=
  { counts with index := 0, depth := 0, collapsed := false }

/-- At a path, trees of equal sums have equal counts, or no node. -/
theorem HoldsSums.unnumbered_at_eq {tree tree' : FrameTree} (h : HoldsSums tree paths)
    (h' : HoldsSums tree' paths') (hsame : SameWeights paths paths') {path : List String}
    (hpath : path ≠ []) :
    (tree.root.find? path).map (unnumbered ·.label) =
      (tree'.root.find? path).map (unnumbered ·.label) := by
  have hprefix := hsame.prefixWeight_eq hpath
  have hsome : (tree.root.find? path).isSome ↔ (tree'.root.find? path).isSome := by
    rw [h.isSome_iff path hpath, h'.isSome_iff path hpath, ← prefixWeight_pos_iff,
      ← prefixWeight_pos_iff, hprefix]
  have hinclusive : valueAt (·.label.inclusive) tree.root path =
      valueAt (·.label.inclusive) tree'.root path := by
    rw [h.inclusiveAt_eq path hpath, h'.inclusiveAt_eq path hpath, hprefix]
  have hself : valueAt (·.label.selfCount) tree.root path =
      valueAt (·.label.selfCount) tree'.root path := by
    rw [h.selfAt_eq path hpath, h'.selfAt_eq path hpath, hsame path hpath]
  unfold valueAt at hinclusive hself
  cases hfind : tree.root.find? path with
  | none =>
    cases hfind' : tree'.root.find? path with
    | none => rfl
    | some u' => simp [hfind, hfind'] at hsome
  | some u =>
    cases hfind' : tree'.root.find? path with
    | none => simp [hfind, hfind'] at hsome
    | some u' =>
      simp only [hfind, hfind', Option.map_some, Option.getD_some] at hinclusive hself
      simp [unnumbered, hinclusive, hself]

/-- **Equal sums make equal trees**, but for the numbers and marks of the nodes. -/
theorem HoldsSums.relabel_root_eq {tree tree' : FrameTree} {total : Nat}
    (h : HoldsSums tree paths) (hcounted : Counted tree total) (h' : HoldsSums tree' paths')
    (hcounted' : Counted tree' total) (hsame : SameWeights paths paths')
    (hname : tree.root.name = tree'.root.name) :
    tree.root.relabel unnumbered = tree'.root.relabel unnumbered := by
  refine eq_of_find? (hcounted.isOrdered.map _ 0) (hcounted'.isOrdered.map _ 0) ?_ ?_
  · rw [name_relabel, name_relabel, hname]
  · intro path
    rw [find?_relabel, find?_relabel, Option.map_map, Option.map_map]
    simp only [Function.comp_def, label_relabel]
    by_cases hpath : path = []
    · -- the root, whose samples are those of all paths together
      subst hpath
      rw [CallTree.find?, CallTree.find?, Option.map_some, Option.map_some, unnumbered, unnumbered,
        hcounted.inclusive_eq, hcounted'.inclusive_eq, hcounted.selfCount_eq,
        hcounted'.selfCount_eq]
    · exact h.unnumbered_at_eq h' hsame hpath

/--
**Equal weights make equal trees.** Paths for which the same is counted, in whatever order and in
however many pieces, and whatever is ignored in between, make trees that differ in the numbers and
marks of their nodes only, if they stay within the bounds on children.
-/
theorem exists_trees_of_sameWeights (config config' : TreeConfig) (hsame : SameWeights paths paths')
    (hfit : countedTotal paths < wordLimit 64) (hbound : WithinBound config.maxChildren paths)
    (hbound' : WithinBound config'.maxChildren paths') :
    ∃ tree tree', (empty config).insertAll paths = .ok tree ∧
      (empty config').insertAll paths' = .ok tree' ∧
      tree.root.relabel unnumbered = tree'.root.relabel unnumbered ∧
      tree.maxDepth = tree'.maxDepth := by
  obtain ⟨tree, hinsert, hsums, hcounted⟩ := exists_holdsSums config hfit hbound
  obtain ⟨tree', hinsert', hsums', hcounted'⟩ :=
    exists_holdsSums config' (hsame.countedTotal_eq ▸ hfit) hbound'
  have hnonempty : SameWeights (nonemptyPaths paths) (nonemptyPaths paths') := fun path hpath => by
    rw [exactWeight_nonemptyPaths hpath, exactWeight_nonemptyPaths hpath, hsame path hpath]
  have hname : tree.root.name = tree'.root.name :=
    (name_root_of_insertAll hinsert).trans (name_root_of_insertAll hinsert').symm
  have hroot := hsums.relabel_root_eq hcounted hsums' (hsame.countedTotal_eq ▸ hcounted') hnonempty
    hname
  refine ⟨tree, tree', hinsert, hinsert', hroot, ?_⟩
  -- the labels do not make a tree higher
  have hheight : ∀ t : CallTree FrameCounts, (t.relabel unnumbered).height = t.height :=
    height_map _ 0
  rw [hcounted.maxDepth_eq_height, hcounted'.maxDepth_eq_height, ← hheight, hroot, hheight]

end StackProfiler.FrameTree
