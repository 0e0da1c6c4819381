import StackProfiler.Proofs.CallTree.Relabel
import StackProfiler.Proofs.FrameTree.PrefixSums

/-!
# Trees that have been built

An insertion only succeeds if the samples of the root still fit in a word. So every tree that
insertions have led to, whatever the counts and the bound on children were, is one that samples
have been counted into (`FrameTree.Counted.of_insertAll`). The depth that it keeps is its height.
-/

namespace StackProfiler.FrameTree

open CallTree

variable {config : TreeConfig} {count total : Nat} {t t' : CallTree FrameCounts}
variable {growth growth' : TreeGrowth} {tree tree' : FrameTree}

/-! ## Section 1: Insertions that have succeeded -/

/-- What is inserted beneath a node leaves its name and its samples as they were. -/
theorem kept_of_insertBelow {names : List String}
    (h : insertBelow config count names t growth = .ok (t', growth')) :
    t'.name = t.name ∧ t'.label.inclusive = t.label.inclusive := by
  cases names with
  | nil =>
    obtain ⟨rfl, -⟩ := eq_of_insertBelow_nil h
    exact ⟨rfl, rfl⟩
  | cons name names =>
    obtain ⟨child', -, rfl⟩ := exists_of_insertBelow_cons h
    obtain ⟨collapsed, hparent⟩ := (isStep_childFor config t growth name).parent_eq
    rw [hparent]
    exact ⟨rfl, rfl⟩

theorem name_root_of_insertAll {paths : List (List String × Nat)}
    (h : tree.insertAll paths = .ok tree') : tree'.root.name = tree.root.name := by
  induction paths generalizing tree with
  | nil =>
    cases h
    rfl
  | cons entry paths ih =>
    obtain ⟨tree₁, hfirst, hrest⟩ := exists_of_insertAll_cons h
    rcases cases_of_insert hfirst with ⟨rfl, -⟩ | ⟨-, -, root, growth, hbelow, -, rfl⟩
    · exact ih hrest
    · exact (ih hrest).trans (kept_of_insertBelow hbelow).1

namespace Counted

/-- **An insertion that has succeeded** has left room for its count at the root. -/
theorem of_insert (h : Counted tree total) {path : List String}
    (hinsert : tree.insert path count = .ok tree') :
    Counted tree' (total + if path = [] then 0 else count) := by
  rcases cases_of_insert hinsert with ⟨rfl, hignored⟩ | ⟨-, -, root, growth, hbelow, hfit, -⟩
  · rcases hignored with rfl | rfl
    · exact h
    · rwa [ite_self, Nat.add_zero]
  · -- the samples of the root are counted last, and that has not overflowed
    rw [(kept_of_insertBelow hbelow).2, h.inclusive_eq] at hfit
    obtain ⟨tree'', hinsert', hcounted, -⟩ := h.insert path count hfit
    rw [hinsert] at hinsert'
    cases hinsert'
    exact hcounted

/-- **Insertions that have succeeded** have counted their paths, and nothing else. -/
theorem of_insertAll (h : Counted tree total) {paths : List (List String × Nat)}
    (hinsert : tree.insertAll paths = .ok tree') :
    Counted tree' (total + countedTotal paths) := by
  induction paths generalizing tree total with
  | nil =>
    cases hinsert
    exact h
  | cons entry paths ih =>
    obtain ⟨path, count⟩ := entry
    obtain ⟨tree₁, hfirst, hrest⟩ := exists_of_insertAll_cons hinsert
    rw [countedTotal_cons, ← Nat.add_assoc]
    exact ih (h.of_insert hfirst) hrest

/-! ## Section 2: The depth of a tree -/

/-- The depth that a tree keeps while it grows is its height. -/
theorem maxDepth_eq_height (h : Counted tree total) : tree.maxDepth = tree.root.height := by
  obtain ⟨hheight, u, hu, hdeepest⟩ :=
    height_spec (·.label.depth) fun u hu => (h.sound u hu).depth_eq
  obtain ⟨hmax, v, hv, hattained⟩ := h.maxDepth_spec
  rw [h.depth_eq, Nat.zero_add] at hheight hdeepest
  refine Nat.le_antisymm ?_ ?_
  · rw [← hattained]
    exact hheight v hv
  · rw [← hdeepest]
    exact hmax u hu

/-- The depth that a node keeps is the length of its path. -/
theorem depth_of_find? (h : Counted tree total) {path : List String} {u : CallTree FrameCounts}
    (hfind : tree.root.find? path = some u) : u.label.depth = path.length := by
  have hdepth := CallTree.depth_of_find? (·.label.depth)
    (fun v hv => (h.sound v hv).depth_eq) hfind
  rwa [h.depth_eq, Nat.zero_add] at hdepth

end Counted

end StackProfiler.FrameTree
