import StackProfiler.Proofs.FrameTree.EqualWeights
import StackProfiler.Proofs.Layout.Relabel
import StackProfiler.Svg.FlameGraph

/-!
# A flame graph shows the profile alone

The document of a profile does not depend on the numbers and marks of the nodes of its tree
(`Svg.renderFlameGraph_eq`), and so not on how the tree was built: paths for which the same is
counted are drawn alike (`Svg.renderFlameGraph_of_sameWeights`).
-/

namespace StackProfiler.Svg

open FrameTree

/-! ## Section 1: Documents of trees without numbers -/

/-- Neither the tooltips nor anything else in a document shows the numbers and marks of nodes. -/
theorem flameGraphLines_relabel (options : SvgOptions) (total : Nat)
    (layout : Layout FrameCounts Float) :
    flameGraphLines options total (layout.relabel unnumbered) =
      flameGraphLines options total layout := by
  simp only [flameGraphLines, Layout.relabel, List.flatMap_map]
  rfl

/-- The document of a tree is that of its layout, whose frames may as well have no numbers. -/
theorem renderFlameGraph_eq (tree : FrameTree) (options : SvgOptions) :
    renderFlameGraph tree options =
      (Layout.ofTree FrameCounts.weight tree.maxDepth options.layout
        (tree.root.relabel unnumbered)).map
        (·.map fun layout => ofLines (flameGraphLines options tree.totalSamples layout)) := by
  have hweight : (FrameCounts.weight ∘ unnumbered : FrameCounts → Float) = FrameCounts.weight := rfl
  rw [Layout.ofTree_relabel, hweight, renderFlameGraph, FrameTree.layout]
  -- a fault, an error of the layout, or a document
  rcases Layout.ofTree FrameCounts.weight tree.maxDepth options.layout tree.root with
    fault | error | layout
  · rfl
  · rfl
  · simp only [bind, Except.bind, pure, Except.pure, Except.map, flameGraphLines_relabel]

/--
**Rendering depends on the profile only.** Two sequences of insertions that count the same for
every path but the empty one, with any order of the paths, split of the counts and insertions that
are ignored, stay within their bounds on children and fit in a word, lead to two trees that have
the same document, or the same error, under all options.
-/
theorem renderFlameGraph_of_sameWeights (config config' : TreeConfig)
    {paths paths' : List (List String × Nat)}
    (hsame : ∀ path ≠ [], exactWeight path paths = exactWeight path paths')
    (hfit : countedTotal paths < wordLimit 64) (hbound : WithinBound config.maxChildren paths)
    (hbound' : WithinBound config'.maxChildren paths') :
    ∃ tree tree', (FrameTree.empty config).insertAll paths = .ok tree ∧
      (FrameTree.empty config').insertAll paths' = .ok tree' ∧
      ∀ options, renderFlameGraph tree options = renderFlameGraph tree' options := by
  obtain ⟨tree, tree', hinsert, hinsert', hroot, hdepth⟩ :=
    exists_trees_of_sameWeights config config' hsame hfit hbound hbound'
  refine ⟨tree, tree', hinsert, hinsert', fun options => ?_⟩
  have htotal : tree.totalSamples = tree'.totalSamples := by
    have hinclusive := congrArg (·.label.inclusive) hroot
    simp only [CallTree.label_relabel] at hinclusive
    exact hinclusive
  rw [renderFlameGraph_eq, renderFlameGraph_eq, hroot, hdepth, htotal]

private def inPieces : List (List String × Nat) :=
  [(["a"], 2), (["b", "c"], 1), (["a"], 3)]

private def inOnePiece : List (List String × Nat) :=
  [(["b", "c"], 1), ([], 7), (["d"], 0), (["a"], 5)]

/-- The nodes for one frame have different numbers, and the documents are the same. -/
theorem renderFlameGraph_of_sameWeights_reordered :
    ∃ tree tree', (FrameTree.empty {}).insertAll inPieces = .ok tree ∧
      (FrameTree.empty { maxChildren := 4 }).insertAll inOnePiece = .ok tree' ∧
      (tree.find? ["a"]).map (·.label.index) = some 1 ∧
      (tree'.find? ["a"]).map (·.label.index) = some 3 ∧
      ∀ options, renderFlameGraph tree options = renderFlameGraph tree' options := by
  have hsame : ∀ path ≠ [], exactWeight path inPieces = exactWeight path inOnePiece := by
    intro path hpath
    simp only [inPieces, inOnePiece, exactWeight_cons, if_neg hpath.symm, ite_self]
    by_cases ha : ["a"] = path
    · simp only [if_pos ha]
      omega
    · simp only [if_neg ha]
      omega
  obtain ⟨tree, tree', hinsert, hinsert', hrender⟩ := renderFlameGraph_of_sameWeights {}
    { maxChildren := 4 } hsame (by decide) (withinBound_of_length_le (by decide))
    (withinBound_of_length_le (by decide))
  have hindex : ((FrameTree.empty {}).insertAll inPieces).map
      (fun tree => (tree.find? ["a"]).map (·.label.index)) = .ok (some 1) := rfl
  have hindex' : ((FrameTree.empty { maxChildren := 4 }).insertAll inOnePiece).map
      (fun tree => (tree.find? ["a"]).map (·.label.index)) = .ok (some 3) := rfl
  rw [hinsert] at hindex
  rw [hinsert'] at hindex'
  exact ⟨tree, tree', hinsert, hinsert', Except.ok.inj hindex, Except.ok.inj hindex', hrender⟩

end StackProfiler.Svg
