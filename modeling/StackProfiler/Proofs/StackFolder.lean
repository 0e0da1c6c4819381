import StackProfiler.Proofs.FoldedStacks.Counts
import StackProfiler.Proofs.FoldedStacks.Path
import StackProfiler.StackFolder

/-!
# What a folder makes of samples

The path that a sample is counted under has the sample's normalised names as its frames
(`normalizedFrames`): root first, without the filtered and the empty ones, and with `:` in place of
each `;`. Two samples share a path exactly if they share these names (`stackPath_inj`), and a
folder counts one observation for every sample that has any (`StackFolder.Holds`).
-/

namespace StackProfiler

/-! ## Section 1: Normalised frames -/

/-- The frames of a sample that its path is made of, root first. -/
def normalizedFrames (filter : FrameFilter) (deepestFirst : List String) : List String :=
  (deepestFirst.filter fun name => name ≠ "" ∧ filter.removes name = false).reverse.map
    (String.map fun c => if c = ';' then ':' else c)

/-- The path of a sample; it is empty exactly if no frame is left. -/
def stackPath (filter : FrameFilter) (deepestFirst : List String) : String :=
  ";".intercalate (normalizedFrames filter deepestFirst)

theorem separatorFree_eq_map (name : String) :
    separatorFree name = name.map fun c => if c = ';' then ':' else c := by
  rw [← String.toList_inj, separatorFree, String.toList_ofList, String.toList_map]
  simp [frameSeparator]

theorem isEmpty_separatorFree (name : String) : (separatorFree name).isEmpty = name.isEmpty := by
  rw [separatorFree, Bool.eq_iff_iff, String.isEmpty_iff, String.isEmpty_iff,
    ← String.toList_eq_nil_iff, ← String.toList_eq_nil_iff, String.toList_ofList,
    List.map_eq_nil_iff]

/-- **Normalised frames** are what a folder keeps of a sample, without the empty ones. -/
theorem filter_keptFrames (filter : FrameFilter) (deepestFirst : List String) :
    (keptFrames filter deepestFirst).filter (!·.isEmpty) =
      normalizedFrames filter deepestFirst := by
  have hkept : (fun name => (!(separatorFree name).isEmpty) && !filter.removes name) =
      fun name => decide (name ≠ "" ∧ filter.removes name = false) := by
    funext name
    rw [isEmpty_separatorFree, Bool.eq_iff_iff]
    simp
  rw [keptFrames, List.filter_map, List.filter_filter]
  simp only [Function.comp_apply, hkept]
  rw [normalizedFrames, List.filter_reverse, funext separatorFree_eq_map]

theorem pathOfFrames_keptFrames (filter : FrameFilter) (deepestFirst : List String) :
    pathOfFrames (keptFrames filter deepestFirst) = stackPath filter deepestFirst := by
  rw [stackPath, ← filter_keptFrames]
  rfl

theorem separator_notMem_separatorFree (name : String) :
    frameSeparator ∉ (separatorFree name).toList := by
  rw [separatorFree, String.toList_ofList, List.mem_map]
  rintro ⟨c, -, hc⟩
  split at hc
  · exact absurd hc (by decide)
  · rename_i hne
    exact hne (beq_iff_eq.mpr hc)

/-- Every normalised frame can be told apart in a path. -/
theorem isFrameName_of_mem_normalizedFrames {filter : FrameFilter} {deepestFirst : List String}
    {name : String} (h : name ∈ normalizedFrames filter deepestFirst) : IsFrameName name := by
  rw [← filter_keptFrames] at h
  obtain ⟨hkept, hnonempty⟩ := List.mem_filter.mp h
  obtain ⟨original, -, rfl⟩ := List.mem_map.mp hkept
  exact ⟨by simpa using hnonempty, separator_notMem_separatorFree original⟩

theorem stackPath_eq_pathOfFrames (filter : FrameFilter) (deepestFirst : List String) :
    stackPath filter deepestFirst = pathOfFrames (normalizedFrames filter deepestFirst) :=
  (pathOfFrames_of_ne_empty fun _ hname =>
    (isFrameName_of_mem_normalizedFrames hname).ne_empty).symm

theorem stackPath_eq_empty_iff {filter : FrameFilter} {deepestFirst : List String} :
    stackPath filter deepestFirst = "" ↔ normalizedFrames filter deepestFirst = [] := by
  rw [stackPath_eq_pathOfFrames]
  exact pathOfFrames_eq_empty_iff fun _ => isFrameName_of_mem_normalizedFrames

/-- **Samples share a path** exactly if they share their normalised frames. -/
theorem stackPath_inj {filter : FrameFilter} {names names' : List String} :
    stackPath filter names = stackPath filter names' ↔
      normalizedFrames filter names = normalizedFrames filter names' := by
  rw [stackPath_eq_pathOfFrames, stackPath_eq_pathOfFrames]
  exact pathOfFrames_inj (fun _ => isFrameName_of_mem_normalizedFrames)
    fun _ => isFrameName_of_mem_normalizedFrames

namespace StackFolder

/-! ## Section 2: Folding sample after sample -/

/-- One observation of the path of each sample. -/
def observations (filter : FrameFilter) (samples : List (List String)) : List (String × Nat) :=
  samples.map fun names => (stackPath filter names, 1)

/-- A folder that has been given the names of the given samples. -/
structure Holds (s : StackFolder) (filter : FrameFilter) (samples : List (List String)) : Prop where
  filter_eq : s.filter = filter
  records : s.folded.Records (observations filter samples)
  skippedLines_eq : s.folded.skippedLines = 0
  samples_eq : s.samples = samples.length
  discarded_eq : s.discarded = samples.countP (stackPath filter · == "")

namespace Holds

variable {s : StackFolder} {filter : FrameFilter} {samples : List (List String)}

theorem init (filter : FrameFilter) : Holds { filter } filter [] where
  filter_eq := rfl
  records := .empty
  skippedLines_eq := rfl
  samples_eq := rfl
  discarded_eq := rfl

/-- Every path is counted once for each sample that has it. -/
theorem countOf_eq (h : s.Holds filter samples) {path : String} (hpath : path ≠ "") :
    s.folded.countOf path = samples.countP (stackPath filter · == path) := by
  rw [h.records.countOf_eq hpath, observations, weightOf_map_one]

theorem total_eq (h : s.Holds filter samples) :
    s.folded.total = samples.countP (stackPath filter · != "") := by
  rw [h.records.total_eq, observations, totalWeight_map_one]

/-- Each sample is either counted in the profile or discarded. -/
theorem total_add_discarded (h : s.Holds filter samples) :
    s.folded.total + s.discarded = samples.length := by
  rw [h.total_eq, h.discarded_eq, Nat.add_comm,
    List.length_eq_countP_add_countP (stackPath filter · == "")]
  -- the samples that are not counted are those with an empty path
  congr 1
  apply List.countP_congr
  intro names _
  simp

/-- **Adding a sample** counts its path, or discards the sample if it has no frames left. -/
theorem addStack (h : s.Holds filter samples) (names : List String)
    (hfit : samples.length + 1 < wordLimit 64) :
    ∃ s', s.addStack names = .ok (decide (stackPath filter names ≠ ""), s') ∧
      s'.Holds filter (samples ++ [names]) := by
  have happend : observations filter (samples ++ [names]) =
      observations filter samples ++ [(stackPath filter names, 1)] := by
    simp [observations]
  -- a path is observed at most once per sample
  have hweight : weightOf (stackPath filter names) (observations filter (samples ++ [names])) <
      wordLimit 64 := by
    rw [observations, weightOf_map_one]
    refine Nat.lt_of_le_of_lt List.countP_le_length ?_
    simpa using hfit
  obtain ⟨folded, hadd, hrecords, hskipped⟩ :=
    h.records.addPath (stackPath filter names) 1 fun _ => happend ▸ hweight
  have hadded : decide (stackPath filter names ≠ "" ∧ 1 ≠ 0) =
      decide (stackPath filter names ≠ "") := by
    simp
  rw [hadded] at hadd
  refine ⟨{ s with
      folded
      samples := s.samples + 1
      discarded := if stackPath filter names = "" then s.discarded + 1 else s.discarded }, ?_, ?_⟩
  · rw [StackFolder.addStack, h.filter_eq, FoldedStacks.addFrames, pathOfFrames_keptFrames, hadd]
    simp [bind, Except.bind, pure, Except.pure]
  · refine ⟨h.filter_eq, happend ▸ hrecords, hskipped.trans h.skippedLines_eq, ?_, ?_⟩
    · simp [h.samples_eq]
    · by_cases hempty : stackPath filter names = "" <;>
        simp [hempty, h.discarded_eq, List.countP_append]

end Holds

end StackFolder

end StackProfiler
