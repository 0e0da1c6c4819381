import StackProfiler.FoldedStacks.Basic
import StackProfiler.Proofs.Text.Pieces

/-!
# Paths and frame names

Cutting a path into frame names and joining frame names to a path undo each other, as long as no
name is empty or holds the separator. So a path is known by its names: `pathOfFrames_inj`. Where
some names are empty, what was joined is cut into the others (`IsJoined`).
-/

namespace StackProfiler

/-- A name that can be told apart in a path: it is not empty and does not hold the separator. -/
structure IsFrameName (name : String) : Prop where
  ne_empty : name ≠ ""
  separator_notMem : frameSeparator ∉ name.toList

theorem toList_intercalate_separator (frames : List String) :
    (";".intercalate frames).toList = [frameSeparator].intercalate (frames.map String.toList) := by
  rw [String.toList_intercalate]
  rfl

/-- Joining the names of a path gives the path. -/
theorem intercalate_framesOfPath (path : String) : ";".intercalate (framesOfPath path) = path := by
  apply String.toList_injective
  rw [toList_intercalate_separator, framesOfPath, List.map_map]
  -- the pieces are made strings, and back
  have hround : (Text.pieces frameSeparator path.toList).map (String.toList ∘ String.ofList) =
      Text.pieces frameSeparator path.toList := by
    simp [Function.comp_def]
  rw [hround, Text.intercalate_pieces]

/-- Two paths with the same names are the same. -/
theorem framesOfPath_injective : Function.Injective framesOfPath := by
  intro p q h
  rw [← intercalate_framesOfPath p, h, intercalate_framesOfPath]

theorem framesOfPath_ne_nil (path : String) : framesOfPath path ≠ [] := by
  rw [framesOfPath, ne_eq, List.map_eq_nil_iff]
  exact Text.pieces_ne_nil _ _

/-- Cutting a joined path gives its names back, if there are any and none holds the separator. -/
theorem framesOfPath_intercalate {frames : List String}
    (hsep : ∀ name ∈ frames, frameSeparator ∉ name.toList) (hne : frames ≠ []) :
    framesOfPath (";".intercalate frames) = frames := by
  have hsep' : ∀ p ∈ frames.map String.toList, frameSeparator ∉ p := by
    intro p hp
    obtain ⟨name, hname, rfl⟩ := List.mem_map.mp hp
    exact hsep name hname
  rw [framesOfPath, toList_intercalate_separator,
    Text.pieces_intercalate hsep' (by simpa using hne), List.map_map]
  simp [Function.comp_def]

theorem pathOfFrames_of_ne_empty {frames : List String} (h : ∀ name ∈ frames, name ≠ "") :
    pathOfFrames frames = ";".intercalate frames := by
  have hkept : frames.filter (!·.isEmpty) = frames := by
    apply List.filter_eq_self.mpr
    intro name hname
    simpa using h name hname
  rw [pathOfFrames, hkept]

/-- A path is empty exactly if no name is left in it. -/
theorem pathOfFrames_eq_empty_iff {frames : List String} (h : ∀ name ∈ frames, IsFrameName name) :
    pathOfFrames frames = "" ↔ frames = [] := by
  rw [pathOfFrames_of_ne_empty fun name hname => (h name hname).ne_empty]
  constructor
  · intro hempty
    by_contra hne
    -- an empty path is cut into one empty name, which no frame has
    have hnames := framesOfPath_intercalate (fun name hname => (h name hname).separator_notMem) hne
    rw [hempty] at hnames
    have hsingle : frames = [""] := hnames.symm
    exact (h "" (by simp [hsingle])).ne_empty rfl
  · rintro rfl
    rfl

/-- **A path is known by its names.** -/
theorem pathOfFrames_inj {frames frames' : List String} (h : ∀ name ∈ frames, IsFrameName name)
    (h' : ∀ name ∈ frames', IsFrameName name) :
    pathOfFrames frames = pathOfFrames frames' ↔ frames = frames' := by
  refine ⟨fun heq => ?_, congrArg pathOfFrames⟩
  by_cases hne : frames = []
  · subst hne
    exact ((pathOfFrames_eq_empty_iff h').mp (heq.symm.trans rfl)).symm
  · -- neither is empty, so cutting the path gives both back
    have hne' : frames' ≠ [] := by
      rintro rfl
      exact hne ((pathOfFrames_eq_empty_iff h).mp heq)
    rw [pathOfFrames_of_ne_empty fun name hname => (h name hname).ne_empty,
      pathOfFrames_of_ne_empty fun name hname => (h' name hname).ne_empty] at heq
    rw [← framesOfPath_intercalate (fun name hname => (h name hname).separator_notMem) hne, heq,
      framesOfPath_intercalate (fun name hname => (h' name hname).separator_notMem) hne']

/-- Cutting what frames were joined to gives the frames back, but for the empty ones. -/
theorem framesOfPath_pathOfFrames {frames : List String}
    (hsep : ∀ name ∈ frames, frameSeparator ∉ name.toList) (hne : pathOfFrames frames ≠ "") :
    framesOfPath (pathOfFrames frames) = frames.filter (!·.isEmpty) := by
  have hnames : frames.filter (!·.isEmpty) ≠ [] := by
    intro hnil
    rw [pathOfFrames, hnil] at hne
    exact hne rfl
  exact framesOfPath_intercalate (fun name hname => hsep name (List.mem_of_mem_filter hname)) hnames

/-- A path that frames were joined to, each of them free of separators. -/
def IsJoined (path : String) : Prop :=
  ∃ frames, (∀ name ∈ frames, frameSeparator ∉ name.toList) ∧ path = pathOfFrames frames

/-- A joined path is cut into the names in it. -/
theorem IsJoined.pathOfFrames_framesOfPath {path : String} (h : IsJoined path) (hne : path ≠ "") :
    pathOfFrames (framesOfPath path) = path := by
  obtain ⟨frames, hsep, rfl⟩ := h
  rw [framesOfPath_pathOfFrames hsep hne, pathOfFrames, pathOfFrames, List.filter_filter]
  simp

/-- The paths that frames can be joined to are those without an empty name. -/
theorem isJoined_iff {path : String} (hne : path ≠ "") :
    IsJoined path ↔ "" ∉ framesOfPath path := by
  constructor
  · rintro ⟨frames, hsep, rfl⟩
    rw [framesOfPath_pathOfFrames hsep hne]
    simp
  · intro hnames
    refine ⟨framesOfPath path, ?_, ?_⟩
    · intro name hname
      obtain ⟨piece, hpiece, rfl⟩ := List.mem_map.mp hname
      rw [String.toList_ofList]
      exact Text.separator_notMem_of_mem_pieces hpiece
    · rw [pathOfFrames_of_ne_empty fun name hname heq => hnames (heq ▸ hname),
        intercalate_framesOfPath]

end StackProfiler
