import StackProfiler.Proofs.FoldedStacks.Counts
import StackProfiler.Proofs.FoldedStacks.LineGrammar
import StackProfiler.Proofs.FoldedStacks.Path

/-!
# What folded text says

A profile that was read holds what its counted lines add up to, and has skipped as many lines as
were malformed (`FoldedStacks.Reads`). Each line adds to this on its own (`Reads.addLine`), so it
holds of a whole text (`reads_of_ofText`), and a text can be read as long as the count of every path
fits in a word (`exists_ofText`).
-/

namespace StackProfiler

namespace FoldedLine

/-! ## Section 1: Lines -/

/-- Reading frames and joining them again can only leave something out. -/
theorem pathOfFrames_frames_sublist (cs : List Char) :
    (pathOfFrames (frames cs)).toList.Sublist (Text.trim cs) := by
  have hpieces : (frames cs).map String.toList = Text.pieces frameSeparator (Text.trim cs) := by
    simp [frames, Function.comp_def]
  rw [pathOfFrames, toList_intercalate_separator]
  conv_rhs => rw [← Text.intercalate_pieces frameSeparator (Text.trim cs), ← hpieces]
  exact Text.intercalate_sublist (List.filter_sublist.map _)

theorem separator_notMem_of_mem_frames {cs : List Char} {name : String} (h : name ∈ frames cs) :
    frameSeparator ∉ name.toList := by
  obtain ⟨piece, hpiece, rfl⟩ := List.mem_map.mp h
  rw [String.toList_ofList]
  exact Text.separator_notMem_of_mem_pieces hpiece

/-- What a line counts, if it does. -/
def observation? : FoldedLine → Option (String × Nat)
  | .counted frames count => some (pathOfFrames frames, count)
  | .ignored => none
  | .skipped => none

/-- The frames of a counted line are read from a part of the line. -/
theorem exists_of_read_eq_counted {line : List Char} {names : List String} {count : Nat}
    (h : read line = .counted names count) :
    ∃ cs : List Char, cs.Sublist line ∧ names = frames cs := by
  obtain ⟨-, hline⟩ := read_eq_counted_iff.mp h
  have htrim := Text.trimEnd_sublist line
  generalize Text.trimEnd line = trimmed at hline htrim
  cases hline with
  | @intro path => exact ⟨path, (List.sublist_append_left path _).trans htrim, rfl⟩

end FoldedLine

/-- What several lines count, in order. -/
def countedEntries (lines : List (List Char)) : List (String × Nat) :=
  lines.filterMap fun line => (FoldedLine.read line).observation?

theorem countedEntries_append (front back : List (List Char)) :
    countedEntries (front ++ back) = countedEntries front ++ countedEntries back :=
  List.filterMap_append

/-- What is counted was read from a part of some line. -/
theorem exists_of_mem_countedEntries {lines : List (List Char)} {path : String} {count : Nat}
    (h : (path, count) ∈ countedEntries lines) :
    ∃ line ∈ lines, ∃ cs : List Char, cs.Sublist line ∧
      FoldedLine.read line = .counted (FoldedLine.frames cs) count ∧
      path = pathOfFrames (FoldedLine.frames cs) := by
  obtain ⟨line, hline, hentry⟩ := List.mem_filterMap.mp h
  cases hread : FoldedLine.read line with
  | ignored => simp [hread, FoldedLine.observation?] at hentry
  | skipped => simp [hread, FoldedLine.observation?] at hentry
  | counted names n =>
    rw [hread] at hentry
    cases hentry
    obtain ⟨cs, hcs, rfl⟩ := FoldedLine.exists_of_read_eq_counted hread
    exact ⟨line, hline, cs, hcs, hread, rfl⟩

/-- Number of malformed lines. -/
def skippedIn (lines : List (List Char)) : Nat :=
  lines.countP fun line => FoldedLine.read line = .skipped

namespace FoldedStacks

/-! ## Section 2: Reading line after line -/

/-- The profile is what reading the lines gives. -/
structure Reads (f : FoldedStacks) (lines : List (List Char)) : Prop where
  records : f.Records (countedEntries lines)
  skippedLines_eq : f.skippedLines = skippedIn lines

namespace Reads

variable {f f' : FoldedStacks} {lines lines' : List (List Char)} {line : List Char}

theorem empty : FoldedStacks.empty.Reads [] :=
  ⟨.empty, rfl⟩

/-- **One line** adds what it says. -/
theorem addLine (h : f.Reads lines) (hadd : f.addLine line = .ok f') :
    f'.Reads (lines ++ [line]) := by
  unfold FoldedStacks.addLine at hadd
  cases hread : FoldedLine.read line with
  | ignored =>
    rw [hread] at hadd
    cases hadd
    constructor
    · simpa [countedEntries, hread, FoldedLine.observation?] using h.records
    · simpa [skippedIn, hread] using h.skippedLines_eq
  | skipped =>
    rw [hread] at hadd
    cases hadd
    constructor
    · simpa [countedEntries, hread, FoldedLine.observation?] using h.records.skipLine
    · simpa [skippedIn, hread, skipLine] using h.skippedLines_eq
  | counted names count =>
    simp only [hread, Checked.bind_eq_ok_iff] at hadd
    obtain ⟨⟨added, f₁⟩, hpath, hadd⟩ := hadd
    cases hadd
    obtain ⟨hrecords, hsame⟩ := h.records.of_addPath hpath
    constructor
    · simpa [countedEntries, hread, FoldedLine.observation?] using hrecords
    · simpa [skippedIn, hread] using hsame.trans h.skippedLines_eq

theorem exists_addLine (h : f.Reads lines)
    (hfits : ∀ path ≠ "", weightOf path (countedEntries (lines ++ [line])) < wordLimit 64) :
    ∃ f', f.addLine line = .ok f' := by
  unfold FoldedStacks.addLine
  -- only a counted line can fail, and the new count of its path is its weight so far
  cases hread : FoldedLine.read line with
  | ignored => exact ⟨f, rfl⟩
  | skipped => exact ⟨f.skipLine, rfl⟩
  | counted names count =>
    have hentries : countedEntries (lines ++ [line]) =
        countedEntries lines ++ [(pathOfFrames names, count)] := by
      simp [countedEntries, hread, FoldedLine.observation?]
    obtain ⟨f', hpath, -⟩ := h.records.addPath (pathOfFrames names) count
      fun hne => hentries ▸ hfits _ hne
    refine ⟨f', ?_⟩
    simp [addFrames, hpath, bind, Except.bind, pure, Except.pure]

/-- **Several lines** add what they say. -/
theorem foldlM (h : f.Reads lines) (hadd : lines'.foldlM FoldedStacks.addLine f = .ok f') :
    f'.Reads (lines ++ lines') := by
  induction lines' generalizing f lines with
  | nil =>
    cases hadd
    simpa using h
  | cons line lines' ih =>
    rw [List.foldlM_cons, Checked.bind_eq_ok_iff] at hadd
    obtain ⟨f₁, hfirst, hrest⟩ := hadd
    simpa using ih (h.addLine hfirst) hrest

theorem exists_foldlM (h : f.Reads lines)
    (hfits : ∀ path ≠ "", weightOf path (countedEntries (lines ++ lines')) < wordLimit 64) :
    ∃ f', lines'.foldlM FoldedStacks.addLine f = .ok f' := by
  induction lines' generalizing f lines with
  | nil => exact ⟨f, rfl⟩
  | cons line lines' ih =>
    rw [← List.singleton_append, ← List.append_assoc] at hfits
    -- a path weighs no more in the lines so far than in all lines
    have hfirst : ∀ path ≠ "",
        weightOf path (countedEntries (lines ++ [line])) < wordLimit 64 := by
      intro path hpath
      have hall := hfits path hpath
      rw [countedEntries_append, weightOf_append] at hall
      omega
    obtain ⟨f₁, hadd⟩ := h.exists_addLine hfirst
    obtain ⟨f', hrest⟩ := ih (h.addLine hadd) hfits
    refine ⟨f', ?_⟩
    rw [List.foldlM_cons, hadd]
    exact hrest

end Reads

/-- **A text that was read**: the profile is what its lines add up to. -/
theorem reads_of_ofText {text : String} {f : FoldedStacks} (h : ofText text = .ok f) :
    f.Reads (Text.lines '\n' '\r' text.toList) :=
  Reads.empty.foldlM h

/-- **A text can be read** if the count of every path fits in a word. -/
theorem exists_ofText {text : String}
    (hfits : ∀ path ≠ "",
      weightOf path (countedEntries (Text.lines '\n' '\r' text.toList)) < wordLimit 64) :
    ∃ f, ofText text = .ok f :=
  Reads.empty.exists_foldlM hfits

end FoldedStacks

end StackProfiler
