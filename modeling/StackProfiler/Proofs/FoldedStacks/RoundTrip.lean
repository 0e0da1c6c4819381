import Mathlib.Algebra.Order.BigOperators.Group.List
import Mathlib.Algebra.Order.Group.Nat
import StackProfiler.Proofs.FoldedStacks.Reading
import StackProfiler.Proofs.StackFolder
import StackProfiler.Proofs.Text.Numeral

/-!
# Folded text, written and read back

Paths are written as they are, but reading trims lines and paths, ignores lines that start with `#`,
and ends a line at every newline. So a profile comes back from its text exactly if all its paths
stay clear of these (`IsPlainPath`), and paths that do not can be read from a text and folded from
samples alike.

- **one line**: `FoldedLine.read_lineOf`, what is read where a path and its count were written;
- **profiles that are made**: `FoldedStacks.IsMade`, and `IsMade.exists_records`, their joined paths;
- **paths that come back**: `exists_source`, a path is read from the line of some path;
- **main statement**: `FoldedStacks.ofText_toText_iff`.
-/

namespace StackProfiler

/-! ## Section 1: Written lines -/

/-- A path that reading leaves as it is. -/
structure IsPlainPath (path : String) : Prop where
  newline_notMem : '\n' ∉ path.toList
  head?_ne : path.toList.head? ≠ some '#'
  head?_not_blank : ∀ c ∈ path.toList.head?, Text.isBlank c = false
  getLast?_not_blank : ∀ c ∈ path.toList.getLast?, Text.isBlank c = false

theorem IsPlainPath.trim_eq {path : String} (h : IsPlainPath path) :
    Text.trim path.toList = path.toList :=
  Text.trim_eq_self_iff.mpr ⟨h.head?_not_blank, h.getLast?_not_blank⟩

/-- The line of a path and its count, without its end. -/
def lineOf (entry : String × Nat) : List Char :=
  entry.1.toList ++ ' ' :: Nat.toDigits 10 entry.2

theorem isBlank_of_isDigit {c : Char} (h : c.isDigit = true) : Text.isBlank c = false := by
  simp only [Char.isDigit, Bool.and_eq_true, decide_eq_true_eq] at h
  have hlower : 48 ≤ c.toNat := h.1
  have hupper : c.toNat ≤ 57 := h.2
  simp [Text.isBlank, Text.blankRanges]
  omega

/-- A line ends in a digit. -/
theorem exists_getLast?_lineOf (entry : String × Nat) :
    ∃ c, (lineOf entry).getLast? = some c ∧ c.isDigit = true := by
  have hne : Nat.toDigits 10 entry.2 ≠ [] := Nat.toDigits_ne_nil
  refine ⟨(Nat.toDigits 10 entry.2).getLast hne, ?_, ?_⟩
  · rw [lineOf, List.getLast?_append, List.getLast?_cons, List.getLast?_eq_some_getLast hne]
    rfl
  · exact Text.isDigit_of_mem_toDigits (List.getLast_mem hne)

theorem trimEnd_lineOf (entry : String × Nat) : Text.trimEnd (lineOf entry) = lineOf entry := by
  rw [Text.trimEnd_eq_self_iff]
  obtain ⟨c, hlast, hdigit⟩ := exists_getLast?_lineOf entry
  intro c' hc'
  rw [hlast] at hc'
  cases hc'
  exact isBlank_of_isDigit hdigit

theorem newline_notMem_lineOf {entry : String × Nat} (h : '\n' ∉ entry.1.toList) :
    '\n' ∉ lineOf entry := by
  rw [lineOf, List.mem_append, List.mem_cons]
  rintro (hpath | hspace | hdigit)
  · exact h hpath
  · contradiction
  · exact absurd (Text.isDigit_of_mem_toDigits hdigit) (by decide)

theorem space_notMem_toDigits (n : Nat) : ' ' ∉ Nat.toDigits 10 n :=
  fun h => absurd (Text.isDigit_of_mem_toDigits h) (by decide)

/-- **What is read where a path was written**: it is ignored if it looks like a comment, and else
its frames are read, if there are any. -/
theorem FoldedLine.read_lineOf {path : String} {count : Nat} (hpath : path ≠ "")
    (hpos : 0 < count) (hlt : count < wordLimit 64) :
    FoldedLine.read (lineOf (path, count)) =
      if path.toList.head? = some '#' then .ignored
      else if (frames path.toList).all (·.isEmpty) then .skipped
      else .counted (frames path.toList) count := by
  -- the line starts as the path does, and it is cut in front of the count
  have hchars : path.toList ≠ [] := by simpa using hpath
  have hnonempty : (lineOf (path, count)).isEmpty = false := by simp [lineOf]
  have hhead : (lineOf (path, count)).head? = path.toList.head? := by
    rw [lineOf, List.head?_append_of_ne_nil _ hchars]
  have hcut : Text.cutLast? ' ' (lineOf (path, count)) =
      some (path.toList, Nat.toDigits 10 count) :=
    Text.cutLast?_append _ (space_notMem_toDigits count)
  have hcount : count? (Nat.toDigits 10 count) = some count := by
    simp [count?, Text.unsigned?_toDigits hlt, hpos]
  simp [read, trimEnd_lineOf, hnonempty, hhead, hcut, hcount]

namespace FoldedStacks

theorem toList_toText (f : FoldedStacks) :
    f.toText.toList = (f.toList.map lineOf).flatMap (· ++ ['\n']) := by
  simp [toText, String.toList_join, List.flatMap_map, writeLine, lineOf]

/-- The lines of a written profile, if no path breaks its line. -/
theorem lines_toText {f : FoldedStacks} (h : ∀ entry ∈ f.toList, '\n' ∉ entry.1.toList) :
    Text.lines '\n' '\r' f.toText.toList = f.toList.map lineOf := by
  rw [toList_toText]
  apply Text.lines_flatMap
  intro line hline
  obtain ⟨entry, hentry, rfl⟩ := List.mem_map.mp hline
  refine ⟨newline_notMem_lineOf (h entry hentry), fun hret => ?_⟩
  obtain ⟨c, hlast, hdigit⟩ := exists_getLast?_lineOf entry
  cases Option.some.inj (hlast.symm.trans hret)
  contradiction

end FoldedStacks

/-! ## Section 2: Profiles that are made -/

/-- Adds several samples in order. -/
def StackFolder.addAll (s : StackFolder) : List (List String) → Checked StackFolder
  | [] => .ok s
  | names :: samples => do
    let (_, s) ← s.addStack names
    s.addAll samples

/-- A profile that was read from a text or folded from samples. -/
inductive FoldedStacks.IsMade : FoldedStacks → Prop where
  | read {text : String} {f : FoldedStacks} (h : FoldedStacks.ofText text = .ok f) : IsMade f
  | folded {filter : FrameFilter} {samples : List (List String)} {s : StackFolder}
      (h : StackFolder.addAll { filter } samples = .ok s) : IsMade s.folded

theorem isJoined_stackPath (filter : FrameFilter) (names : List String) :
    IsJoined (stackPath filter names) :=
  ⟨normalizedFrames filter names,
    fun _ hname => (isFrameName_of_mem_normalizedFrames hname).separator_notMem,
    stackPath_eq_pathOfFrames filter names⟩

/-- What a folder has counted after several samples. -/
theorem StackFolder.records_addAll {s s' : StackFolder} {entries : List (String × Nat)}
    {samples : List (List String)} (h : s.folded.Records entries)
    (hadd : s.addAll samples = .ok s') :
    s'.folded.Records (entries ++ observations s.filter samples) := by
  induction samples generalizing s entries with
  | nil =>
    cases hadd
    simpa [observations] using h
  | cons names samples ih =>
    simp only [addAll, addStack, Checked.bind_eq_ok_iff] at hadd
    obtain ⟨⟨added, s₁⟩, ⟨⟨added', folded⟩, hpath, hs₁⟩, hrest⟩ := hadd
    cases hs₁
    obtain ⟨hrecords, -⟩ := h.of_addPath hpath
    have hall := ih hrecords hrest
    rwa [pathOfFrames_keptFrames, List.append_assoc] at hall

namespace FoldedStacks

variable {f : FoldedStacks}

/-- Every path of a profile that is made was joined of frames. -/
theorem IsMade.exists_records (h : f.IsMade) :
    ∃ entries, f.Records entries ∧ ∀ entry ∈ entries, IsJoined entry.1 := by
  cases h with
  | read hread =>
    refine ⟨_, (reads_of_ofText hread).records, ?_⟩
    rintro ⟨path, count⟩ hentry
    obtain ⟨-, -, cs, -, -, rfl⟩ := exists_of_mem_countedEntries hentry
    exact ⟨FoldedLine.frames cs, fun _ => FoldedLine.separator_notMem_of_mem_frames, rfl⟩
  | @folded filter samples s hfold =>
    refine ⟨_, StackFolder.records_addAll .empty hfold, ?_⟩
    rintro ⟨path, count⟩ hentry
    obtain ⟨names, -, heq⟩ := List.mem_map.mp hentry
    cases heq
    exact isJoined_stackPath filter names

/-- What is listed in a profile that is made. -/
theorem IsMade.of_mem (h : f.IsMade) {path : String} {count : Nat}
    (hmem : (path, count) ∈ f.toList) : path ≠ "" ∧ 0 < count ∧ IsJoined path := by
  obtain ⟨entries, hrecords, hjoined⟩ := h.exists_records
  obtain ⟨hpath, hpos, n, hentry⟩ := hrecords.of_mem_toList hmem
  exact ⟨hpath, hpos, hjoined _ hentry⟩

theorem count_le_total {path : String} {count : Nat} (hmem : (path, count) ∈ f.toList) :
    count ≤ f.total :=
  List.le_sum_of_mem (List.mem_map_of_mem hmem)

theorem countOf_le_total (f : FoldedStacks) (path : String) : f.countOf path ≤ f.total := by
  rw [countOf_eq]
  cases hget : f.counts[path]? with
  | none => exact Nat.zero_le _
  | some count => exact count_le_total (mem_toList_iff.mpr hget)

/-! ## Section 3: Plain paths come back -/

/-- A joined path without blanks at its ends is read as it was written. -/
theorem pathOfFrames_frames_of_trim_eq {path : String} (h : IsJoined path) (hne : path ≠ "")
    (htrim : Text.trim path.toList = path.toList) :
    pathOfFrames (FoldedLine.frames path.toList) = path := by
  rw [FoldedLine.frames, htrim]
  exact h.pathOfFrames_framesOfPath hne

/-- The line of a plain path is read as its path and count. -/
theorem read_lineOf_of_isPlainPath {path : String} {count : Nat} (hpath : path ≠ "")
    (hpos : 0 < count) (hlt : count < wordLimit 64) (hjoined : IsJoined path)
    (hplain : IsPlainPath path) :
    FoldedLine.read (lineOf (path, count)) = .counted (FoldedLine.frames path.toList) count ∧
      pathOfFrames (FoldedLine.frames path.toList) = path := by
  have hsame := pathOfFrames_frames_of_trim_eq hjoined hpath hplain.trim_eq
  -- a path that is not empty has a name in it
  have hnames : (FoldedLine.frames path.toList).all (·.isEmpty) = false := by
    by_contra hall
    rw [Bool.not_eq_false, List.all_eq_true] at hall
    apply hpath
    rw [← hsame, pathOfFrames, List.filter_eq_nil_iff.mpr (by simpa using hall)]
    rfl
  refine ⟨?_, hsame⟩
  rw [FoldedLine.read_lineOf hpath hpos hlt, if_neg hplain.head?_ne, if_neg (by simp [hnames])]

/-- **Plain paths that were joined of frames come back**, wherever the profile is from. -/
theorem ofText_toText_of_isJoined (hrecords : f.Records f.toList) (htotal : f.total < wordLimit 64)
    (hjoined : ∀ entry ∈ f.toList, IsJoined entry.1)
    (hplain : ∀ entry ∈ f.toList, IsPlainPath entry.1) :
    ofText f.toText = .ok { f with skippedLines := 0 } := by
  have hread : ∀ entry ∈ f.toList,
      FoldedLine.read (lineOf entry) = .counted (FoldedLine.frames entry.1.toList) entry.2 ∧
        pathOfFrames (FoldedLine.frames entry.1.toList) = entry.1 := by
    intro entry hentry
    obtain ⟨hpath, hpos, -⟩ := hrecords.of_mem_toList hentry
    exact read_lineOf_of_isPlainPath hpath hpos (Nat.lt_of_le_of_lt (count_le_total hentry) htotal)
      (hjoined entry hentry) (hplain entry hentry)
  have hlines := lines_toText fun entry hentry => (hplain entry hentry).newline_notMem
  -- the lines count what the profile lists, and none is malformed
  have hcounted : countedEntries (f.toList.map lineOf) = f.toList := by
    rw [countedEntries, List.filterMap_map]
    conv_rhs => rw [← List.filterMap_some (l := f.toList)]
    apply List.filterMap_congr
    intro entry hentry
    obtain ⟨hline, hpath⟩ := hread entry hentry
    simp [hline, FoldedLine.observation?, hpath]
  have hskipped : skippedIn (f.toList.map lineOf) = 0 := by
    rw [skippedIn, List.countP_map, List.countP_eq_zero]
    intro entry hentry
    simp [(hread entry hentry).1]
  obtain ⟨g, hg⟩ : ∃ g, ofText f.toText = .ok g := by
    apply exists_ofText
    intro path hpath
    rw [hlines, hcounted, weightOf_toList]
    exact Nat.lt_of_le_of_lt (countOf_le_total f path) htotal
  have hreads := reads_of_ofText hg
  rw [hlines] at hreads
  -- the profile that was written holds the same, so both are equal
  have hsame : Records { f with skippedLines := 0 } f.toList :=
    ⟨hrecords.getElem?_counts, hrecords.total_eq⟩
  rw [hg, hreads.records.eq_of_perm hsame (.of_eq hcounted) (hreads.skippedLines_eq.trans hskipped)]

theorem ofText_toText_of_isPlainPath (h : f.IsMade) (htotal : f.total < wordLimit 64)
    (hplain : ∀ entry ∈ f.toList, IsPlainPath entry.1) :
    ofText f.toText = .ok { f with skippedLines := 0 } := by
  obtain ⟨entries, hrecords, -⟩ := h.exists_records
  exact ofText_toText_of_isJoined hrecords.toList htotal
    (fun entry hentry => (h.of_mem hentry).2.2) hplain

/-! ## Section 4: Only plain paths come back -/

section ComesBack

variable (h : f.IsMade) (htotal : f.total < wordLimit 64)
  (hback : ofText f.toText = .ok { f with skippedLines := 0 })
include hback

/-- No path of a profile that came back breaks its line: it was read from one. -/
theorem newline_notMem_of_comesBack : ∀ entry ∈ f.toList, '\n' ∉ entry.1.toList := by
  rintro ⟨path, count⟩ hmem
  obtain ⟨-, -, n, hentry⟩ := (reads_of_ofText hback).records.of_mem_toList hmem
  obtain ⟨line, hline, cs, hcs, -, rfl⟩ := exists_of_mem_countedEntries hentry
  intro hnewline
  apply Text.newline_notMem_of_mem_lines hline
  -- the path is a part of the line
  have hpart := (FoldedLine.pathOfFrames_frames_sublist cs).trans (Text.trim_sublist cs)
  exact (hpart.trans hcs).mem hnewline

include h htotal

/-- **Where a path comes back from**: the line of a path that does not look like a comment. -/
theorem exists_source {path : String} {count : Nat} (hmem : (path, count) ∈ f.toList) :
    ∃ (source : String) (n : Nat), (source, n) ∈ f.toList ∧ source.toList.head? ≠ some '#' ∧
      path = pathOfFrames (FoldedLine.frames source.toList) := by
  have hreads := reads_of_ofText hback
  rw [lines_toText (newline_notMem_of_comesBack hback)] at hreads
  obtain ⟨-, -, n, hentry⟩ := hreads.records.of_mem_toList hmem
  obtain ⟨line, hline, cs, -, hread, rfl⟩ := exists_of_mem_countedEntries hentry
  obtain ⟨⟨source, m⟩, hsource, rfl⟩ := List.mem_map.mp hline
  obtain ⟨hne, hpos, -⟩ := h.of_mem hsource
  have hlt : m < wordLimit 64 := Nat.lt_of_le_of_lt (count_le_total hsource) htotal
  refine ⟨source, m, hsource, ?_⟩
  rw [FoldedLine.read_lineOf hne hpos hlt] at hread
  split at hread
  case isTrue => contradiction
  case isFalse hhead =>
    split at hread
    case isTrue => contradiction
    case isFalse =>
      obtain ⟨hnames, -⟩ := FoldedLine.counted.inj hread
      exact ⟨hhead, by rw [hnames]⟩

/-- A path that reading would change comes back only from a longer one that it would change. -/
theorem exists_longer {path : String} {count : Nat} (hmem : (path, count) ∈ f.toList)
    (hchanged : path.toList.head? = some '#' ∨ Text.trim path.toList ≠ path.toList) :
    ∃ (source : String) (n : Nat), (source, n) ∈ f.toList ∧
      Text.trim source.toList ≠ source.toList ∧ path.toList.length < source.toList.length := by
  obtain ⟨source, n, hsource, hhead, rfl⟩ := exists_source h htotal hback hmem
  obtain ⟨hne, -, hjoined⟩ := h.of_mem hsource
  have htrim : Text.trim source.toList ≠ source.toList := by
    intro hsame
    -- a source that is not trimmed is the path itself
    rw [pathOfFrames_frames_of_trim_eq hjoined hne hsame] at hchanged
    rcases hchanged with hcomment | htrimmed
    · exact hhead hcomment
    · exact htrimmed hsame
  refine ⟨source, n, hsource, htrim, ?_⟩
  have hpart := (FoldedLine.pathOfFrames_frames_sublist source.toList).length_le
  have hshorter : (Text.trim source.toList).length < source.toList.length := by
    refine Nat.lt_of_le_of_ne (Text.trim_sublist _).length_le fun heq => htrim ?_
    exact (Text.trim_sublist _).eq_of_length heq
  omega

/-- **No path is changed**: otherwise there would be ever longer ones. -/
theorem not_changed_of_comesBack : ∀ entry ∈ f.toList,
    ¬(entry.1.toList.head? = some '#' ∨ Text.trim entry.1.toList ≠ entry.1.toList) := by
  intro entry hmem hchanged
  have hlonger : ∀ k : Nat, ∃ (path : String) (count : Nat), (path, count) ∈ f.toList ∧
      (path.toList.head? = some '#' ∨ Text.trim path.toList ≠ path.toList) ∧
        k ≤ path.toList.length := by
    intro k
    induction k with
    | zero => exact ⟨entry.1, entry.2, hmem, hchanged, Nat.zero_le _⟩
    | succ k ih =>
      obtain ⟨path, count, hpath, hchanged', hk⟩ := ih
      obtain ⟨source, n, hsource, htrim, hlt⟩ := exists_longer h htotal hback hpath hchanged'
      exact ⟨source, n, hsource, .inr htrim, by omega⟩
  -- but no path is longer than all paths together
  obtain ⟨path, count, hpath, -, hlong⟩ :=
    hlonger ((f.toList.map fun entry => entry.1.toList.length).sum + 1)
  have hle : path.toList.length ≤ (f.toList.map fun entry => entry.1.toList.length).sum :=
    List.le_sum_of_mem (List.mem_map_of_mem (f := fun entry => entry.1.toList.length) hpath)
  omega

theorem isPlainPath_of_comesBack : ∀ entry ∈ f.toList, IsPlainPath entry.1 := by
  intro entry hmem
  obtain ⟨hhead, htrim⟩ := not_or.mp (not_changed_of_comesBack h htotal hback entry hmem)
  obtain ⟨hstart, hend⟩ := Text.trim_eq_self_iff.mp (not_not.mp htrim)
  exact ⟨newline_notMem_of_comesBack hback entry hmem, hhead, hstart, hend⟩

end ComesBack

/-! ## Section 5: The round trip -/

/--
**What comes back from its text.** A profile that was read from a text or folded from samples, with
a sum of counts that fits in a word, comes back from the text that is written of it, with the same
paths and counts and no line skipped, exactly if none of its paths holds a newline, starts with a
`#`, or has a blank at one of its ends.
-/
theorem ofText_toText_iff (h : f.IsMade) (htotal : f.total < wordLimit 64) :
    ofText f.toText = .ok { f with skippedLines := 0 } ↔
      ∀ entry ∈ f.toList, IsPlainPath entry.1 :=
  ⟨isPlainPath_of_comesBack h htotal, ofText_toText_of_isPlainPath h htotal⟩

private theorem isPlainPath_main_work : IsPlainPath "main;work" := by
  refine ⟨by decide, by decide, fun c hc => ?_, fun c hc => ?_⟩
  · cases (show some 'm' = some c from hc)
    decide
  · cases (show some 'k' = some c from hc)
    decide

/-- What one sample is folded to. -/
private def foldedAlone (names : List String) : List (String × Nat) :=
  match StackFolder.addAll { filter := .sentinels } [names] with
  | .error _ => []
  | .ok s => s.folded.toList

private theorem exists_folded_of_foldedAlone (names : List String) (entry : String × Nat)
    (h : foldedAlone names = [entry]) :
    ∃ s, StackFolder.addAll { filter := .sentinels } [names] = .ok s ∧
      s.folded.toList = [entry] := by
  unfold foldedAlone at h
  split at h
  case h_1 => contradiction
  case h_2 s hs => exact ⟨s, hs, h⟩

/-- A sample of plain names comes back, and a sample of one name that looks like a comment does
not. -/
theorem ofText_toText_iff_comment :
    (∃ s, StackFolder.addAll { filter := .sentinels } [["work", "main"]] = .ok s ∧
      ofText s.folded.toText = .ok { s.folded with skippedLines := 0 }) ∧
    ∃ s, StackFolder.addAll { filter := .sentinels } [["#x"]] = .ok s ∧
      s.folded.toList = [("#x", 1)] ∧
      ofText s.folded.toText ≠ .ok { s.folded with skippedLines := 0 } := by
  constructor
  · obtain ⟨s, hs, hlist⟩ :=
      exists_folded_of_foldedAlone ["work", "main"] ("main;work", 1) (by decide +kernel)
    have htotal : s.folded.total < wordLimit 64 := by
      rw [total, hlist]
      decide
    refine ⟨s, hs, (ofText_toText_iff (.folded hs) htotal).mpr ?_⟩
    simpa [hlist] using isPlainPath_main_work
  · obtain ⟨s, hs, hlist⟩ :=
      exists_folded_of_foldedAlone ["#x"] ("#x", 1) (by decide +kernel)
    have htotal : s.folded.total < wordLimit 64 := by
      rw [total, hlist]
      decide
    refine ⟨s, hs, hlist, fun hback => ?_⟩
    have hplain := (ofText_toText_iff (.folded hs) htotal).mp hback ("#x", 1) (by simp [hlist])
    exact hplain.head?_ne (by decide)

end FoldedStacks

end StackProfiler
