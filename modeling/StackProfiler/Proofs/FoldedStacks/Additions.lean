import StackProfiler.Proofs.FoldedStacks.RoundTrip

/-!
# Profiles that paths were added to

Frames and joined paths can be added to a profile in any order, and a joined path is taken as it is:
it may hold newlines, blanks and empty names. So not every such profile comes back from its text.
Here is which ones do (`FoldedStacks.ofText_toText_eq_iff`): a path must not only be plain but also
be cut into names none of which is empty (`IsCanonicalPath`).

What comes back was read, so it is known of it already that its paths are plain. What is left is
that a profile need not be made of samples or of a text for its plain paths to come back.
-/

namespace StackProfiler

/-! ## Section 1: Additions -/

/-- Something that is added to a profile. -/
inductive Addition where
  /-- Observations of the path through some frames. -/
  | frames (names : List String) (count : Nat)
  /-- Observations of a path that is joined already. -/
  | joined (path : String) (count : Nat)
deriving DecidableEq, Repr

/-- The counted path that an addition stands for. -/
def Addition.entry : Addition → String × Nat
  | .frames names count => (pathOfFrames names, count)
  | .joined path count => (path, count)

namespace FoldedStacks

/-- Adds to a profile, and says whether anything was added. -/
def add (f : FoldedStacks) : Addition → Checked (Bool × FoldedStacks)
  | .frames names count => f.addFrames names count
  | .joined path count => f.addPath path count

/-- Adds several things in order. -/
def addAll (f : FoldedStacks) : List Addition → Checked FoldedStacks
  | [] => .ok f
  | addition :: additions => do
    let (_, f) ← f.add addition
    f.addAll additions

/-- Whatever is added, it is one counted path. -/
theorem add_eq_addPath (f : FoldedStacks) (addition : Addition) :
    f.add addition = f.addPath addition.entry.1 addition.entry.2 := by
  cases addition <;> rfl

/-- **Additions in order** make a profile hold their counted paths as well, provided that the counts
together fit in a word. -/
theorem Records.addAll {f : FoldedStacks} {entries : List (String × Nat)} (h : f.Records entries)
    (additions : List Addition)
    (hfit : totalWeight (entries ++ additions.map Addition.entry) < wordLimit 64) :
    ∃ f', f.addAll additions = .ok f' ∧ f'.Records (entries ++ additions.map Addition.entry) ∧
      f'.skippedLines = f.skippedLines := by
  induction additions generalizing f entries with
  | nil => exact ⟨f, rfl, by simpa using h, rfl⟩
  | cons addition additions ih =>
    rw [List.map_cons, List.append_cons] at hfit ⊢
    -- the first addition fits because all of them do
    have hfirst : addition.entry.1 ≠ "" →
        weightOf addition.entry.1 (entries ++ [addition.entry]) < wordLimit 64 := by
      intro hpath
      have hle := weightOf_le_totalWeight hpath (entries ++ [addition.entry])
      rw [totalWeight_append] at hfit
      omega
    obtain ⟨f₁, hadd, h₁, hsame₁⟩ := h.addPath addition.entry.1 addition.entry.2 hfirst
    obtain ⟨f₂, hrest, h₂, hsame₂⟩ := ih h₁ hfit
    refine ⟨f₂, ?_, h₂, hsame₂.trans hsame₁⟩
    rw [FoldedStacks.addAll, add_eq_addPath, hadd]
    exact hrest

/-! ## Section 2: Paths that are read as they are written -/

/-- A path that is read as it is written: it is plain, and no name in it is empty. -/
structure IsCanonicalPath (path : String) : Prop extends IsPlainPath path where
  empty_notMem : "" ∉ framesOfPath path

variable {f : FoldedStacks}

/-- The paths of a profile that came back are canonical, because they were read. -/
theorem isCanonicalPath_of_comesBack (htotal : f.total < wordLimit 64)
    (hskipped : f.skippedLines = 0) (hback : ofText f.toText = .ok f) :
    ∀ entry ∈ f.toList, IsCanonicalPath entry.1 := by
  intro entry hmem
  have hmade : f.IsMade := .read hback
  have hsame : { f with skippedLines := 0 } = f := by rw [← hskipped]
  obtain ⟨hpath, -, hjoined⟩ := hmade.of_mem hmem
  have hplain := isPlainPath_of_comesBack hmade htotal (hsame ▸ hback) entry hmem
  exact ⟨hplain, (isJoined_iff hpath).mp hjoined⟩

/-- Canonical paths were joined of the names that they are cut into, so they come back. -/
theorem ofText_toText_of_isCanonicalPath (hrecords : f.Records f.toList)
    (htotal : f.total < wordLimit 64) (hskipped : f.skippedLines = 0)
    (hcanonical : ∀ entry ∈ f.toList, IsCanonicalPath entry.1) : ofText f.toText = .ok f := by
  have hjoined : ∀ entry ∈ f.toList, IsJoined entry.1 := by
    intro entry hmem
    obtain ⟨hpath, -⟩ := hrecords.of_mem_toList hmem
    exact (isJoined_iff hpath).mpr (hcanonical entry hmem).empty_notMem
  have hback := ofText_toText_of_isJoined hrecords htotal hjoined
    fun entry hmem => (hcanonical entry hmem).toIsPlainPath
  have hsame : { f with skippedLines := 0 } = f := by rw [← hskipped]
  rwa [hsame] at hback

/-! ## Section 3: The round trip -/

/--
**Which profiles come back.** A profile that starts empty and that frames and joined paths are
added to, with counts that together fit in a word, comes back from the text that is written of it,
with the same paths and counts and no line skipped, exactly if none of its paths holds a newline,
starts with a `#`, has a blank at one of its ends, or has an empty name in it.
-/
theorem ofText_toText_eq_iff (additions : List Addition)
    (hfit : totalWeight (additions.map Addition.entry) < wordLimit 64) :
    ∃ f, empty.addAll additions = .ok f ∧
      (ofText f.toText = .ok f ↔ ∀ entry ∈ f.toList, IsCanonicalPath entry.1) := by
  obtain ⟨f, hadd, hrecords, hskipped⟩ := Records.empty.addAll additions hfit
  have htotal : f.total < wordLimit 64 := hrecords.total_eq ▸ hfit
  exact ⟨f, hadd, isCanonicalPath_of_comesBack htotal hskipped,
    ofText_toText_of_isCanonicalPath hrecords.toList htotal hskipped⟩

/-- What is listed after some additions. -/
private def listedAfter (additions : List Addition) : List (String × Nat) :=
  match empty.addAll additions with
  | .error _ => []
  | .ok f => f.toList

private theorem toList_eq_listedAfter {additions : List Addition}
    (h : empty.addAll additions = .ok f) : f.toList = listedAfter additions := by
  rw [listedAfter, h]

/-- A name with blanks in it comes back, and beside a path of one name, the same path behind an
empty name does not. -/
theorem ofText_toText_eq_iff_empty_name :
    (∃ f, empty.addAll [.frames ["main", "", "work here"] 9] = .ok f ∧ ofText f.toText = .ok f) ∧
      ∃ f, empty.addAll [.frames ["a"] 1, .joined ";a" 2] = .ok f ∧ ofText f.toText ≠ .ok f := by
  constructor
  · obtain ⟨f, hadd, hiff⟩ :=
      ofText_toText_eq_iff [.frames ["main", "", "work here"] 9] (by decide)
    refine ⟨f, hadd, hiff.mpr ?_⟩
    have hlist : listedAfter [.frames ["main", "", "work here"] 9] = [("main;work here", 9)] := by
      decide +kernel
    rw [toList_eq_listedAfter hadd, hlist, List.forall_mem_singleton]
    have hplain : IsPlainPath "main;work here" := by
      refine ⟨by decide, by decide, fun c hc => ?_, fun c hc => ?_⟩
      · cases (show some 'm' = some c from hc)
        decide
      · cases (show some 'e' = some c from hc)
        decide
    exact ⟨hplain, by decide⟩
  · obtain ⟨f, hadd, hiff⟩ := ofText_toText_eq_iff [.frames ["a"] 1, .joined ";a" 2] (by decide)
    refine ⟨f, hadd, fun hback => ?_⟩
    have hlist : (";a", 2) ∈ listedAfter [.frames ["a"] 1, .joined ";a" 2] := by decide +kernel
    have hcanonical := hiff.mp hback (";a", 2) (toList_eq_listedAfter hadd ▸ hlist)
    exact absurd hcanonical.empty_notMem (by decide)

end FoldedStacks

end StackProfiler
