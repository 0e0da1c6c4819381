import StackProfiler.Proofs.FoldedStacks.Reading
import StackProfiler.Proofs.Text.Utf8

/-!
# Folded text, line by line

The lines of a text are read on their own: their order does not matter, a text may be read in two
parts, and it makes no difference whether its characters or its bytes are read, except that bytes
need not be valid UTF-8.

- **parts and orders**: `FitWords.append`, `ofText_eq_of_perm`;
- **lines of bytes**: `addByteLines_eq`, reading stops at the first invalid one;
- **main statement**: `ofText_by_lines`.
-/

namespace StackProfiler

/-! ## Section 1: Lines that fit -/

/-- The lines of a text. -/
def linesOf (text : String) : List (List Char) :=
  Text.lines '\n' '\r' text.toList

/-- The counts of every path fit in a word. -/
def FitWords (lines : List (List Char)) : Prop :=
  ∀ path, weightOf path (countedEntries lines) < wordLimit 64

theorem skippedIn_append (front back : List (List Char)) :
    skippedIn (front ++ back) = skippedIn front + skippedIn back :=
  List.countP_append

/-- A text that goes on behind the end of a line has the lines of both parts. -/
theorem linesOf_append (front back : String) :
    linesOf (front ++ "\n" ++ back) = linesOf (front ++ "\n") ++ linesOf back := by
  have hnewline : "\n".toList = ['\n'] := rfl
  rw [linesOf, linesOf, String.toList_append, String.toList_append, hnewline, List.append_assoc]
  exact Text.lines_append '\n' '\r' front.toList back.toList

theorem FitWords.append {front back : List (List Char)} (h : FitWords (front ++ back)) :
    FitWords front ∧ FitWords back := by
  have hsum : ∀ path, weightOf path (countedEntries front) + weightOf path (countedEntries back) <
      wordLimit 64 := by
    intro path
    rw [← weightOf_append, ← countedEntries_append]
    exact h path
  exact ⟨fun path => Nat.lt_of_le_of_lt (Nat.le_add_right _ _) (hsum path),
    fun path => Nat.lt_of_le_of_lt (Nat.le_add_left _ _) (hsum path)⟩

/-- A path through a name that is not empty is not empty. -/
theorem pathOfFrames_ne_empty {frames : List String} (h : ∃ name ∈ frames, name ≠ "") :
    pathOfFrames frames ≠ "" := by
  obtain ⟨name, hname, hne⟩ := h
  have hkept : name ∈ frames.filter (!·.isEmpty) :=
    List.mem_filter.mpr ⟨hname, by simpa using hne⟩
  -- the name is a part of the path
  have hpart : name.toList.Sublist (pathOfFrames frames).toList := by
    rw [pathOfFrames, toList_intercalate_separator]
    have hsingle := List.singleton_sublist.mpr (List.mem_map_of_mem (f := String.toList) hkept)
    have hjoined : ([frameSeparator].intercalate [name.toList]).Sublist _ :=
      Text.intercalate_sublist hsingle
    simpa using hjoined
  intro hempty
  rw [hempty, String.toList_empty, List.sublist_nil, String.toList_eq_nil_iff] at hpart
  exact hne hpart

/-- No line counts the empty path. -/
theorem weightOf_empty_countedEntries (lines : List (List Char)) :
    weightOf "" (countedEntries lines) = 0 := by
  have hnone : (countedEntries lines).filter (·.1 == "") = [] := by
    rw [List.filter_eq_nil_iff]
    rintro ⟨path, count⟩ hmem hempty
    obtain ⟨line, -, cs, -, hread, rfl⟩ := exists_of_mem_countedEntries hmem
    obtain ⟨-, hobserved⟩ := FoldedLine.read_eq_counted_iff.mp hread
    exact pathOfFrames_ne_empty hobserved.exists_name (beq_iff_eq.mp hempty)
  rw [weightOf, hnone]
  rfl

theorem fits_of_totalWeight_lt {lines : List (List Char)}
    (h : totalWeight (countedEntries lines) < wordLimit 64) : FitWords lines := by
  intro path
  by_cases hpath : path = ""
  · subst hpath
    rw [weightOf_empty_countedEntries]
    exact Nat.two_pow_pos 64
  · exact Nat.lt_of_le_of_lt (weightOf_le_totalWeight hpath _) h

namespace FoldedStacks

/-! ## Section 2: Texts -/

variable {text : String} {f : FoldedStacks}

theorem exists_ofText_of_fits (h : FitWords (linesOf text)) : ∃ f, ofText text = .ok f :=
  exists_ofText fun path _ => h path

/-- The count of a path is the sum of what the lines count for it. -/
theorem countOf_of_ofText (h : ofText text = .ok f) (path : String) :
    f.countOf path = weightOf path (countedEntries (linesOf text)) := by
  have hrecords := (reads_of_ofText h).records
  by_cases hpath : path = ""
  · subst hpath
    rw [hrecords.countOf_empty, weightOf_empty_countedEntries]
  · exact hrecords.countOf_eq hpath

/-- **The order of the lines** does not matter. -/
theorem ofText_eq_of_perm {text' : String} (hfits : FitWords (linesOf text))
    (hperm : (linesOf text').Perm (linesOf text)) (h : ofText text = .ok f) :
    ofText text' = .ok f := by
  have hentries : (countedEntries (linesOf text')).Perm (countedEntries (linesOf text)) :=
    hperm.filterMap _
  have hfits' : FitWords (linesOf text') := by
    intro path
    rw [weightOf_eq_of_perm path hentries]
    exact hfits path
  obtain ⟨f', h'⟩ := exists_ofText_of_fits hfits'
  have hreads := reads_of_ofText h
  have hreads' := reads_of_ofText h'
  have hskipped : f'.skippedLines = f.skippedLines := by
    rw [hreads'.skippedLines_eq, hreads.skippedLines_eq]
    exact hperm.countP_eq _
  rw [h', hreads'.records.eq_of_perm hreads.records hentries hskipped]

/-! ## Section 3: Bytes -/

/-- The lines of a sequence of bytes. -/
def byteLinesOf (bytes : ByteArray) : List (List UInt8) :=
  Text.lines 0x0a 0x0d bytes.data.toList

/-- A line of bytes that is valid UTF-8. -/
def IsValidLine (line : List UInt8) : Prop :=
  ByteArray.IsValidUTF8 ⟨line.toArray⟩

instance (line : List UInt8) : Decidable (IsValidLine line) :=
  inferInstanceAs (Decidable (ByteArray.IsValidUTF8 _))

/-- The characters of lines of bytes, up to the first line that is not valid. -/
def validLines : List (List UInt8) → List (List Char)
  | [] => []
  | line :: rest =>
    match String.fromUTF8? ⟨line.toArray⟩ with
    | none => []
    | some text => text.toList :: validLines rest

theorem fromUTF8?_eq_none_iff {line : List UInt8} :
    String.fromUTF8? ⟨line.toArray⟩ = none ↔ ¬IsValidLine line := by
  rw [String.fromUTF8?, IsValidLine]
  split <;> simp_all

/-- **Lines of bytes** are read up to the first one that is not valid, if there is one. -/
theorem addByteLines_eq (f : FoldedStacks) (lines : List (List UInt8)) :
    f.addByteLines lines = ((validLines lines).foldlM addLine f).map fun g =>
      if ∀ line ∈ lines, IsValidLine line then .ok g else .error (.read .invalidUtf8) := by
  induction lines generalizing f with
  | nil => simp [addByteLines, validLines, pure, Except.pure, Except.map]
  | cons line lines ih =>
    rw [addByteLines, validLines]
    cases hdecoded : String.fromUTF8? ⟨line.toArray⟩ with
    | none =>
      have hinvalid := fromUTF8?_eq_none_iff.mp hdecoded
      simp [hinvalid, pure, Except.pure, Except.map]
    | some text =>
      have hvalid : IsValidLine line := by
        by_contra hinvalid
        rw [fromUTF8?_eq_none_iff.mpr hinvalid] at hdecoded
        contradiction
      cases hadd : f.addLine text.toList with
      | error fault => simp [hadd, bind, Except.bind, Except.map]
      | ok f₁ => simp [hadd, hvalid, bind, Except.bind, ih]

theorem validLines_map_utf8Bytes (lines : List (List Char)) :
    validLines (lines.map Text.utf8Bytes) = lines := by
  induction lines with
  | nil => rfl
  | cons line lines ih =>
    rw [List.map_cons, validLines, Text.fromUTF8?_utf8Bytes]
    simp [ih]

theorem isValidLine_utf8Bytes (cs : List Char) : IsValidLine (Text.utf8Bytes cs) :=
  ⟨cs, (Text.utf8Encode_eq cs).symm⟩

/-- **The bytes of a text** are read as the text is. -/
theorem ofBytes_toUTF8 (text : String) : ofBytes text.toUTF8 = (ofText text).map .ok := by
  have hvalid : ∀ line ∈ (linesOf text).map Text.utf8Bytes, IsValidLine line := by
    intro line hline
    obtain ⟨cs, -, rfl⟩ := List.mem_map.mp hline
    exact isValidLine_utf8Bytes cs
  have hlines : Text.lines 0x0a 0x0d text.toUTF8.data.toList =
      (linesOf text).map Text.utf8Bytes := Text.lines_toUTF8 text
  simp only [ofBytes, hlines, addByteLines_eq, validLines_map_utf8Bytes, if_pos hvalid]
  rfl

/-- **Bytes cannot be read** exactly if some line is not valid, provided that what was read before
it fits. -/
theorem ofBytes_eq_error_iff {bytes : ByteArray}
    (hfits : FitWords (validLines (byteLinesOf bytes))) :
    (∃ source, ofBytes bytes = .ok (.error (.read source))) ↔
      ∃ line ∈ byteLinesOf bytes, ¬IsValidLine line := by
  have hread : ∃ g, (validLines (byteLinesOf bytes)).foldlM addLine empty = .ok g :=
    Reads.empty.exists_foldlM fun path _ => hfits path
  obtain ⟨g, hg⟩ := hread
  have hread : ofBytes bytes = _ := addByteLines_eq empty (byteLinesOf bytes)
  rw [hread, hg]
  by_cases hvalid : ∀ line ∈ byteLinesOf bytes, IsValidLine line
  · simpa [Except.map, if_pos hvalid] using hvalid
  · simpa [Except.map, if_neg hvalid] using hvalid

/-! ## Section 4: Reading by lines -/

/--
**Folded text is read line by line.** A line is read by the rules for lines. A text in which the
counts of every path fit in a word can be read; the count of a path is the sum of what the lines
count for it, and the skipped lines are those that are malformed. So lines in another order give the
same profile, and a text in two parts, the first of which ends a line, gives the sum of two
profiles. The bytes of a text are read as the text is, and bytes in general cannot be read exactly
if some line is not valid UTF-8.
-/
theorem ofText_by_lines :
    (∀ line answer, FoldedLine.read line = answer ↔ FoldedLine.Says line answer) ∧
    (∀ text, FitWords (linesOf text) → ∃ f, ofText text = .ok f ∧
      (∀ path, f.countOf path = weightOf path (countedEntries (linesOf text))) ∧
      f.skippedLines = skippedIn (linesOf text) ∧
      (∀ text', (linesOf text').Perm (linesOf text) → ofText text' = .ok f) ∧
      ∀ front back, text = front ++ "\n" ++ back →
        ∃ g h, ofText (front ++ "\n") = .ok g ∧ ofText back = .ok h ∧
          (∀ path, f.countOf path = g.countOf path + h.countOf path) ∧
          f.skippedLines = g.skippedLines + h.skippedLines) ∧
    (∀ text, ofBytes text.toUTF8 = (ofText text).map .ok) ∧
    ∀ bytes, FitWords (validLines (byteLinesOf bytes)) →
      ((∃ source, ofBytes bytes = .ok (.error (.read source))) ↔
        ∃ line ∈ byteLinesOf bytes, ¬IsValidLine line) := by
  refine ⟨fun line answer => FoldedLine.read_eq_iff, fun text hfits => ?_, ofBytes_toUTF8,
    fun bytes hfits => ofBytes_eq_error_iff hfits⟩
  obtain ⟨f, hf⟩ := exists_ofText_of_fits hfits
  refine ⟨f, hf, countOf_of_ofText hf, (reads_of_ofText hf).skippedLines_eq,
    fun text' hperm => ofText_eq_of_perm hfits hperm hf, ?_⟩
  rintro front back rfl
  have hskipped := (reads_of_ofText hf).skippedLines_eq
  have hcount := countOf_of_ofText hf
  rw [← linesOf, linesOf_append] at hskipped
  rw [linesOf_append] at hfits hcount
  obtain ⟨hfront, hback⟩ := hfits.append
  obtain ⟨g, hg⟩ := exists_ofText_of_fits hfront
  obtain ⟨h, hh⟩ := exists_ofText_of_fits hback
  refine ⟨g, h, hg, hh, fun path => ?_, ?_⟩
  · rw [hcount, countedEntries_append, weightOf_append, countOf_of_ofText hg, countOf_of_ofText hh]
  · rw [hskipped, skippedIn_append, (reads_of_ofText hg).skippedLines_eq,
      (reads_of_ofText hh).skippedLines_eq]
    rfl

/-- Two counted lines of one path, a comment, a line without a name and one without a count. -/
def demoText : String :=
  "a;b 2\r\n#a 5\n;; 7\n a;;b +03\nx 0"

/-- The lines of a text, of which two are counted, and of bytes, of which the second is invalid. -/
theorem ofText_by_lines_mixed :
    (∃ f, ofText demoText = .ok f ∧ f.countOf "a;b" = 5 ∧ f.skippedLines = 2 ∧
      ofBytes demoText.toUTF8 = .ok (.ok f)) ∧
    ∃ source, ofBytes ⟨#[0x61, 0x20, 0x31, 0x0a, 0xff]⟩ = .ok (.error (.read source)) := by
  obtain ⟨-, htexts, hbytes, hinvalid⟩ := ofText_by_lines
  constructor
  · have hfits : FitWords (linesOf demoText) := fits_of_totalWeight_lt (by decide +kernel)
    obtain ⟨f, hf, hcount, hskipped, -⟩ := htexts demoText hfits
    refine ⟨f, hf, (hcount "a;b").trans (by decide +kernel), hskipped.trans (by decide +kernel), ?_⟩
    rw [hbytes, hf]
    rfl
  · refine (hinvalid _ (fits_of_totalWeight_lt (by decide +kernel))).mpr ⟨[0xff], by decide, ?_⟩
    decide +kernel

end FoldedStacks

end StackProfiler
