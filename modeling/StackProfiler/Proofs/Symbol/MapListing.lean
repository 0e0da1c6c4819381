import StackProfiler.Proofs.Symbol.MapLine

/-!
# Reading a memory map back

The regions that a listing of the mappings of a process shows are read back in order, whatever other
lines stand between them (`MemoryMap.parse_listing`).

- **one line**: `Mapping.describes_line`, and `not_describes_dropFinal` for all other lines;
- **a whole listing**: `allRegions_listing`.
-/

namespace StackProfiler.MemoryMap

/-! ## Section 1: Listings -/

/-- A mapping of a process and how it is listed. -/
structure Mapping where
  region : Region
  /-- The numerals of the three numbers of the region. -/
  start : String
  stop : String
  offset : String
  device : String
  inode : String
  /-- What stands in front of the path. -/
  blanks : String
  /-- The file of the mapping is gone. -/
  isGone : Bool

namespace Mapping

/-- The path with the mark of a file that is gone. -/
def shownPath (m : Mapping) : List Char :=
  if m.isGone then m.region.path.toList ++ deletedMark else m.region.path.toList

def line (m : Mapping) : List Char :=
  m.start.toList ++ '-' :: m.stop.toList ++ ' ' :: m.region.permissions.toList ++
    ' ' :: m.offset.toList ++ ' ' :: m.device.toList ++ ' ' :: m.inode.toList ++
    m.blanks.toList ++ m.shownPath

/-- A mapping whose numbers are written in lowercase digits behind zeros up to a width. -/
def padded (region : Region) (width : Nat) (device inode blanks : String) (isGone : Bool) :
    Mapping where
  region
  start := Text.hexPadded width region.start.toNat
  stop := Text.hexPadded width region.stop.toNat
  offset := Text.hexPadded width region.offset.toNat
  device
  inode
  blanks
  isGone

/-- The numbers are hexadecimal, there is no white space in any other field but the path, and the
path is followed by the mark if it looks as if it were. -/
structure IsListed (m : Mapping) : Prop where
  code : m.region.HoldsCode
  start : Text.IsHexNumeral m.start.toList m.region.start.toNat
  stop : Text.IsHexNumeral m.stop.toList m.region.stop.toNat
  offset : Text.IsHexNumeral m.offset.toList m.region.offset.toNat
  permissions : BlankFree m.region.permissions.toList
  device : BlankFree m.device.toList
  inode : BlankFree m.inode.toList
  blanks_ne_nil : m.blanks.toList ≠ []
  blanks : AllBlank m.blanks.toList
  newline_notMem_blanks : '\n' ∉ m.blanks.toList
  newline_notMem : '\n' ∉ m.region.path.toList
  getLast?_ne : m.region.path.toList.getLast? ≠ some '\r'
  mark : deletedMark <:+ m.region.path.toList → m.isGone = true

end Mapping

/-- What stands in a line of a listing. -/
inductive Entry where
  | mapping (m : Mapping)
  | other (line : List Char)

namespace Entry

def line : Entry → List Char
  | .mapping m => m.line
  | .other line => line

def region? : Entry → Option Region
  | .mapping m => some m.region
  | .other _ => none

/-- Any line may be listed that does not describe a region. -/
def IsListed : Entry → Prop
  | .mapping m => m.IsListed
  | .other line => '\n' ∉ line ∧ ∀ r, ¬Describes line r

end Entry

/-- Some lines, the last of which may lack its end. -/
def listing (entries : List Entry) (isEnded : Bool) : String :=
  String.ofList (['\n'].intercalate (entries.map (·.line)) ++ if isEnded then ['\n'] else [])

/-! ## Section 2: One line -/

theorem isBlank_eq_false_of_isHexDigit (c : Char) :
    Text.IsHexDigit c → Text.isBlank c = false := by
  by_cases hascii : c.toNat < 128
  · revert c
    exact Text.forall_ascii (by decide +kernel)
  · exact fun h => absurd h (Text.not_isHexDigit_of_large (Nat.le_of_not_lt hascii))

/-- No blank stands in a numeral. -/
theorem blankFree_of_isHexNumeral {cs : List Char} {n : Nat} (h : Text.IsHexNumeral cs n) :
    BlankFree cs := by
  intro c hc
  rcases h.eq_plus_or_isHexDigit c hc with rfl | hdigit
  · decide
  · exact isBlank_eq_false_of_isHexDigit c hdigit

theorem deletedMark_ne_nil : deletedMark ≠ [] := by decide

theorem getLast?_deletedMark : deletedMark.getLast? = some ')' := by decide

theorem BlankFree.newline_notMem {cs : List Char} (h : BlankFree cs) : '\n' ∉ cs :=
  fun hmem => absurd (h '\n' hmem) (by decide)

namespace Mapping

variable {m : Mapping}

theorem IsListed.shownAs (h : m.IsListed) : ShownAs m.region.path m.shownPath := by
  unfold shownPath
  split
  case isTrue => exact .marked
  case isFalse hgone => exact .unmarked fun hmark => hgone (h.mark hmark)

/-- **A listed mapping** is what its line describes. -/
theorem IsListed.describes_line (h : m.IsListed) : Describes m.line m.region := by
  -- the first blank in front of the path ends the field before, the others are trimmed
  obtain ⟨blank, blanks, hblanks⟩ := List.exists_cons_of_ne_nil h.blanks_ne_nil
  obtain ⟨hblank, hrest⟩ := List.forall_mem_cons.mp (hblanks ▸ h.blanks)
  have hspace : Text.isBlank ' ' = true := by decide
  have hrange : BlankFree (m.start.toList ++ '-' :: m.stop.toList) := by
    intro c hc
    rcases List.mem_append.mp hc with hc | hc
    · exact blankFree_of_isHexNumeral h.start c hc
    · rcases List.mem_cons.mp hc with rfl | hc
      · decide
      · exact blankFree_of_isHexNumeral h.stop c hc
  have hsplit : SplitsInto m.line
      [m.start.toList ++ '-' :: m.stop.toList, m.region.permissions.toList, m.offset.toList,
        m.device.toList, m.inode.toList] (blanks ++ m.shownPath) := by
    have hfields := SplitsInto.field hrange hspace <| .field h.permissions hspace <|
      .field (blankFree_of_isHexNumeral h.offset) hspace <| .field h.device hspace <|
        .field h.inode hblank (.rest (blanks ++ m.shownPath))
    simpa [line, hblanks] using hfields
  exact .intro hsplit h.start h.stop h.offset hrest h.shownAs h.code

/-- Padded numbers are numerals. -/
theorem isListed_padded {region : Region} {width : Nat} {device inode blanks : String}
    {isGone : Bool} (hcode : region.HoldsCode)
    (hpermissions : BlankFree region.permissions.toList)
    (hdevice : BlankFree device.toList)
    (hinode : BlankFree inode.toList) (hne : blanks.toList ≠ [])
    (hblanks : AllBlank blanks.toList) (hnewlineBlanks : '\n' ∉ blanks.toList)
    (hnewline : '\n' ∉ region.path.toList) (hret : region.path.toList.getLast? ≠ some '\r')
    (hmark : deletedMark <:+ region.path.toList → isGone = true) :
    (padded region width device inode blanks isGone).IsListed where
  code := hcode
  start := Text.isHexNumeral_hexPadded _ _
  stop := Text.isHexNumeral_hexPadded _ _
  offset := Text.isHexNumeral_hexPadded _ _
  permissions := hpermissions
  device := hdevice
  inode := hinode
  blanks_ne_nil := hne
  blanks := hblanks
  newline_notMem_blanks := hnewlineBlanks
  newline_notMem := hnewline
  getLast?_ne := hret
  mark := hmark

theorem IsListed.newline_notMem_line (h : m.IsListed) : '\n' ∉ m.line := by
  have hstart := (blankFree_of_isHexNumeral h.start).newline_notMem
  have hstop := (blankFree_of_isHexNumeral h.stop).newline_notMem
  have hoffset := (blankFree_of_isHexNumeral h.offset).newline_notMem
  have hpermissions := h.permissions.newline_notMem
  have hdevice := h.device.newline_notMem
  have hinode := h.inode.newline_notMem
  have hmark : '\n' ∉ deletedMark := by decide
  have hpath : '\n' ∉ m.shownPath := by
    unfold shownPath
    split <;> simp [h.newline_notMem, hmark]
  simp [line, hstart, hstop, hoffset, hpermissions, hdevice, hinode, h.newline_notMem_blanks, hpath]

/-- The end of a listed line is kept. -/
theorem IsListed.dropFinal_line (h : m.IsListed) : Text.dropFinal '\r' m.line = m.line := by
  have hne : m.region.path.toList ≠ [] := by
    intro hnil
    have habsolute := h.code.absolute
    rw [hnil] at habsolute
    contradiction
  -- the line ends as the path does, or with the mark
  have hshown : m.shownPath ≠ [] ∧ m.shownPath.getLast? ≠ some '\r' := by
    unfold shownPath
    split
    · rw [List.getLast?_append_of_ne_nil _ deletedMark_ne_nil, getLast?_deletedMark]
      exact ⟨List.append_ne_nil_of_left_ne_nil hne _, by decide⟩
    · exact ⟨hne, h.getLast?_ne⟩
  have hlast : m.line.getLast? ≠ some '\r' := by
    rw [line, List.getLast?_append_of_ne_nil _ hshown.1]
    exact hshown.2
  rw [Text.dropFinal, if_neg (by simpa using hlast)]

end Mapping

theorem SplitsInto.append {line rest : List Char} {fs : List (List Char)}
    (h : SplitsInto line fs rest) (tail : List Char) :
    SplitsInto (line ++ tail) fs (rest ++ tail) := by
  induction h with
  | rest line => exact .rest _
  | field hfield hblank _ ih =>
    rw [List.append_assoc, List.cons_append]
    exact .field hfield hblank ih

theorem not_deletedMark_suffix_append_ret (path : List Char) :
    ¬deletedMark <:+ path ++ ['\r'] := by
  rintro ⟨front, hfront⟩
  have hlast := congrArg List.getLast? hfront
  rw [List.getLast?_append_of_ne_nil _ deletedMark_ne_nil, getLast?_deletedMark,
    List.getLast?_append_of_ne_nil _ (List.cons_ne_nil _ _)] at hlast
  exact absurd (Option.some_inj.mp hlast) (by decide)

/-- A line with a region has one also with a carriage return behind it, which joins the path. -/
theorem Describes.append_ret {line : List Char} {r : Region} (h : Describes line r) :
    ∃ r', Describes (line ++ ['\r']) r' := by
  obtain @⟨start, stop, offset, device, inode, blanks, path, hline, hstart, hstop, hoffset,
    hblanks, hpath, hcode⟩ := h
  have habsolute := hpath.head?_eq_slash_iff.mpr hcode.absolute
  have happended := hline.append ['\r']
  rw [List.append_assoc] at happended
  refine ⟨{ r with path := String.ofList (path ++ ['\r']) }, .intro happended hstart hstop
    hoffset hblanks ?_ ⟨hcode.range, hcode.executable, ?_⟩⟩
  · exact shownAs_ofList (not_deletedMark_suffix_append_ret path)
  · rw [String.toList_ofList, List.head?_append, habsolute]
    rfl

/-- A line without a region has none either when it is stripped. -/
theorem not_describes_dropFinal {line : List Char} (h : ∀ r, ¬Describes line r) (r : Region) :
    ¬Describes (Text.dropFinal '\r' line) r := by
  unfold Text.dropFinal
  split
  case isTrue hlast =>
    intro hdescribes
    obtain ⟨r', hr'⟩ := hdescribes.append_ret
    rw [List.dropLast_append_getLast? _ (beq_iff_eq.mp hlast)] at hr'
    exact h r' hr'
  case isFalse => exact h r

namespace Entry

variable {e : Entry}

theorem IsListed.newline_notMem (h : e.IsListed) : '\n' ∉ e.line := by
  cases e with
  | mapping m => exact Mapping.IsListed.newline_notMem_line h
  | other line => exact h.1

theorem parseLine?_eq_none_iff {line : List Char} :
    parseLine? line = none ↔ ∀ r, ¬Describes line r := by
  simp only [Option.eq_none_iff_forall_ne_some, ne_eq, parseLine?_eq_some_iff]

/-- **A line of a listing** is read as what is listed in it, with or without a stripped end. -/
theorem IsListed.parseLine? (h : e.IsListed) :
    MemoryMap.parseLine? e.line = e.region? ∧
      MemoryMap.parseLine? (Text.dropFinal '\r' e.line) = e.region? := by
  cases e with
  | mapping m =>
    have hread := parseLine?_of_describes (Mapping.IsListed.describes_line h)
    exact ⟨hread, by rwa [line, Mapping.IsListed.dropFinal_line h]⟩
  | other line =>
    exact ⟨parseLine?_eq_none_iff.mpr h.2,
      parseLine?_eq_none_iff.mpr (not_describes_dropFinal h.2)⟩

end Entry

/-! ## Section 3: Whole listings -/

/-- The pieces of a listing are its lines, and perhaps empty ones. -/
theorem exists_pieces_listing {entries : List Entry} (h : ∀ e ∈ entries, e.IsListed)
    (isEnded : Bool) :
    ∃ rest : List (List Char), (∀ p ∈ rest, p = []) ∧
      Text.pieces '\n' (listing entries isEnded).toList = entries.map (·.line) ++ rest := by
  have hnewline : ∀ line ∈ entries.map (·.line), '\n' ∉ line := by
    intro line hline
    obtain ⟨e, he, rfl⟩ := List.mem_map.mp hline
    exact (h e he).newline_notMem
  have hjoined : ∃ rest : List (List Char), (∀ p ∈ rest, p = []) ∧
      Text.pieces '\n' (['\n'].intercalate (entries.map (·.line))) =
        entries.map (·.line) ++ rest := by
    -- cutting nothing gives one empty piece
    by_cases hnil : entries = []
    · subst hnil
      exact ⟨[[]], by simp, rfl⟩
    · have hne : entries.map (·.line) ≠ [] := by simpa using hnil
      exact ⟨[], by simp, by rw [Text.pieces_intercalate hnewline hne, List.append_nil]⟩
  obtain ⟨rest, hrest, hpieces⟩ := hjoined
  rw [listing, String.toList_ofList]
  cases isEnded with
  | false => exact ⟨rest, hrest, by simpa using hpieces⟩
  | true =>
    -- behind the end of the last line there is an empty piece
    refine ⟨rest ++ [[]], by simpa [or_imp, forall_and] using hrest, ?_⟩
    rw [if_pos rfl, Text.pieces_append_cons, hpieces, List.append_assoc]
    rfl

/-- **The regions of a listing** are those of its mappings. -/
theorem allRegions_listing {entries : List Entry} (h : ∀ e ∈ entries, e.IsListed)
    (isEnded : Bool) : allRegions (listing entries isEnded) = entries.filterMap (·.region?) := by
  obtain ⟨rest, hrest, hpieces⟩ := exists_pieces_listing h isEnded
  have hret : ∀ p ∈ Text.pieces '\n' (listing entries isEnded).toList,
      parseLine? (Text.dropFinal '\r' p) = parseLine? p := by
    intro p hp
    rcases List.mem_append.mp (hpieces ▸ hp) with hp | hp
    · obtain ⟨e, he, rfl⟩ := List.mem_map.mp hp
      obtain ⟨hread, hstripped⟩ := (h e he).parseLine?
      rw [hread, hstripped]
    · rw [hrest p hp]
      rfl
  have hnothing : rest.filterMap parseLine? = [] :=
    List.filterMap_eq_nil_iff.mpr fun p hp => hrest p hp ▸ rfl
  rw [allRegions, Text.filterMap_lines rfl hret, hpieces, List.filterMap_append, hnothing,
    List.append_nil, List.filterMap_map]
  exact List.filterMap_congr fun e he => (h e he).parseLine?.1

/-- What is read holds code, whatever was listed. -/
theorem holdsCode_of_mem_parse {text : String} {r : Region} (h : r ∈ parse text) : r.HoldsCode := by
  obtain ⟨line, -, hline⟩ := List.mem_filterMap.mp (List.mem_of_mem_take h)
  obtain ⟨-, -, -, -, -, -, hcode⟩ := describes_of_parseLine? hline
  exact hcode

/-- **The mappings of a listing are read back**: the first 4096 regions, in order, with their
numbers, permissions and paths, from a listing with any other lines in between that describe no
region. Of any text at all no more than 4096 regions are read, and each of them is not empty, may be
executed and has an absolute path. -/
theorem parse_listing :
    (∀ (entries : List Entry) (isEnded : Bool), (∀ e ∈ entries, e.IsListed) →
      parse (listing entries isEnded) = (entries.filterMap (·.region?)).take 4096) ∧
    ∀ text, (parse text).length ≤ 4096 ∧ ∀ r ∈ parse text, r.HoldsCode := by
  refine ⟨fun entries isEnded h => ?_, fun text => ⟨List.length_take_le _ _, fun r hr => ?_⟩⟩
  · rw [parse, allRegions_listing h]
    rfl
  · exact holdsCode_of_mem_parse hr

private def toolMapping : Mapping :=
  .padded
    { start := 0x1000, stop := 0x5000, offset := 0x20, permissions := "r-xp", path := "/bin/tool" }
    4 "8:1" "7" "   " false

private def goneMapping : Mapping :=
  .padded
    { start := 0x6000, stop := 0x7000, offset := 0, permissions := "r-xp", path := "/tmp/a  b " }
    4 "8:1" "9" " " true

private def mixedEntries : List Entry :=
  [.other "garbage".toList, .mapping toolMapping, .other "5000-6000 rw-p 0 0:0 0 [heap]".toList,
   .mapping goneMapping, .other "9000-8000 r-xp 0 8:1 7 /bin/x".toList]

private theorem isListed_mixedEntries : ∀ e ∈ mixedEntries, e.IsListed := by
  have hother : ∀ line : List Char, '\n' ∉ line ∧ parseLine? line = none →
      (Entry.other line).IsListed := fun line h => ⟨h.1, Entry.parseLine?_eq_none_iff.mp h.2⟩
  have htool : toolMapping.IsListed := by
    refine Mapping.isListed_padded ⟨?_, ?_, ?_⟩ ?_ ?_ ?_ ?_ ?_ ?_ ?_ ?_ ?_ <;> decide +kernel
  have hgone : goneMapping.IsListed := by
    refine Mapping.isListed_padded ⟨?_, ?_, ?_⟩ ?_ ?_ ?_ ?_ ?_ ?_ ?_ ?_ ?_ <;> decide +kernel
  intro e he
  simp only [mixedEntries, List.mem_cons, List.not_mem_nil, or_false] at he
  rcases he with rfl | rfl | rfl | rfl | rfl
  · exact hother _ (by decide +kernel)
  · exact htool
  · exact hother _ (by decide +kernel)
  · exact hgone
  · exact hother _ (by decide +kernel)

/-- Two mappings between three other lines; the path of the second has spaces in it and at its end,
and its file is gone. -/
theorem parse_listing_mixed :
    parse "garbage
1000-5000 r-xp 0020 8:1 7   /bin/tool
5000-6000 rw-p 0 0:0 0 [heap]
6000-7000 r-xp 0000 8:1 9 /tmp/a  b  (deleted)
9000-8000 r-xp 0 8:1 7 /bin/x
" = [toolMapping.region, goneMapping.region] := by
  have htext : listing mixedEntries true = "garbage
1000-5000 r-xp 0020 8:1 7   /bin/tool
5000-6000 rw-p 0 0:0 0 [heap]
6000-7000 r-xp 0000 8:1 9 /tmp/a  b  (deleted)
9000-8000 r-xp 0 8:1 7 /bin/x
" := by
    decide +kernel
  rw [← htext, parse_listing.1 mixedEntries true isListed_mixedEntries]
  rfl

end StackProfiler.MemoryMap
