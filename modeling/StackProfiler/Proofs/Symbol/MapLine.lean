import Mathlib.Data.Option.Basic
import StackProfiler.Proofs.Text.Hexadecimal
import StackProfiler.Proofs.Text.Pieces
import StackProfiler.Symbol.MemoryMap

/-!
# The grammar of a line of a memory map

What a line of a memory map says, as rules (`MemoryMap.Describes`), which do not say in which order
its fields are cut off and tested. Reading a line follows them to the letter
(`MemoryMap.parseLine?_eq_some_iff`).
-/

namespace StackProfiler

/-! ## Section 1: The rules -/

/-- A region that is not empty, may be executed and holds a part of a file. -/
structure Region.HoldsCode (r : Region) : Prop where
  range : r.start < r.stop
  /-- The third byte of the permissions stands for execution. -/
  executable : r.permissions.toUTF8.data[2]? = some 'x'.toUInt8
  absolute : r.path.toList.head? = some '/'

namespace MemoryMap

def BlankFree (cs : List Char) : Prop :=
  ∀ c ∈ cs, Text.isBlank c = false

instance (cs : List Char) : Decidable (BlankFree cs) :=
  List.decidableBAll (Text.isBlank · = false) cs

def AllBlank (cs : List Char) : Prop :=
  ∀ c ∈ cs, Text.isBlank c = true

instance (cs : List Char) : Decidable (AllBlank cs) :=
  List.decidableBAll (Text.isBlank · = true) cs

/-- A line is some fields, each without blanks and ended by one blank, and a rest. -/
inductive SplitsInto : List Char → List (List Char) → List Char → Prop where
  | rest (line : List Char) : SplitsInto line [] line
  | field {field line rest : List Char} {fields : List (List Char)} {blank : Char}
      (hfield : BlankFree field) (hblank : Text.isBlank blank = true)
      (h : SplitsInto line fields rest) :
      SplitsInto (field ++ blank :: line) (field :: fields) rest

/-- The path of a file in the listing, which has a mark behind it if the file is gone. -/
inductive ShownAs (path : String) : List Char → Prop where
  | unmarked (h : ¬deletedMark <:+ path.toList) : ShownAs path path.toList
  | marked : ShownAs path (path.toList ++ deletedMark)

/-- A line lists a region: a range, permissions, an offset, two more fields, and behind any number
of blanks the path. -/
inductive Describes (line : List Char) (r : Region) : Prop where
  | intro {start stop offset device inode blanks path : List Char}
      (hline : SplitsInto line
        [start ++ '-' :: stop, r.permissions.toList, offset, device, inode] (blanks ++ path))
      (hstart : Text.IsHexNumeral start r.start.toNat)
      (hstop : Text.IsHexNumeral stop r.stop.toNat)
      (hoffset : Text.IsHexNumeral offset r.offset.toNat)
      (hblanks : AllBlank blanks) (hpath : ShownAs r.path path) (hcode : r.HoldsCode)

/-! ## Section 2: Fields -/

theorem fields_of_splitsInto {line rest : List Char} {fs : List (List Char)}
    (h : SplitsInto line fs rest) : fields (fs.length + 1) line = fs ++ [rest] := by
  induction h with
  | rest line => rfl
  | @field field line rest fs blank hfield hblank _ ih =>
    -- the field reaches to the first blank, and what follows is cut in the same way
    have hkept : ∀ c ∈ field, (!Text.isBlank c) = true := by simpa [BlankFree] using hfield
    rw [List.length_cons, fields, List.dropWhile_append_of_pos hkept,
      List.takeWhile_append_of_pos hkept]
    simp [hblank, ih]

theorem splitsInto_of_fields {line rest : List Char} {fs : List (List Char)}
    (h : fields (fs.length + 1) line = fs ++ [rest]) : SplitsInto line fs rest := by
  induction fs generalizing line with
  | nil =>
    cases h
    exact .rest _
  | cons first fs ih =>
    rw [List.length_cons, fields] at h
    split at h
    case h_1 => simp at h
    case h_2 blank tail htail =>
      obtain ⟨rfl, hrest⟩ := List.cons.inj h
      have hblank := List.head_dropWhile_not (!Text.isBlank ·) (l := line) (by simp [htail])
      have hline := List.takeWhile_append_dropWhile (p := (!Text.isBlank ·)) (l := line)
      have hfield : BlankFree (line.takeWhile (!Text.isBlank ·)) := by
        intro c hc
        simpa using List.mem_takeWhile_imp hc
      have hsplit := SplitsInto.field hfield (by simpa [htail] using hblank) (ih hrest)
      rwa [← htail, hline] at hsplit

/-- **The fields** of a line are those that its blanks set apart. -/
theorem fields_eq_iff {line rest : List Char} {fs : List (List Char)} :
    fields (fs.length + 1) line = fs ++ [rest] ↔ SplitsInto line fs rest :=
  ⟨splitsInto_of_fields, fields_of_splitsInto⟩

/-! ## Section 3: Reading by the rules -/

theorem word?_eq_some_iff {cs : List Char} {w : UInt64} :
    word? cs = some w ↔ Text.IsHexNumeral cs w.toNat := by
  rw [word?, Option.map_eq_some_iff]
  constructor
  · rintro ⟨n, hread, rfl⟩
    obtain ⟨hnumeral, hlt⟩ := Text.unsigned?_sixteen_eq_some_iff.mp hread
    rwa [UInt64.toNat_ofNat_of_lt' hlt]
  · intro hnumeral
    exact ⟨w.toNat, Text.unsigned?_sixteen_eq_some_iff.mpr ⟨hnumeral, w.toNat_lt⟩,
      UInt64.ofNat_toNat⟩

theorem shownAs_ofList {path : List Char} (h : ¬deletedMark <:+ path) :
    ShownAs (String.ofList path) path := by
  obtain ⟨name, rfl⟩ : ∃ name : String, name.toList = path :=
    ⟨String.ofList path, String.toList_ofList⟩
  rw [String.ofList_toList]
  exact .unmarked h

/-- A path is shown by what it is read from. -/
theorem shownAs_iff {path : List Char} {name : String} :
    ShownAs name path ↔ String.ofList (withoutMark path) = name := by
  unfold withoutMark
  constructor
  · rintro (hmark | -)
    · simp [hmark]
    · simp
  · rintro rfl
    split
    case isTrue hmark =>
      obtain ⟨kept, rfl⟩ := List.isSuffixOf_iff_suffix.mp hmark
      obtain ⟨name, rfl⟩ : ∃ name : String, name.toList = kept :=
        ⟨String.ofList kept, String.toList_ofList⟩
      simpa using ShownAs.marked
    case isFalse hmark => exact shownAs_ofList (List.isSuffixOf_iff_suffix.not.mp hmark)

/-- What the fields of a line have to be. -/
theorem regionOf?_eq_some_iff {range permissions offset rest : List Char} {r : Region} :
    regionOf? range permissions offset rest = some r ↔
      isExecutable (String.ofList permissions) = true ∧
      (Text.trimStart rest).head? = some '/' ∧
      (∃ start stop, Text.cutFirst? '-' range = some (start, stop) ∧
        word? start = some r.start ∧ word? stop = some r.stop) ∧
      word? offset = some r.offset ∧ r.start < r.stop ∧
      String.ofList permissions = r.permissions ∧
      String.ofList (withoutMark (Text.trimStart rest)) = r.path := by
  simp only [regionOf?, Option.bind_eq_bind, Option.bind_eq_some_iff, Option.guard_eq_some',
    Option.pure_def, beq_iff_eq, Option.some_inj]
  constructor
  · rintro ⟨-, hexecutable, -, habsolute, ⟨start, stop⟩, hcut, _, hstart, _, hstop, _, hoffset, -,
      hrange, rfl⟩
    exact ⟨hexecutable, habsolute, ⟨start, stop, hcut, hstart, hstop⟩, hoffset, hrange, rfl, rfl⟩
  · rintro ⟨hexecutable, habsolute, ⟨start, stop, hcut, hstart, hstop⟩, hoffset, hrange,
      hpermissions, hpath⟩
    refine ⟨(), hexecutable, (), habsolute, (start, stop), hcut, _, hstart, _, hstop, _, hoffset,
      (), hrange, ?_⟩
    rw [hpermissions, hpath]

/-- No hyphen stands in a numeral. -/
theorem hyphen_notMem {cs : List Char} {n : Nat} (h : Text.IsHexNumeral cs n) : '-' ∉ cs :=
  fun hmem => absurd (h.eq_plus_or_isHexDigit '-' hmem) (by decide)

/-- A path is absolute as it is shown exactly if it is absolute. -/
theorem ShownAs.head?_eq_slash_iff {path : String} {shown : List Char} (h : ShownAs path shown) :
    shown.head? = some '/' ↔ path.toList.head? = some '/' := by
  cases h with
  | unmarked => rfl
  | marked =>
    -- an empty path would start with the space of the mark
    cases hpath : path.toList with
    | nil => decide
    | cons c cs => rfl

/-- The blanks in front of an absolute path are trimmed. -/
theorem trimStart_append_of_absolute {blanks path : List Char}
    (hblanks : AllBlank blanks) (habsolute : path.head? = some '/') :
    Text.trimStart (blanks ++ path) = path := by
  rw [Text.trimStart, List.dropWhile_append_of_pos hblanks]
  refine Text.trimStart_eq_self_iff.mpr fun c hc => ?_
  obtain rfl : '/' = c := Option.some_inj.mp (habsolute.symm.trans hc)
  decide

theorem describes_of_parseLine? {line : List Char} {r : Region} (h : parseLine? line = some r) :
    Describes line r := by
  unfold parseLine? at h
  split at h
  case h_1 range permissions offset device inode rest hfields =>
    obtain ⟨hexecutable, habsolute, ⟨start, stop, hcut, hstart, hstop⟩, hoffset, hrange,
      hpermissions, hpath⟩ := regionOf?_eq_some_iff.mp h
    have hline : SplitsInto line [range, permissions, offset, device, inode] rest :=
      fields_eq_iff.mp hfields
    have hlist : r.permissions.toList = permissions := by rw [← hpermissions, String.toList_ofList]
    -- what is trimmed off in front of the path are its blanks
    rw [Text.eq_append_of_cutFirst? hcut, ← hlist,
      ← List.takeWhile_append_dropWhile (p := Text.isBlank) (l := rest)] at hline
    have hshown := shownAs_iff.mpr hpath
    have hcode : r.HoldsCode :=
      { range := hrange
        executable := by rw [← hpermissions]; exact beq_iff_eq.mp hexecutable
        absolute := hshown.head?_eq_slash_iff.mp habsolute }
    exact .intro hline (word?_eq_some_iff.mp hstart) (word?_eq_some_iff.mp hstop)
      (word?_eq_some_iff.mp hoffset) (fun _ hc => List.mem_takeWhile_imp hc) hshown hcode
  case h_2 => contradiction

theorem parseLine?_of_describes {line : List Char} {r : Region} (h : Describes line r) :
    parseLine? line = some r := by
  obtain @⟨start, stop, offset, device, inode, blanks, path, hline, hstart, hstop, hoffset,
    hblanks, hpath, hcode⟩ := h
  have habsolute := hpath.head?_eq_slash_iff.mpr hcode.absolute
  have hfields : fields 6 line = _ := fields_eq_iff.mpr hline
  simp only [parseLine?, hfields, List.cons_append, List.nil_append]
  rw [regionOf?_eq_some_iff, trimStart_append_of_absolute hblanks habsolute, String.ofList_toList]
  exact ⟨beq_iff_eq.mpr hcode.executable, habsolute,
    ⟨start, stop, Text.cutFirst?_append (hyphen_notMem hstart) stop,
      word?_eq_some_iff.mpr hstart, word?_eq_some_iff.mpr hstop⟩,
    word?_eq_some_iff.mpr hoffset, hcode.range, rfl, shownAs_iff.mp hpath⟩

/-- **Reading a line** follows the rules. -/
theorem parseLine?_eq_some_iff {line : List Char} {r : Region} :
    parseLine? line = some r ↔ Describes line r :=
  ⟨describes_of_parseLine?, parseLine?_of_describes⟩

end MemoryMap

end StackProfiler
