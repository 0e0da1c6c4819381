import Mathlib.Data.Rat.Floor
import Mathlib.Tactic.Linarith
import StackProfiler.Layout.FrameLabel

/-!
# What a label leaves out

Over the rational numbers a label is given in closed form: the whole name if it is shorter than the
room in the frame, and otherwise, in a frame wider than twenty pixels, the characters for which
there is room (`roomFor`), followed by two dots.

The two cases meet where a name is exactly as long as the room (`Brimful`). Such a name counts as
too long, but none of its characters is left out, and the dots stand behind all of it.

- **the room**: `le_roomFor_iff`, `roomFor_lt_length_iff`;
- **the label**: `fitLabel_of_roomy`, `fitLabel_of_tight`;
- **main statement**: `fitLabel_leaves_out_iff`.
-/

namespace StackProfiler

variable {config : LayoutConfig Rat} {name : String} {width : Rat}

/-! ## Section 1: The room in a frame -/

/-- Width of so many characters with the room at the sides of a label. -/
def labelWidth (config : LayoutConfig Rat) (count : Nat) : Rat :=
  count * config.charWidth + 6

/-- Number of characters for which a frame has room. -/
def roomFor (config : LayoutConfig Rat) (width : Rat) : Nat :=
  ⌊(width - 6) / config.charWidth⌋₊

/-- **The room** is the largest number of characters that are not too wide. -/
theorem le_roomFor_iff (hchar : 0 < config.charWidth) (hwidth : 6 ≤ width) {count : Nat} :
    count ≤ roomFor config width ↔ labelWidth config count ≤ width := by
  have hroom : 0 ≤ (width - 6) / config.charWidth :=
    div_nonneg (sub_nonneg.mpr hwidth) hchar.le
  rw [roomFor, Nat.le_floor_iff hroom, le_div_iff₀ hchar, labelWidth, le_sub_iff_add_le]

/-- A name that is not shorter than the room is cut, unless it is exactly as long. -/
theorem roomFor_lt_length_iff (hchar : 0 < config.charWidth) (hwidth : 6 ≤ width)
    (htight : width ≤ labelWidth config name.length) :
    roomFor config width < name.length ↔ labelWidth config name.length ≠ width := by
  rw [← not_le, le_roomFor_iff hchar hwidth, htight.ge_iff_eq']

/-! ## Section 2: The label -/

/-- So many characters of a name, with the dots behind them. -/
def shortened (name : String) (count : Nat) : String :=
  String.ofList (name.toList.take count) ++ ".."

/-- All characters of the name are kept. -/
theorem shortened_of_length_le {count : Nat} (h : name.length ≤ count) :
    shortened name count = name ++ ".." := by
  rw [shortened, List.take_of_length_le (by rwa [String.length_toList]), String.ofList_toList]

theorem length_shortened {count : Nat} (h : count ≤ name.length) :
    (shortened name count).length = count + 2 := by
  rw [shortened, String.length_append, String.length_ofList, List.length_take,
    String.length_toList, Nat.min_eq_left h]
  rfl

/-- The label in terms of the room, with nothing rounded. -/
theorem fitLabel_eq (config : LayoutConfig Rat) (name : String) (width : Rat) :
    fitLabel config name width =
      if labelWidth config name.length < width then some name
      else if width ≤ 20 then none
      else if roomFor config width = 0 then none
      else some (shortened name (roomFor config width)) := by
  have hroom : Scalar.truncate ((width - Scalar.ofNat 6) / config.charWidth) =
      roomFor config width := rfl
  rw [fitLabel, hroom]
  cases roomFor config width <;> rfl

theorem fitLabel_of_roomy (h : labelWidth config name.length < width) :
    fitLabel config name width = some name := by
  rw [fitLabel_eq, if_pos h]

theorem fitLabel_of_narrow (htight : width ≤ labelWidth config name.length)
    (hnarrow : width ≤ 20) : fitLabel config name width = none := by
  rw [fitLabel_eq, if_neg (not_lt.mpr htight), if_pos hnarrow]

/-- **A name that is too long** is cut to the characters for which there is room, if any. -/
theorem fitLabel_of_tight (htight : width ≤ labelWidth config name.length) (hwide : 20 < width) :
    fitLabel config name width =
      if roomFor config width = 0 then none
      else some (shortened name (roomFor config width)) := by
  rw [fitLabel_eq, if_neg (not_lt.mpr htight), if_neg (not_le.mpr hwide)]

/-! ## Section 3: What the dots mean -/

/-- The name is exactly as long as the room in a frame that is wide enough for a cut name. -/
def Brimful (config : LayoutConfig Rat) (name : String) (width : Rat) : Prop :=
  20 < width ∧ labelWidth config name.length = width

/-- Where name and room are equally long, the dots stand behind the whole name. -/
theorem fitLabel_of_brimful (hchar : 0 < config.charWidth) (h : Brimful config name width) :
    fitLabel config name width = some (name ++ "..") := by
  obtain ⟨hwide, hequal⟩ := h
  have hroom : name.length ≤ roomFor config width :=
    (le_roomFor_iff hchar (by linarith)).mpr hequal.le
  -- a frame of this width has room for a character, since the empty name is not so long
  have hpos : roomFor config width ≠ 0 := by
    intro hzero
    have hempty : name.length = 0 := Nat.le_zero.mp (hzero ▸ hroom)
    rw [labelWidth, hempty] at hequal
    norm_num at hequal
    linarith
  rw [fitLabel_of_tight hequal.ge hwide, if_neg hpos, shortened_of_length_le hroom]

/--
**Dots mean that something was left out**, except where the name is exactly as long as the room.
For characters of any positive width, a label is missing, or the whole name, or some of its
characters but not all with the dots behind them, exactly if name and room are not equally long in a
frame wider than twenty pixels. If they are, the label is the whole name with the dots behind it.
-/
theorem fitLabel_leaves_out_iff (hchar : 0 < config.charWidth) (name : String) (width : Rat) :
    ((fitLabel config name width = none ∨ fitLabel config name width = some name ∨
        ∃ count, 0 < count ∧ count < name.length ∧
          fitLabel config name width = some (shortened name count)) ↔
      ¬Brimful config name width) ∧
    (Brimful config name width → fitLabel config name width = some (name ++ "..")) := by
  refine ⟨⟨?_, ?_⟩, fitLabel_of_brimful hchar⟩
  · -- no label of the three kinds is as long as the name with the dots
    rintro hkinds hbrimful
    rw [fitLabel_of_brimful hchar hbrimful] at hkinds
    have hlength : (name ++ "..").length = name.length + 2 :=
      String.length_append _ _
    rcases hkinds with hnone | hwhole | ⟨count, -, hcount, hcut⟩
    · contradiction
    · have := congrArg String.length (Option.some.inj hwhole)
      omega
    · have := congrArg String.length (Option.some.inj hcut)
      rw [length_shortened hcount.le] at this
      omega
  · intro hbrimful
    rcases lt_or_ge (labelWidth config name.length) width with hroomy | htight
    · exact .inr (.inl (fitLabel_of_roomy hroomy))
    rcases le_or_gt width 20 with hnarrow | hwide
    · exact .inl (fitLabel_of_narrow htight hnarrow)
    have hunequal : labelWidth config name.length ≠ width := fun h => hbrimful ⟨hwide, h⟩
    have hless := (roomFor_lt_length_iff hchar (by linarith) htight).mpr hunequal
    rw [fitLabel_of_tight htight hwide]
    split
    case isTrue => exact .inl rfl
    case isFalse hpos =>
      exact .inr (.inr ⟨roomFor config width, Nat.pos_of_ne_zero hpos, hless, rfl⟩)

/-- The usual measures: characters of six and a half pixels. -/
private def usualMeasures : LayoutConfig Rat where
  width := 1200
  rowHeight := 16
  fontSize := 11
  minWidth := 1 / 10
  charWidth := 13 / 2
  sideMargin := 10
  bottomMargin := 30
  header := 60

/-- A name of seven characters in a frame of exactly its length gets dots, and nothing of it is
left out. -/
theorem fitLabel_leaves_out_brimful :
    0 < usualMeasures.charWidth ∧ Brimful usualMeasures "compute" (103 / 2) ∧
      fitLabel usualMeasures "compute" (103 / 2) = some "compute.." ∧
      ¬(fitLabel usualMeasures "compute" (103 / 2) = none ∨
        fitLabel usualMeasures "compute" (103 / 2) = some "compute" ∨
        ∃ count, 0 < count ∧ count < "compute".length ∧
          fitLabel usualMeasures "compute" (103 / 2) = some (shortened "compute" count)) := by
  have hchar : 0 < usualMeasures.charWidth := by
    norm_num [usualMeasures]
  have hbrimful : Brimful usualMeasures "compute" (103 / 2) := by
    refine ⟨by norm_num, ?_⟩
    have hlength : "compute".length = 7 := rfl
    norm_num [labelWidth, usualMeasures, hlength]
  obtain ⟨hiff, hlabel⟩ := fitLabel_leaves_out_iff hchar "compute" (103 / 2)
  exact ⟨hchar, hbrimful, hlabel hbrimful, fun hkinds => hiff.mp hkinds hbrimful⟩

end StackProfiler
