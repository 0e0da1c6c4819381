import StackProfiler.FoldedStacks.Text
import StackProfiler.Proofs.Text.Numeral
import StackProfiler.Proofs.Text.Pieces

/-!
# The grammar of a line

What a line of folded text says, as rules (`FoldedLine.Says`), which do not say how the line is cut
and tested on the way. Reading follows them to the letter (`FoldedLine.read_eq_iff`).
-/

namespace StackProfiler

namespace FoldedLine

/-! ## Section 1: The rules -/

/-- A line without its trailing blanks that is empty, or a comment. -/
def IsIgnored (line : List Char) : Prop :=
  line = [] ∨ line.head? = some '#'

/-- A line without its trailing blanks that counts: a path in which some name is not empty, a space,
and a positive numeral of 64 bits. -/
inductive IsObservation : List Char → List String → Nat → Prop where
  | intro {path numeral : List Char} {count : Nat} (hspace : ' ' ∉ numeral)
      (hnumeral : Text.IsNumeral numeral count) (hpos : 0 < count) (hlt : count < wordLimit 64)
      (hname : ∃ name ∈ frames path, name ≠ "") :
      IsObservation (path ++ ' ' :: numeral) (frames path) count

theorem IsObservation.exists_name {line : List Char} {names : List String} {count : Nat}
    (h : IsObservation line names count) : ∃ name ∈ names, name ≠ "" := by
  cases h with
  | intro _ _ _ _ hname => exact hname

/-- What a line says. -/
inductive Says (line : List Char) : FoldedLine → Prop where
  | ignored (h : IsIgnored (Text.trimEnd line)) : Says line .ignored
  | counted {names : List String} {count : Nat} (hkept : ¬IsIgnored (Text.trimEnd line))
      (h : IsObservation (Text.trimEnd line) names count) : Says line (.counted names count)
  | skipped (hkept : ¬IsIgnored (Text.trimEnd line))
      (h : ∀ names count, ¬IsObservation (Text.trimEnd line) names count) : Says line .skipped

/-! ## Section 2: Reading by the rules -/

variable {line : List Char} {names : List String} {count : Nat}

theorem isIgnored_iff :
    (line.isEmpty || line.head? == some '#') = true ↔ IsIgnored line := by
  rw [Bool.or_eq_true, List.isEmpty_iff, beq_iff_eq, IsIgnored]

theorem count?_eq_some_iff {cs : List Char} :
    count? cs = some count ↔ Text.IsNumeral cs count ∧ 0 < count ∧ count < wordLimit 64 := by
  rw [count?, Option.filter_eq_some_iff, Text.unsigned?_eq_some_iff, decide_eq_true_iff]
  tauto

theorem read_eq_ignored_iff : read line = .ignored ↔ IsIgnored (Text.trimEnd line) := by
  constructor
  · intro h
    by_contra hkept
    rw [read, if_neg (isIgnored_iff.not.mpr hkept)] at h
    -- every other way through the tests ends in another answer
    split at h
    · contradiction
    · split at h
      · contradiction
      · split at h <;> contradiction
  · intro h
    rw [read, if_pos (isIgnored_iff.mpr h)]

/-- **A line is counted** exactly if it is not ignored and has the form of an observation. -/
theorem read_eq_counted_iff :
    read line = .counted names count ↔
      ¬IsIgnored (Text.trimEnd line) ∧ IsObservation (Text.trimEnd line) names count := by
  constructor
  · intro h
    have hkept : ¬IsIgnored (Text.trimEnd line) := by
      rw [← read_eq_ignored_iff, h]
      exact nofun
    refine ⟨hkept, ?_⟩
    rw [read, if_neg (isIgnored_iff.not.mpr hkept)] at h
    -- of the tests on the way, only those that the rule asks for have passed
    split at h
    case h_1 => contradiction
    case h_2 path numeral hcut =>
      split at h
      case h_1 => contradiction
      case h_2 n hcount =>
        split at h
        case isTrue => contradiction
        case isFalse hnames =>
          cases h
          obtain ⟨hline, hspace⟩ := Text.cutLast?_eq_some_iff.mp hcut
          obtain ⟨hnumeral, hpos, hlt⟩ := count?_eq_some_iff.mp hcount
          rw [hline]
          exact .intro hspace hnumeral hpos hlt (by simpa using hnames)
  · rintro ⟨hkept, h⟩
    rw [read, if_neg (isIgnored_iff.not.mpr hkept)]
    generalize Text.trimEnd line = trimmed at h
    cases h with
    | @intro path numeral count hspace hnumeral hpos hlt hname =>
      have hnames : ¬(frames path).all (·.isEmpty) = true := by simpa using hname
      simp only [Text.cutLast?_append _ hspace, count?_eq_some_iff.mpr ⟨hnumeral, hpos, hlt⟩,
        if_neg hnames]

/-- **Reading a line** follows the rules. -/
theorem read_eq_iff {answer : FoldedLine} : read line = answer ↔ Says line answer := by
  have hsays : Says line (read line) := by
    by_cases hignored : IsIgnored (Text.trimEnd line)
    · rw [read_eq_ignored_iff.mpr hignored]
      exact .ignored hignored
    · cases hread : read line with
      | ignored => exact absurd (read_eq_ignored_iff.mp hread) hignored
      | skipped =>
        refine .skipped hignored fun names count h => ?_
        rw [read_eq_counted_iff.mpr ⟨hignored, h⟩] at hread
        contradiction
      | counted names count => exact .counted hignored (read_eq_counted_iff.mp hread).2
  refine ⟨fun h => h ▸ hsays, fun h => ?_⟩
  cases h with
  | ignored h => exact read_eq_ignored_iff.mpr h
  | counted hkept h => exact read_eq_counted_iff.mpr ⟨hkept, h⟩
  | skipped hkept h =>
    -- the line is read as something, and the rules for the other two do not apply
    cases hsays' : read line with
    | skipped => rfl
    | ignored => exact absurd (read_eq_ignored_iff.mp hsays') hkept
    | counted names count => exact absurd (read_eq_counted_iff.mp hsays').2 (h names count)

end FoldedLine

end StackProfiler
