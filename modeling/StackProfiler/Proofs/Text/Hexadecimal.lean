import StackProfiler.Proofs.Text.Numeral

/-!
# Hexadecimal numerals

What is read as a number to the base sixteen is a hexadecimal numeral
(`unsigned?_sixteen_eq_some_iff`), and a number that is written in hexadecimal digits behind any
number of zeros is such a numeral (`isHexNumeral_hexPadded`).
-/

namespace StackProfiler.Text

/-! ## Section 1: Digits -/

/-- The hexadecimal digits in the order of their values. -/
def hexDigits : List Char := "0123456789abcdef".toList

/-- A hexadecimal digit, in either case. -/
def IsHexDigit (c : Char) : Prop :=
  c.toLower ∈ hexDigits

instance (c : Char) : Decidable (IsHexDigit c) :=
  inferInstanceAs (Decidable (_ ∈ _))

def hexDigitValue (c : Char) : Nat :=
  hexDigits.idxOf c.toLower

/-- A character of the ASCII range is found by its code. -/
theorem forall_ascii {p : Char → Prop} (h : ∀ code < 128, p (Char.ofNat code)) :
    ∀ c : Char, c.toNat < 128 → p c := by
  intro c hc
  have hcode := h c.toNat hc
  rwa [Char.ofNat_toNat] at hcode

theorem digitValue_of_large {c : Char} (h : 128 ≤ c.toNat) : digitValue c = none := by
  have hnot : ∀ last : Char, last.toNat < 128 → ¬c ≤ last := by
    intro last hlast hle
    exact absurd (Nat.le_trans h hle) (Nat.not_le_of_lt hlast)
  rw [digitValue, if_neg fun hc => hnot '9' (by decide) hc.2,
    if_neg fun hc => hnot 'z' (by decide) hc.2, if_neg fun hc => hnot 'Z' (by decide) hc.2]

theorem not_isHexDigit_of_large {c : Char} (h : 128 ≤ c.toNat) : ¬IsHexDigit c := by
  have hlower : c.toLower = c := by
    have hnot : ¬(c.val ≥ 'A'.val ∧ c.val ≤ 'Z'.val) := by
      rintro ⟨-, hle⟩
      have hnat : c.toNat ≤ 90 := hle
      omega
    exact dif_neg hnot
  have hsmall : hexDigits.all (·.toNat < 128) = true := by decide +kernel
  rw [IsHexDigit, hlower]
  intro hmem
  have hlt := List.all_eq_true.mp hsmall c hmem
  exact absurd (of_decide_eq_true hlt) (Nat.not_lt_of_le h)

/-- **The digits** to the base sixteen are the hexadecimal ones. -/
theorem digitBelow_sixteen (c : Char) :
    digitBelow 16 c = if IsHexDigit c then some (hexDigitValue c) else none := by
  by_cases hascii : c.toNat < 128
  · revert c
    exact forall_ascii (by decide +kernel)
  · have hlarge := Nat.le_of_not_lt hascii
    rw [if_neg (not_isHexDigit_of_large hlarge), digitBelow, digitValue_of_large hlarge]
    rfl

/-! ## Section 2: Numerals -/

/-- The number that some digits stand for. -/
def hexValue (digits : List Char) : Nat :=
  digits.foldl (fun n c => n * 16 + hexDigitValue c) 0

/-- An unsigned hexadecimal numeral: digits, perhaps behind a plus sign, and their value. -/
def IsHexNumeral (cs : List Char) (n : Nat) : Prop :=
  ∃ digits : List Char, (cs = digits ∨ cs = '+' :: digits) ∧ digits ≠ [] ∧
    (∀ c ∈ digits, IsHexDigit c) ∧ hexValue digits = n

theorem IsHexNumeral.eq_plus_or_isHexDigit {cs : List Char} {n : Nat} (h : IsHexNumeral cs n) :
    ∀ c ∈ cs, c = '+' ∨ IsHexDigit c := by
  obtain ⟨digits, rfl | rfl, -, hdigits, -⟩ := h
  · exact fun c hc => .inr (hdigits c hc)
  · exact List.forall_mem_cons.mpr ⟨.inl rfl, fun c hc => .inr (hdigits c hc)⟩

theorem digitBelow_sixteen_eq_some_iff {c : Char} {d : Nat} :
    digitBelow 16 c = some d ↔ IsHexDigit c ∧ hexDigitValue c = d := by
  rw [digitBelow_sixteen, Option.ite_none_right_eq_some, Option.some_inj]

theorem mapM_digitBelow_sixteen_eq_some_iff {cs : List Char} {ds : List Nat} :
    cs.mapM (digitBelow 16) = some ds ↔ (∀ c ∈ cs, IsHexDigit c) ∧ cs.map hexDigitValue = ds := by
  induction cs generalizing ds with
  | nil => simp
  | cons c cs ih =>
    simp only [List.mapM_cons, bind, Option.bind_eq_some_iff, pure, Option.some_inj, ih,
      digitBelow_sixteen_eq_some_iff, List.forall_mem_cons, List.map_cons]
    constructor
    · rintro ⟨_, ⟨hc, rfl⟩, _, ⟨hcs, rfl⟩, rfl⟩
      exact ⟨⟨hc, hcs⟩, rfl⟩
    · rintro ⟨⟨hc, hcs⟩, rfl⟩
      exact ⟨_, ⟨hc, rfl⟩, _, ⟨hcs, rfl⟩, rfl⟩

theorem digitsValue_sixteen_eq_some_iff {cs : List Char} {n : Nat} :
    digitsValue 16 cs = some n ↔ cs ≠ [] ∧ (∀ c ∈ cs, IsHexDigit c) ∧ hexValue cs = n := by
  unfold digitsValue
  split
  case isTrue hempty => simp [List.isEmpty_iff.mp hempty]
  case isFalse hnonempty =>
    have hne : cs ≠ [] := by simpa using hnonempty
    simp only [Option.map_eq_some_iff, mapM_digitBelow_sixteen_eq_some_iff, hexValue, ne_eq, hne,
      not_false_eq_true, true_and]
    constructor
    · rintro ⟨ds, ⟨hdigits, rfl⟩, hvalue⟩
      rw [List.foldl_map] at hvalue
      exact ⟨hdigits, hvalue⟩
    · rintro ⟨hdigits, hvalue⟩
      exact ⟨_, ⟨hdigits, rfl⟩, by rw [List.foldl_map, hvalue]⟩

/-- **What is read as a number** to the base sixteen is a hexadecimal numeral in range, and every
such numeral is read. -/
theorem unsigned?_sixteen_eq_some_iff {limit n : Nat} {cs : List Char} :
    unsigned? 16 limit cs = some n ↔ IsHexNumeral cs n ∧ n < limit := by
  simp only [unsigned?_eq_some_iff_digitsValue, digitsValue_sixteen_eq_some_iff, IsHexNumeral]

/-! ## Section 3: Writing -/

theorem isHexDigit_digitChar {d : Nat} (h : d < 16) :
    IsHexDigit d.digitChar ∧ hexDigitValue d.digitChar = d := by
  have htable : ∀ d < 16, IsHexDigit d.digitChar ∧ hexDigitValue d.digitChar = d := by
    decide +kernel
  exact htable d h

theorem hexValue_append_singleton (digits : List Char) (c : Char) :
    hexValue (digits ++ [c]) = hexValue digits * 16 + hexDigitValue c := by
  rw [hexValue, List.foldl_append]
  rfl

/-- The digits of a number are digits, and they stand for it. -/
theorem isHexDigit_toDigits (n : Nat) :
    (∀ c ∈ Nat.toDigits 16 n, IsHexDigit c) ∧ hexValue (Nat.toDigits 16 n) = n := by
  induction n using Nat.strongRecOn with
  | ind n ih =>
    by_cases hsmall : n < 16
    · obtain ⟨hdigit, hvalue⟩ := isHexDigit_digitChar hsmall
      rw [Nat.toDigits_of_lt_base hsmall]
      exact ⟨by simpa using hdigit, by simpa [hexValue] using hvalue⟩
    · -- all digits but the last are those of the sixteenth part
      have hlarge := Nat.le_of_not_lt hsmall
      obtain ⟨hdigits, hvalue⟩ := ih (n / 16) (by omega)
      obtain ⟨hlast, hlastValue⟩ := isHexDigit_digitChar (Nat.mod_lt n (y := 16) (by decide))
      rw [Nat.toDigits_of_base_le (by decide) hlarge, hexValue_append_singleton, hvalue, hlastValue,
        Nat.div_add_mod']
      refine ⟨fun c hc => ?_, rfl⟩
      rcases List.mem_append.mp hc with hc | hc
      · exact hdigits c hc
      · exact List.mem_singleton.mp hc ▸ hlast

/-- Leading zeros change nothing. -/
theorem hexValue_replicate_append (count : Nat) (digits : List Char) :
    hexValue (List.replicate count '0' ++ digits) = hexValue digits := by
  have hzero : hexDigitValue '0' = 0 := by decide +kernel
  induction count with
  | zero => rfl
  | succ count ih =>
    rw [List.replicate_succ, List.cons_append, ← ih]
    simp only [hexValue, List.foldl_cons, hzero]

/-- **A written number** is a numeral of the number, whatever its width. -/
theorem isHexNumeral_hexPadded (width n : Nat) : IsHexNumeral (hexPadded width n).toList n := by
  obtain ⟨hdigits, hvalue⟩ := isHexDigit_toDigits n
  refine ⟨_, .inl rfl, ?_, ?_, ?_⟩
  all_goals simp only [hexPadded, String.toList_ofList]
  · exact List.append_ne_nil_of_right_ne_nil _ Nat.toDigits_ne_nil
  · intro c hc
    rcases List.mem_append.mp hc with hc | hc
    · rw [(List.mem_replicate.mp hc).2]
      decide
    · exact hdigits c hc
  · rw [hexValue_replicate_append, hvalue]

end StackProfiler.Text
