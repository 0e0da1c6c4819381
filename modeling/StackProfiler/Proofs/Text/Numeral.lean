import StackProfiler.Text.Numeral

/-!
# Numerals

A number that is written in decimal digits is read back (`unsigned?_toDigits`), and what is read as a
number is a decimal numeral (`unsigned?_eq_some_iff`).
-/

namespace StackProfiler.Text

theorem digitBelow_of_isDigit {c : Char} (h : c.isDigit = true) :
    digitBelow 10 c = some (c.toNat - '0'.toNat) := by
  simp only [Char.isDigit, Bool.and_eq_true, decide_eq_true_eq] at h
  have hlower : '0' ≤ c := h.1
  have hupper : c ≤ '9' := h.2
  have hlt : c.toNat - '0'.toNat < 10 := by
    have hle : c.toNat ≤ 57 := hupper
    simp only [Char.reduceToNat]
    omega
  rw [digitBelow, digitValue, if_pos ⟨hlower, hupper⟩]
  simpa [Option.filter_some] using hlt

/-- The value of decimal digits, as the library computes it. -/
theorem digitsValue_eq_ofDigitChars {cs : List Char} (hne : cs ≠ [])
    (h : ∀ c ∈ cs, c.isDigit = true) : digitsValue 10 cs = some (Nat.ofDigitChars 10 cs 0) := by
  have hdigits : cs.mapM (digitBelow 10) = some (cs.map fun c => c.toNat - '0'.toNat) := by
    clear hne
    induction cs with
    | nil => rfl
    | cons c cs ih =>
      rw [List.mapM_cons, digitBelow_of_isDigit (h c List.mem_cons_self),
        ih fun c hc => h c (List.mem_cons_of_mem _ hc)]
      rfl
  have hnonempty : cs.isEmpty = false := by simpa using hne
  rw [digitsValue, hnonempty, if_neg Bool.false_ne_true, hdigits, Option.map_some, List.foldl_map]
  simp only [Nat.ofDigitChars, Nat.mul_comm]

theorem isDigit_of_mem_toDigits {n : Nat} {c : Char} (h : c ∈ Nat.toDigits 10 n) :
    c.isDigit = true :=
  Nat.isDigit_of_mem_toDigits (by decide) (by decide) h

/-- An unsigned decimal numeral: digits, perhaps behind a plus sign, and their value. -/
def IsNumeral (cs : List Char) (n : Nat) : Prop :=
  ∃ digits : List Char, (cs = digits ∨ cs = '+' :: digits) ∧ digits ≠ [] ∧
    (∀ c ∈ digits, c.isDigit = true) ∧ Nat.ofDigitChars 10 digits 0 = n

theorem isDigit_of_digitBelow {c : Char} {d : Nat} (h : digitBelow 10 c = some d) :
    c.isDigit = true := by
  obtain ⟨hvalue, hd⟩ := Option.filter_eq_some_iff.mp h
  have hlt : d < 10 := by simpa using hd
  unfold digitValue at hvalue
  split at hvalue
  case isTrue hrange =>
    simp only [Char.isDigit, Bool.and_eq_true, decide_eq_true_eq]
    exact hrange
  case isFalse =>
    -- the value of a letter is ten or more
    split at hvalue
    · cases hvalue
      omega
    · split at hvalue
      · cases hvalue
        omega
      · contradiction

theorem isDigit_of_mapM_digitBelow {cs : List Char} {ds : List Nat}
    (h : cs.mapM (digitBelow 10) = some ds) : ∀ c ∈ cs, c.isDigit = true := by
  induction cs generalizing ds with
  | nil => exact fun c hc => absurd hc List.not_mem_nil
  | cons c cs ih =>
    rw [List.mapM_cons] at h
    obtain ⟨d, hd, h⟩ := Option.bind_eq_some_iff.mp h
    obtain ⟨ds', hds', -⟩ := Option.bind_eq_some_iff.mp h
    exact List.forall_mem_cons.mpr ⟨isDigit_of_digitBelow hd, ih hds'⟩

theorem digitsValue_eq_some_iff {cs : List Char} {n : Nat} :
    digitsValue 10 cs = some n ↔
      cs ≠ [] ∧ (∀ c ∈ cs, c.isDigit = true) ∧ Nat.ofDigitChars 10 cs 0 = n := by
  constructor
  · intro h
    have hne : cs ≠ [] := by
      rintro rfl
      contradiction
    have hdigits : ∀ c ∈ cs, c.isDigit = true := by
      have hnonempty : cs.isEmpty = false := by simpa using hne
      rw [digitsValue, hnonempty, if_neg Bool.false_ne_true, Option.map_eq_some_iff] at h
      obtain ⟨ds, hds, -⟩ := h
      exact isDigit_of_mapM_digitBelow hds
    rw [digitsValue_eq_ofDigitChars hne hdigits] at h
    exact ⟨hne, hdigits, Option.some.inj h⟩
  · rintro ⟨hne, hdigits, rfl⟩
    exact digitsValue_eq_ofDigitChars hne hdigits

theorem digitsValue_eq_none_of_sign (base : Nat) (digits : List Char) :
    digitsValue base ('+' :: digits) = none := by
  have hsign : digitBelow base '+' = none := rfl
  simp [digitsValue, List.mapM_cons, hsign]

/-- A numeral is one or more digits, perhaps behind a plus sign, of a value in range. -/
theorem unsigned?_eq_some_iff_digitsValue {base limit n : Nat} {cs : List Char} :
    unsigned? base limit cs = some n ↔
      (∃ digits : List Char, (cs = digits ∨ cs = '+' :: digits) ∧
        digitsValue base digits = some n) ∧ n < limit := by
  unfold unsigned?
  rw [Option.filter_eq_some_iff, decide_eq_true_iff]
  refine and_congr_left fun _ => ?_
  split
  case h_1 rest =>
    refine ⟨fun h => ⟨rest, .inr rfl, h⟩, ?_⟩
    rintro ⟨digits, rfl | heq, hdigits⟩
    · -- no digit is a sign
      rw [digitsValue_eq_none_of_sign] at hdigits
      contradiction
    · cases heq
      exact hdigits
  case h_2 hsign =>
    refine ⟨fun h => ⟨cs, .inl rfl, h⟩, ?_⟩
    rintro ⟨digits, rfl | heq, hdigits⟩
    · exact hdigits
    · exact absurd heq (hsign digits)

/-- **What is read as a number** is a decimal numeral in range, and every such numeral is read. -/
theorem unsigned?_eq_some_iff {limit n : Nat} {cs : List Char} :
    unsigned? 10 limit cs = some n ↔ IsNumeral cs n ∧ n < limit := by
  simp only [unsigned?_eq_some_iff_digitsValue, digitsValue_eq_some_iff, IsNumeral]

/-- **A written number is read back**, if it is in range. -/
theorem unsigned?_toDigits {limit n : Nat} (h : n < limit) :
    unsigned? 10 limit (Nat.toDigits 10 n) = some n := by
  rw [unsigned?_eq_some_iff]
  exact ⟨⟨_, .inl rfl, Nat.toDigits_ne_nil, fun c hc => isDigit_of_mem_toDigits hc,
    Nat.ofDigitChars_ten_toDigits⟩, h⟩

end StackProfiler.Text
