import Mathlib.Data.List.DropRight
import Mathlib.Data.List.TakeWhile
import StackProfiler.Text.Blank
import StackProfiler.Text.Pieces

/-!
# Pieces, lines and edges of a text

Joining undoes cutting (`intercalate_pieces`), and cutting undoes joining where no piece holds the
separator (`pieces_intercalate`); so lines that were written one after the other are read back
(`lines_flatMap`), and a text is cut into lines in parts (`lines_append`). A cut at the last
separator undoes joining there (`cutLast?_eq_some_iff`), and trimming changes a text exactly if there
is white space at one of its ends (`trim_eq_self_iff`).
-/

namespace StackProfiler.Text

variable {α : Type} [DecidableEq α]

/-! ## Section 1: Pieces -/

theorem pieces_cons (sep x : α) (xs : List α) :
    pieces sep (x :: xs) = addPiece sep x (pieces sep xs) := rfl

theorem addPiece_separator (sep : α) (ps : List (List α)) : addPiece sep sep ps = [] :: ps := by
  simp [addPiece]

theorem addPiece_of_ne {sep x : α} (h : x ≠ sep) (p : List α) (ps : List (List α)) :
    addPiece sep x (p :: ps) = (x :: p) :: ps := by
  simp [addPiece, h]

theorem pieces_eq_splitOn (sep : α) (xs : List α) : pieces sep xs = xs.splitOn sep := by
  induction xs with
  | nil => rfl
  | cons x xs ih =>
    rw [pieces_cons, ih, List.splitOn_cons_eq_if_modifyHead]
    unfold addPiece
    split
    · rfl
    · cases hrest : xs.splitOn sep with
      | nil => exact absurd hrest (List.splitOn_ne_nil _ _)
      | cons p ps => rfl

theorem pieces_ne_nil (sep : α) (xs : List α) : pieces sep xs ≠ [] := by
  rw [pieces_eq_splitOn]
  exact List.splitOn_ne_nil _ _

/-- Joining the pieces gives the sequence back. -/
theorem intercalate_pieces (sep : α) (xs : List α) : [sep].intercalate (pieces sep xs) = xs := by
  rw [pieces_eq_splitOn]
  exact List.intercalate_splitOn sep

/-- Cutting what was joined gives the pieces back, if there are any and none holds the separator. -/
theorem pieces_intercalate {sep : α} {ps : List (List α)} (hsep : ∀ p ∈ ps, sep ∉ p)
    (hne : ps ≠ []) : pieces sep ([sep].intercalate ps) = ps := by
  rw [pieces_eq_splitOn]
  exact List.splitOn_intercalate sep hsep hne

/-- No piece holds the separator. -/
theorem separator_notMem_of_mem_pieces {sep : α} {xs p : List α} (h : p ∈ pieces sep xs) :
    sep ∉ p := by
  induction xs generalizing p with
  | nil =>
    cases List.mem_singleton.mp h
    exact List.not_mem_nil
  | cons x xs ih =>
    rw [pieces_cons] at h
    unfold addPiece at h
    split at h
    case isTrue =>
      rcases List.mem_cons.mp h with rfl | h
      · exact List.not_mem_nil
      · exact ih h
    case isFalse hne =>
      have hx : sep ≠ x := fun heq => hne (beq_iff_eq.mpr heq.symm)
      -- the element goes in front of the first piece
      split at h
      case h_1 =>
        cases List.mem_singleton.mp h
        simpa using hx
      case h_2 first rest hpieces =>
        rcases List.mem_cons.mp h with rfl | h
        · simp only [List.mem_cons, not_or]
          exact ⟨hx, ih (hpieces ▸ List.mem_cons_self)⟩
        · exact ih (hpieces ▸ List.mem_cons_of_mem _ h)

theorem pieces_flatMap {sep : α} {ps : List (List α)} (h : ∀ p ∈ ps, sep ∉ p) :
    pieces sep (ps.flatMap (· ++ [sep])) = ps ++ [[]] := by
  induction ps with
  | nil => rfl
  | cons p ps ih =>
    have hfirst : sep ∉ p := h p List.mem_cons_self
    rw [pieces_eq_splitOn] at ih ⊢
    rw [List.flatMap_cons, List.append_assoc, List.singleton_append,
      List.splitOn_append_cons_self_of_not_mem hfirst,
      ih fun p hp => h p (List.mem_cons_of_mem _ hp)]
    rfl

/-- What stands before a separator and what stands behind it are cut on their own. -/
theorem pieces_append_cons (sep : α) (front back : List α) :
    pieces sep (front ++ sep :: back) = pieces sep front ++ pieces sep back := by
  induction front with
  | nil => exact addPiece_separator sep _
  | cons x front ih =>
    rw [List.cons_append, pieces_cons, ih, pieces_cons]
    by_cases hx : x = sep
    · rw [hx, addPiece_separator, addPiece_separator, List.cons_append]
    · -- the element goes in front of the first piece, and there is one in the front part
      cases hpieces : pieces sep front with
      | nil => exact absurd hpieces (pieces_ne_nil sep front)
      | cons p ps => rw [List.cons_append, addPiece_of_ne hx, addPiece_of_ne hx, List.cons_append]

omit [DecidableEq α] in
theorem intercalate_sublist {sep : α} {parts parts' : List (List α)}
    (h : parts.Sublist parts') :
    ([sep].intercalate parts).Sublist ([sep].intercalate parts') := by
  induction h with
  | slnil => exact List.Sublist.refl _
  | @cons parts parts' part h ih =>
    by_cases hnil : parts' = []
    · subst hnil
      rw [List.sublist_nil.mp h]
      exact List.nil_sublist _
    · rw [List.intercalate_cons_of_ne_nil hnil]
      exact ih.trans (List.sublist_append_right _ _)
  | @cons_cons parts parts' part h ih =>
    by_cases hnil : parts = []
    · subst hnil
      rw [List.intercalate_singleton]
      by_cases hnil' : parts' = []
      · simp [hnil']
      · rw [List.intercalate_cons_of_ne_nil hnil', List.append_assoc]
        exact List.sublist_append_left _ _
    · have hnil' : parts' ≠ [] := by
        rintro rfl
        exact hnil (List.sublist_nil.mp h)
      rw [List.intercalate_cons_of_ne_nil hnil, List.intercalate_cons_of_ne_nil hnil']
      exact (List.Sublist.refl _).append ih

/-- A piece is a part of the sequence. -/
theorem sublist_of_mem_pieces {sep : α} {xs p : List α} (h : p ∈ pieces sep xs) :
    p.Sublist xs := by
  have hjoined : ([sep].intercalate [p]).Sublist ([sep].intercalate (pieces sep xs)) :=
    intercalate_sublist (List.singleton_sublist.mpr h)
  rwa [List.intercalate_singleton, intercalate_pieces] at hjoined

/-! ## Section 2: Lines -/

theorem dropFinal_sublist (x : α) (xs : List α) : (dropFinal x xs).Sublist xs := by
  unfold dropFinal
  split
  · exact List.dropLast_sublist xs
  · exact List.Sublist.refl xs

/-- No line holds the end of a line. -/
theorem newline_notMem_of_mem_lines {newline ret : α} {xs line : List α}
    (h : line ∈ lines newline ret xs) : newline ∉ line := by
  simp only [lines, List.mem_append, List.mem_map, List.mem_filter, Option.mem_toList] at h
  rcases h with ⟨p, hp, rfl⟩ | ⟨hlast, -⟩
  · intro hmem
    exact separator_notMem_of_mem_pieces ((List.dropLast_sublist _).mem hp)
      ((dropFinal_sublist ret p).mem hmem)
  · exact separator_notMem_of_mem_pieces (List.mem_of_getLast? hlast)

/-- **Lines are read back**, if none holds the end of a line or ends in what goes along with it. -/
theorem lines_flatMap {newline ret : α} {ls : List (List α)}
    (h : ∀ line ∈ ls, newline ∉ line ∧ line.getLast? ≠ some ret) :
    lines newline ret (ls.flatMap (· ++ [newline])) = ls := by
  have hkept : ls.map (dropFinal ret) = ls := by
    conv_rhs => rw [← List.map_id ls]
    apply List.map_congr_left
    intro line hline
    rw [dropFinal, if_neg (by simpa using (h line hline).2), id]
  simp [lines, pieces_flatMap fun line hline => (h line hline).1, hkept]

/-- Lines that have ended are not touched by what follows. -/
theorem lines_append (newline ret : α) (front back : List α) :
    lines newline ret (front ++ newline :: back) =
      lines newline ret (front ++ [newline]) ++ lines newline ret back := by
  have hlast : pieces newline ([] : List α) = [[]] := rfl
  simp only [lines, pieces_append_cons, hlast,
    List.dropLast_append_of_ne_nil (pieces_ne_nil newline back)]
  rw [List.getLast?_append_of_ne_nil _ (pieces_ne_nil newline back)]
  simp

/-- Taking from the lines what some function finds is taking it from the pieces, if the function
does not mind what goes along with the end of a line. -/
theorem filterMap_lines {β : Type} {newline ret : α} {xs : List α} {f : List α → Option β}
    (hempty : f [] = none) (hret : ∀ p ∈ pieces newline xs, f (dropFinal ret p) = f p) :
    (lines newline ret xs).filterMap f = (pieces newline xs).filterMap f := by
  have hne := pieces_ne_nil newline xs
  have hpieces := List.dropLast_append_getLast hne
  have hfront : ((pieces newline xs).dropLast.map (dropFinal ret)).filterMap f =
      (pieces newline xs).dropLast.filterMap f := by
    rw [List.filterMap_map]
    exact List.filterMap_congr fun p hp => hret p ((List.dropLast_sublist _).mem hp)
  conv_rhs => rw [← hpieces, List.filterMap_append]
  rw [lines, List.filterMap_append, hfront, List.getLast?_eq_some_getLast hne]
  congr 1
  -- an empty piece at the end is no line, and nothing is found in it
  generalize (pieces newline xs).getLast hne = last
  cases last <;> simp [hempty]

/-! ## Section 3: Cuts -/

theorem cutFirst?_append {sep : α} {front : List α} (h : sep ∉ front) (back : List α) :
    cutFirst? sep (front ++ sep :: back) = some (front, back) := by
  have hfront : ∀ x ∈ front, (x != sep) = true := by
    intro x hx
    simpa using fun heq : x = sep => h (heq ▸ hx)
  rw [cutFirst?, List.dropWhile_append_of_pos hfront, List.takeWhile_append_of_pos hfront]
  simp

/-- **The last separator** is the one behind which there is none. -/
theorem cutLast?_append {sep : α} (front : List α) {back : List α} (h : sep ∉ back) :
    cutLast? sep (front ++ sep :: back) = some (front, back) := by
  have hreverse : (front ++ sep :: back).reverse = back.reverse ++ sep :: front.reverse := by
    simp
  rw [cutLast?, hreverse, cutFirst?_append (by simpa using h)]
  simp

theorem eq_append_of_cutFirst? {sep : α} {xs front back : List α}
    (h : cutFirst? sep xs = some (front, back)) : xs = front ++ sep :: back := by
  unfold cutFirst? at h
  split at h
  case h_1 => contradiction
  case h_2 x rest hrest =>
    cases h
    -- what the search stops at is the separator
    have hstop := List.head_dropWhile_not (· != sep) (l := xs) (by simp [hrest])
    obtain rfl : x = sep := by simpa [hrest] using hstop
    rw [← hrest, List.takeWhile_append_dropWhile]

/-- Both sides of a cut come from the sequence. -/
theorem eq_append_of_cutLast? {sep : α} {xs front back : List α}
    (h : cutLast? sep xs = some (front, back)) : xs = front ++ sep :: back := by
  simp only [cutLast?, Option.map_eq_some_iff] at h
  obtain ⟨⟨after, before⟩, hcut, h⟩ := h
  cases h
  have hreverse := congrArg List.reverse (eq_append_of_cutFirst? hcut)
  simpa using hreverse

theorem separator_notMem_of_cutFirst? {sep : α} {xs front back : List α}
    (h : cutFirst? sep xs = some (front, back)) : sep ∉ front := by
  unfold cutFirst? at h
  split at h
  case h_1 => contradiction
  case h_2 =>
    cases h
    intro hmem
    simpa using List.mem_takeWhile_imp hmem

/-- **A cut at the last separator**: there is one in front of the second part and none in it. -/
theorem cutLast?_eq_some_iff {sep : α} {xs front back : List α} :
    cutLast? sep xs = some (front, back) ↔ xs = front ++ sep :: back ∧ sep ∉ back := by
  constructor
  · intro h
    refine ⟨eq_append_of_cutLast? h, ?_⟩
    simp only [cutLast?, Option.map_eq_some_iff] at h
    obtain ⟨⟨after, before⟩, hcut, h⟩ := h
    cases h
    simpa using separator_notMem_of_cutFirst? hcut
  · rintro ⟨rfl, hsep⟩
    exact cutLast?_append front hsep

/-! ## Section 4: Trimming -/

theorem trimEnd_eq_rdropWhile (cs : List Char) : trimEnd cs = cs.rdropWhile isBlank := rfl

theorem trimEnd_sublist (cs : List Char) : (trimEnd cs).Sublist cs := by
  rw [trimEnd_eq_rdropWhile]
  exact (List.rdropWhile_prefix isBlank cs).sublist

theorem trim_sublist_trimEnd (cs : List Char) : (trim cs).Sublist (trimEnd cs) :=
  List.dropWhile_sublist _

theorem trim_sublist (cs : List Char) : (trim cs).Sublist cs :=
  (trim_sublist_trimEnd cs).trans (trimEnd_sublist cs)

theorem trimEnd_eq_self_iff {cs : List Char} :
    trimEnd cs = cs ↔ ∀ c ∈ cs.getLast?, isBlank c = false := by
  rw [trimEnd_eq_rdropWhile, List.rdropWhile_eq_self_iff]
  by_cases hnil : cs = []
  · simp [hnil]
  · simp [hnil, List.getLast?_eq_some_getLast hnil]

theorem trimStart_eq_self_iff {cs : List Char} :
    trimStart cs = cs ↔ ∀ c ∈ cs.head?, isBlank c = false := by
  rw [trimStart, List.dropWhile_eq_self_iff]
  cases cs <;> simp

/-- **Trimming changes nothing** exactly if there is no white space at either end. -/
theorem trim_eq_self_iff {cs : List Char} :
    trim cs = cs ↔
      (∀ c ∈ cs.head?, isBlank c = false) ∧ ∀ c ∈ cs.getLast?, isBlank c = false := by
  rw [← trimStart_eq_self_iff, ← trimEnd_eq_self_iff]
  constructor
  · intro h
    -- trimming in two steps leaves no less than both together
    have hend : trimEnd cs = cs := by
      apply (trimEnd_sublist cs).eq_of_length_le
      conv_lhs => rw [← h]
      exact (trim_sublist_trimEnd cs).length_le
    exact ⟨by rwa [trim, hend] at h, hend⟩
  · rintro ⟨hstart, hend⟩
    rw [trim, hend, hstart]

/-! ## Section 5: Elements spelled by sequences -/

section Spelling

variable {β : Type} [DecidableEq β]

/-- Of all elements, only `x` is spelled with `y`, and with nothing else. -/
structure SpelledBy (spell : α → List β) (x : α) (y : β) : Prop where
  spell_eq : spell x = [y]
  notMem_spell : ∀ x' ≠ x, y ∉ spell x'

omit [DecidableEq β] in
/-- A part without the separator goes in front of the first piece. -/
theorem pieces_append_of_notMem {sep : α} {front back first : List α} {rest : List (List α)}
    (hsep : sep ∉ front) (hback : pieces sep back = first :: rest) :
    pieces sep (front ++ back) = (front ++ first) :: rest := by
  induction front with
  | nil => exact hback
  | cons x front ih =>
    obtain ⟨hx, hfront⟩ := not_or.mp (List.mem_cons.not.mp hsep)
    rw [List.cons_append, pieces_cons, ih hfront, addPiece_of_ne (Ne.symm hx), List.cons_append]

/-- Cutting what is spelled at the spelled separator is spelling the pieces. -/
theorem pieces_flatMap_spell {spell : α → List β} {sep : α} {sep' : β}
    (h : SpelledBy spell sep sep') (xs : List α) :
    pieces sep' (xs.flatMap spell) = (pieces sep xs).map (·.flatMap spell) := by
  induction xs with
  | nil => rfl
  | cons x xs ih =>
    rw [List.flatMap_cons, pieces_cons]
    by_cases hx : x = sep
    · rw [hx, h.spell_eq, List.singleton_append, pieces_cons, addPiece_separator,
        addPiece_separator, ih, List.map_cons, List.flatMap_nil]
    · cases hpieces : pieces sep xs with
      | nil => exact absurd hpieces (pieces_ne_nil sep xs)
      | cons p ps =>
        rw [hpieces, List.map_cons] at ih
        rw [pieces_append_of_notMem (h.notMem_spell x hx) ih, addPiece_of_ne hx, List.map_cons,
          List.flatMap_cons]

theorem dropFinal_flatMap_spell {spell : α → List β} {ret : α} {ret' : β}
    (h : SpelledBy spell ret ret') (hne : ∀ x, spell x ≠ []) (xs : List α) :
    dropFinal ret' (xs.flatMap spell) = (dropFinal ret xs).flatMap spell := by
  cases xs using List.reverseRecOn with
  | nil => rfl
  | append_singleton front x =>
    rw [List.flatMap_append, List.flatMap_singleton]
    by_cases hx : x = ret
    · subst hx
      simp [dropFinal, h.spell_eq]
    · -- the last part of the spelling is that of another element
      have hlast : (front.flatMap spell ++ spell x).getLast? ≠ some ret' := by
        rw [List.getLast?_append_of_ne_nil _ (hne x)]
        exact fun hret => h.notMem_spell x hx (List.mem_of_getLast? hret)
      rw [dropFinal, if_neg (by simpa using hlast), dropFinal,
        if_neg (by simpa using hx), List.flatMap_append, List.flatMap_singleton]

/-- **Lines of a spelled text** are the spelled lines of the text. -/
theorem lines_flatMap_spell {spell : α → List β} {newline ret : α} {newline' ret' : β}
    (hnewline : SpelledBy spell newline newline') (hret : SpelledBy spell ret ret')
    (hne : ∀ x, spell x ≠ []) (xs : List α) :
    lines newline' ret' (xs.flatMap spell) = (lines newline ret xs).map (·.flatMap spell) := by
  have hempty : ∀ p : List α, (p.flatMap spell).isEmpty = p.isEmpty := by
    intro p
    cases p with
    | nil => rfl
    | cons x p => simp [hne x]
  simp only [lines, pieces_flatMap_spell hnewline, List.map_append, List.map_map, List.map_dropLast]
  congr 1
  · congr 1
    apply List.map_congr_left
    intro p _
    exact dropFinal_flatMap_spell hret hne p
  · cases hlast : (pieces newline xs).getLast? with
    | none => simp [hlast]
    | some p => cases hp : p.isEmpty <;> simp [hlast, hempty, hp]

end Spelling

end StackProfiler.Text
