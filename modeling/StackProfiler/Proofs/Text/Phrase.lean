import Mathlib.Data.List.Infix
import StackProfiler.Text.Pieces

/-!
# Phrases in texts that quote

A message is made of fixed parts and of texts that it quotes. If a phrase is found in a message, it
may stand in a fixed part, in a quoted text, or across the border of two parts. A part that fences
the phrase off (`Fences`) lets it not cross: then the phrase stands in the part, or before it, or
behind it (`infix_append_append_iff`). Which fixed parts do this is computed.
-/

namespace StackProfiler.Text

/-- The search for a part finds it exactly if it stands somewhere. -/
theorem holds_iff_isInfix {α : Type} [BEq α] [LawfulBEq α] {part xs : List α} :
    holds part xs = true ↔ part <:+: xs := by
  induction xs with
  | nil => rw [holds, List.isEmpty_iff, List.infix_nil]
  | cons x xs ih =>
    rw [holds, Bool.or_eq_true, List.isPrefixOf_iff_prefix, ih, List.infix_cons_iff]

variable {α : Type}

/-- A part that a phrase cannot cross the borders of: no beginning of the phrase stands at its end,
no end of the phrase at its start, and the phrase does not contain it. -/
structure Fences (part phrase : List α) : Prop where
  atEnd : ∀ n < phrase.length, n ≠ 0 → ¬phrase.take n <:+ part
  atStart : ∀ n < phrase.length, n ≠ 0 → ¬phrase.drop n <+: part
  notWithin : ¬part <:+: phrase

instance [DecidableEq α] (part phrase : List α) : Decidable (Fences part phrase) :=
  decidable_of_iff
    ((∀ n < phrase.length, n ≠ 0 → ¬phrase.take n <:+ part) ∧
      (∀ n < phrase.length, n ≠ 0 → ¬phrase.drop n <+: part) ∧ ¬part <:+: phrase)
    ⟨fun ⟨atEnd, atStart, notWithin⟩ => ⟨atEnd, atStart, notWithin⟩,
      fun h => ⟨h.atEnd, h.atStart, h.notWithin⟩⟩

namespace Fences

variable {part phrase start rest after : List α}

/-- A beginning of the phrase that stands at the end of the part is empty or the whole phrase. -/
theorem nil_of_suffix (h : Fences part phrase) (hphrase : phrase = start ++ rest)
    (hstart : start <:+ part) : start = [] ∨ rest = [] := by
  subst hphrase
  by_contra hboth
  obtain ⟨hne, hrest⟩ := not_or.mp hboth
  apply h.atEnd start.length
  · simpa using List.length_pos_of_ne_nil hrest
  · simpa using hne
  · rwa [List.take_left]

/-- An end of the phrase that the part starts with is empty or the whole phrase, even if it reaches
behind the part. -/
theorem nil_of_prefix (h : Fences part phrase) (hphrase : phrase = start ++ rest)
    (hrest : rest <+: part ++ after) : start = [] ∨ rest = [] := by
  subst hphrase
  by_contra hboth
  obtain ⟨hstart, hne⟩ := not_or.mp hboth
  -- the longer one of the two beginnings of the text goes on with what the other one leaves
  obtain hinside | hbeyond := List.prefix_or_prefix_of_prefix hrest (List.prefix_append part after)
  · apply h.atStart start.length
    · simpa using List.length_pos_of_ne_nil hne
    · simpa using hstart
    · rwa [List.drop_left]
  · exact h.notWithin (hbeyond.isInfix.trans (List.suffix_append start rest).isInfix)

theorem infix_part_append_iff (h : Fences part phrase) :
    phrase <:+: part ++ after ↔ phrase <:+: part ∨ phrase <:+: after := by
  rw [List.infix_append_iff]
  constructor
  · rintro (hpart | hafter | ⟨start, rest, hphrase, hstart, hrest⟩)
    · exact .inl hpart
    · exact .inr hafter
    · obtain rfl | rfl := h.nil_of_suffix hphrase hstart
      · exact .inr (by simpa [hphrase] using hrest.isInfix)
      · exact .inl (by simpa [hphrase] using hstart.isInfix)
  · rintro (hpart | hafter)
    · exact .inl hpart
    · exact .inr (.inl hafter)

/-- A phrase that is fenced off stands in the part, before it, or behind it. -/
theorem infix_append_append_iff (h : Fences part phrase) (before after : List α) :
    phrase <:+: before ++ (part ++ after) ↔
      phrase <:+: before ∨ phrase <:+: part ∨ phrase <:+: after := by
  rw [List.infix_append_iff, h.infix_part_append_iff]
  constructor
  · rintro (hbefore | hbehind | ⟨start, rest, hphrase, hstart, hrest⟩)
    · exact .inl hbefore
    · exact .inr hbehind
    · obtain rfl | rfl := h.nil_of_prefix hphrase hrest
      · refine .inr (h.infix_part_append_iff.mp ?_)
        simpa [hphrase] using hrest.isInfix
      · exact .inl (by simpa [hphrase] using hstart.isInfix)
  · rintro (hbefore | hbehind)
    · exact .inl hbefore
    · exact .inr (.inl hbehind)

end Fences

end StackProfiler.Text
