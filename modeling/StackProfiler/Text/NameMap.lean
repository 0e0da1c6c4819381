import Std.Data.ExtTreeMap

/-!
# Maps keyed by names

What a map with names for keys lists: every name once, so that a sum over the list is the part of
one name and the parts of all others.
-/

namespace StackProfiler.NameMap

variable {K V : Type}

/-- What the values of some entries number, added up. -/
def totalOf (number : V → Nat) : List (K × V) → Nat
  | [] => 0
  | (_, value) :: entries => number value + totalOf number entries

theorem totalOf_append (number : V → Nat) (xs ys : List (K × V)) :
    totalOf number (xs ++ ys) = totalOf number xs + totalOf number ys := by
  induction xs with
  | nil => exact (Nat.zero_add _).symm
  | cons x xs ih =>
    rw [List.cons_append, totalOf, totalOf, ih, Nat.add_assoc]

theorem totalOf_perm (number : V → Nat) {xs ys : List (K × V)} (h : xs.Perm ys) :
    totalOf number xs = totalOf number ys := by
  induction h with
  | nil => rfl
  | cons x _ ih => rw [totalOf, totalOf, ih]
  | swap x y xs => exact Nat.add_left_comm ..
  | trans _ _ ih ih' => exact ih.trans ih'

variable (m : Std.ExtTreeMap String V compare)

theorem nodup_toList : m.toList.Nodup := by
  refine Std.ExtTreeMap.distinct_keys_toList.imp fun {x y} hne heq => ?_
  rw [heq] at hne
  exact hne Std.ReflCmp.compare_self

/-- A map lists what it has under a name, and what is left without that name. -/
theorem toList_perm (name : String) :
    m.toList.Perm (m[name]?.toList.map (name, ·) ++ (m.erase name).toList) := by
  have hname : ∀ value, (name, value) ∉ (m.erase name).toList := by
    intro value hmem
    rw [Std.ExtTreeMap.mem_toList_iff_getElem?_eq_some, Std.ExtTreeMap.getElem?_erase_self] at hmem
    cases hmem
  refine (List.perm_ext_iff_of_nodup (nodup_toList m) ?_).mpr ?_
  · cases m[name]? with
    | none => exact nodup_toList _
    | some value => exact List.nodup_cons.mpr ⟨hname value, nodup_toList _⟩
  · rintro ⟨name', value⟩
    by_cases h : name = name'
    · subst h
      simp [hname, Std.ExtTreeMap.mem_toList_iff_getElem?_eq_some]
    · simp [h, Std.ExtTreeMap.mem_toList_iff_getElem?_eq_some, Std.ExtTreeMap.getElem?_erase]

/-- What a map lists adds up to what it has under a name and what is left without that name. -/
theorem totalOf_toList (number : V → Nat) (name : String) :
    totalOf number m.toList =
      (m[name]?.map number).getD 0 + totalOf number (m.erase name).toList := by
  rw [totalOf_perm number (toList_perm m name), totalOf_append]
  cases m[name]? <;> rfl

/-- A name whose value is replaced contributes the new value in place of the old one. -/
theorem totalOf_toList_alter (number : V → Nat) (name : String) (f : Option V → Option V) :
    totalOf number (m.alter name f).toList + (m[name]?.map number).getD 0 =
      totalOf number m.toList + ((f m[name]?).map number).getD 0 := by
  have hrest : (m.alter name f).erase name = m.erase name := by
    refine Std.ExtTreeMap.ext_getElem? fun name' => ?_
    rw [Std.ExtTreeMap.getElem?_erase, Std.ExtTreeMap.getElem?_erase, Std.ExtTreeMap.getElem?_alter]
    split <;> rfl
  rw [totalOf_toList (m.alter name f) number name, hrest, Std.ExtTreeMap.getElem?_alter_self,
    totalOf_toList m number name]
  omega

end StackProfiler.NameMap
