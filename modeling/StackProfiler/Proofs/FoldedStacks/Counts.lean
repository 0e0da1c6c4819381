import Mathlib.Algebra.BigOperators.Group.List.Basic
import Mathlib.Algebra.GroupWithZero.Nat
import Mathlib.Data.List.Nodup
import StackProfiler.FoldedStacks.Basic

/-!
# What a folded profile counts

A profile into which counted paths were put one after the other holds, for every path, the sum of
the counts given to it, and nothing else (`FoldedStacks.Records`). Adding a path keeps this up
(`FoldedStacks.Records.addPath`), so a profile depends on what was put in and not on the order
(`FoldedStacks.Records.eq_of_perm`).
-/

namespace StackProfiler

/-! ## Section 1: Sums of words -/

namespace Checked

private theorem foldlM_add_eq_ok_iff {bits a c : Nat} {ns : List Nat} (ha : a < wordLimit bits) :
    ns.foldlM (add bits) a = .ok c ↔ a + ns.sum = c ∧ a + ns.sum < wordLimit bits := by
  induction ns generalizing a with
  | nil =>
    rw [List.foldlM_nil, List.sum_nil, Nat.add_zero]
    exact ⟨fun h => ⟨Except.ok.inj h, ha⟩, fun h => congrArg Except.ok h.1⟩
  | cons n ns ih =>
    rw [List.foldlM_cons, List.sum_cons]
    by_cases hfit : a + n < wordLimit bits
    · rw [add_eq_ok_iff.mpr ⟨rfl, hfit⟩]
      exact (ih hfit).trans (by rw [Nat.add_assoc])
    · -- a partial sum that leaves the word already stops the computation
      have herror : add bits a n = .error .overflow := by rw [add, fit, if_neg hfit]
      rw [herror]
      refine ⟨fun h => (nomatch h), fun h => ?_⟩
      omega

/-- **The sum of words** is their sum, provided that it fits. -/
theorem sum_eq_ok_iff {bits c : Nat} {ns : List Nat} :
    sum bits ns = .ok c ↔ ns.sum = c ∧ ns.sum < wordLimit bits := by
  have hzero : 0 < wordLimit bits := Nat.two_pow_pos bits
  have hfold : ns.foldlM (add bits) 0 = .ok c ↔ 0 + ns.sum = c ∧ 0 + ns.sum < wordLimit bits :=
    foldlM_add_eq_ok_iff hzero
  simpa [sum] using hfold

end Checked

/-! ## Section 2: Counted paths -/

/-- What is counted for a path among several counted paths. -/
def weightOf (path : String) (entries : List (String × Nat)) : Nat :=
  ((entries.filter (·.1 == path)).map Prod.snd).sum

/-- Sum of the counts of all paths but the empty one. -/
def totalWeight (entries : List (String × Nat)) : Nat :=
  ((entries.filter (!·.1.isEmpty)).map Prod.snd).sum

theorem weightOf_append (path : String) (entries entries' : List (String × Nat)) :
    weightOf path (entries ++ entries') = weightOf path entries + weightOf path entries' := by
  simp [weightOf]

theorem weightOf_singleton (path path' : String) (count : Nat) :
    weightOf path [(path', count)] = if path' = path then count else 0 := by
  by_cases h : path' = path <;> simp [weightOf, h]

theorem weightOf_eq_of_perm (path : String) {entries entries' : List (String × Nat)}
    (h : entries.Perm entries') : weightOf path entries = weightOf path entries' :=
  ((h.filter _).map _).sum_eq

theorem totalWeight_append (entries entries' : List (String × Nat)) :
    totalWeight (entries ++ entries') = totalWeight entries + totalWeight entries' := by
  simp [totalWeight]

theorem totalWeight_singleton (path : String) (count : Nat) :
    totalWeight [(path, count)] = if path = "" then 0 else count := by
  by_cases h : path = "" <;> simp [totalWeight, h]

/-- A single path weighs no more than all of them together. -/
theorem weightOf_le_totalWeight {path : String} (hpath : path ≠ "")
    (entries : List (String × Nat)) : weightOf path entries ≤ totalWeight entries := by
  induction entries with
  | nil => exact Nat.le_refl 0
  | cons entry entries ih =>
    obtain ⟨path', count⟩ := entry
    rw [← List.singleton_append, weightOf_append, totalWeight_append, weightOf_singleton,
      totalWeight_singleton]
    refine Nat.add_le_add ?_ ih
    by_cases h : path' = path
    · subst h
      simp [hpath]
    · simp [h]

/-- Several observations of one each: a path weighs as much as it was observed. -/
theorem weightOf_map_one {α : Type} (pathOf : α → String) (path : String) (xs : List α) :
    weightOf path (xs.map fun x => (pathOf x, 1)) = xs.countP (pathOf · == path) := by
  induction xs with
  | nil => rfl
  | cons x xs ih =>
    rw [List.map_cons, ← List.singleton_append, weightOf_append, weightOf_singleton, ih,
      List.countP_cons]
    simp only [beq_iff_eq]
    omega

theorem totalWeight_map_one {α : Type} (pathOf : α → String) (xs : List α) :
    totalWeight (xs.map fun x => (pathOf x, 1)) = xs.countP (pathOf · != "") := by
  induction xs with
  | nil => rfl
  | cons x xs ih =>
    rw [List.map_cons, ← List.singleton_append, totalWeight_append, totalWeight_singleton, ih,
      List.countP_cons]
    by_cases h : pathOf x = "" <;> simp [h, Nat.add_comm]

namespace FoldedStacks

/-! ## Section 3: The sum of all counts -/

/-- Sum of all counts, as a number without bounds. -/
def total (f : FoldedStacks) : Nat :=
  (f.toList.map Prod.snd).sum

theorem totalSamples_eq_ok {f : FoldedStacks} (h : f.total < wordLimit 64) :
    f.totalSamples = .ok f.total :=
  Checked.sum_eq_ok_iff.mpr ⟨rfl, h⟩

theorem mem_toList_iff {f : FoldedStacks} {path : String} {count : Nat} :
    (path, count) ∈ f.toList ↔ f.counts[path]? = some count :=
  Std.ExtTreeMap.mem_toList_iff_getElem?_eq_some

/-- The paths of a profile are listed once each. -/
theorem nodup_map_fst_toList (f : FoldedStacks) : (f.toList.map Prod.fst).Nodup := by
  rw [toList, Std.ExtTreeMap.map_fst_toList_eq_keys]
  exact Std.ExtTreeMap.nodup_keys

theorem nodup_toList (f : FoldedStacks) : f.toList.Nodup :=
  List.Nodup.of_map Prod.fst f.nodup_map_fst_toList

theorem countOf_eq (f : FoldedStacks) (path : String) :
    f.countOf path = f.counts[path]?.getD 0 :=
  Std.ExtTreeMap.getD_eq_getD_getElem?

/-- A profile is one path with its count, if it is there, and all the others. -/
private theorem toList_perm (f : FoldedStacks) (path : String) :
    f.toList.Perm
      (f.counts[path]?.toList.map (path, ·) ++ f.toList.filter (·.1 != path)) := by
  -- no path is listed twice, so it is enough to compare members
  rw [List.perm_ext_iff_of_nodup f.nodup_toList]
  · rintro ⟨path', count⟩
    by_cases h : path' = path
    · subst h
      simp [mem_toList_iff]
    · simp [h, Ne.symm h]
  · have hothers := f.nodup_toList.filter (·.1 != path)
    cases hget : f.counts[path]? with
    | none => exact hothers
    | some count => simpa using hothers

private theorem total_eq (f : FoldedStacks) (path : String) :
    f.total = f.countOf path + ((f.toList.filter (·.1 != path)).map Prod.snd).sum := by
  rw [total, ((f.toList_perm path).map Prod.snd).sum_eq, countOf_eq]
  cases f.counts[path]? <;> simp

/-- What is listed for a path is its count. -/
theorem weightOf_toList (f : FoldedStacks) (path : String) :
    weightOf path f.toList = f.countOf path := by
  have hothers : weightOf path (f.toList.filter (·.1 != path)) = 0 := by
    have hnone : (f.toList.filter (·.1 != path)).filter (·.1 == path) = [] := by
      rw [List.filter_filter]
      apply List.filter_eq_nil_iff.mpr
      intro entry _
      simp
    rw [weightOf, hnone]
    rfl
  rw [weightOf_eq_of_perm path (f.toList_perm path), weightOf_append, hothers, countOf_eq]
  cases f.counts[path]? <;> simp [weightOf]

/-- The profile with another count for one path. -/
def setCount (f : FoldedStacks) (path : String) (count : Nat) : FoldedStacks :=
  { f with counts := f.counts.insert path count }

theorem getElem?_setCount (f : FoldedStacks) (path path' : String) (count : Nat) :
    (f.setCount path count).counts[path']? =
      if path = path' then some count else f.counts[path']? := by
  rw [setCount, Std.ExtTreeMap.getElem?_insert]
  simp only [Std.LawfulEqCmp.compare_eq_iff_eq]

/-- Setting a count leaves the sum of the other counts as it was. -/
theorem total_setCount (f : FoldedStacks) (path : String) (count : Nat) :
    (f.setCount path count).total + f.countOf path = f.total + count := by
  -- the other paths are the same, and each side is a sum of theirs and one count more
  have hothers : ((f.setCount path count).toList.filter (·.1 != path)).Perm
      (f.toList.filter (·.1 != path)) := by
    rw [List.perm_ext_iff_of_nodup ((nodup_toList _).filter _) ((nodup_toList _).filter _)]
    rintro ⟨path', count'⟩
    simp only [List.mem_filter, mem_toList_iff, getElem?_setCount, bne_iff_ne]
    by_cases h : path = path'
    · simp [h]
    · simp [h]
  have hset : (f.setCount path count).countOf path = count := by
    rw [countOf_eq, getElem?_setCount, if_pos rfl]
    rfl
  rw [total_eq (f.setCount path count) path, hset, (hothers.map Prod.snd).sum_eq, total_eq f path]
  omega

/-! ## Section 4: Profiles of counted paths -/

/-- The profile holds what the given counted paths add up to. -/
structure Records (f : FoldedStacks) (entries : List (String × Nat)) : Prop where
  getElem?_counts : ∀ path, f.counts[path]? =
    if path = "" ∨ weightOf path entries = 0 then none else some (weightOf path entries)
  total_eq : f.total = totalWeight entries

namespace Records

variable {f g : FoldedStacks} {entries entries' : List (String × Nat)}

theorem empty : Records FoldedStacks.empty [] := by
  constructor
  · intro path
    have hweight : weightOf path [] = 0 := rfl
    rw [if_pos (.inr hweight)]
    exact Std.ExtTreeMap.getElem?_empty
  · rfl

/-- Skipping a line changes nothing of what is held. -/
theorem skipLine (h : Records f entries) : Records f.skipLine entries :=
  ⟨h.getElem?_counts, h.total_eq⟩

/-- Every path but the empty one has its weight. -/
theorem countOf_eq (h : Records f entries) {path : String} (hpath : path ≠ "") :
    f.countOf path = weightOf path entries := by
  rw [FoldedStacks.countOf_eq, h.getElem?_counts]
  by_cases hzero : weightOf path entries = 0 <;> simp [hpath, hzero]

theorem countOf_empty (h : Records f entries) : f.countOf "" = 0 := by
  rw [FoldedStacks.countOf_eq, h.getElem?_counts, if_pos (.inl rfl)]
  rfl

/-- An empty path or a zero count changes nothing. -/
private theorem append_ignored (h : Records f entries) {path : String} {count : Nat}
    (hignored : path = "" ∨ count = 0) : Records f (entries ++ [(path, count)]) := by
  have hweight : ∀ path' ≠ "", weightOf path' (entries ++ [(path, count)]) =
      weightOf path' entries := by
    intro path' hpath'
    rw [weightOf_append, weightOf_singleton]
    rcases hignored with rfl | rfl
    · rw [if_neg hpath'.symm, Nat.add_zero]
    · simp
  constructor
  · intro path'
    rw [h.getElem?_counts]
    by_cases hpath' : path' = ""
    · simp [hpath']
    · rw [hweight path' hpath']
  · rw [h.total_eq, totalWeight_append, totalWeight_singleton]
    rcases hignored with rfl | rfl <;> simp

private theorem setCount (h : Records f entries) {path : String} {count : Nat} (hpath : path ≠ "")
    (hcount : count ≠ 0) :
    Records (f.setCount path (f.countOf path + count)) (entries ++ [(path, count)]) := by
  constructor
  · intro path'
    rw [getElem?_setCount, h.getElem?_counts, h.countOf_eq hpath, weightOf_append,
      weightOf_singleton]
    by_cases heq : path = path'
    · subst heq
      have hsum : weightOf path entries + count ≠ 0 := by omega
      rw [if_pos rfl, if_pos rfl, if_neg (not_or.mpr ⟨hpath, hsum⟩)]
    · simp [heq]
  · have htotal := total_setCount f path (f.countOf path + count)
    rw [totalWeight_append, totalWeight_singleton, if_neg hpath, ← h.total_eq]
    omega

/--
**Adding a path** extends what a profile holds, and says whether anything was added, provided that
the new count of the path fits in a word.
-/
theorem addPath (h : Records f entries) (path : String) (count : Nat)
    (hfit : path ≠ "" → weightOf path (entries ++ [(path, count)]) < wordLimit 64) :
    ∃ f', f.addPath path count = .ok (decide (path ≠ "" ∧ count ≠ 0), f') ∧
      Records f' (entries ++ [(path, count)]) ∧ f'.skippedLines = f.skippedLines := by
  by_cases hignored : path = "" ∨ count = 0
  · refine ⟨f, ?_, h.append_ignored hignored, rfl⟩
    have hguard : (path.isEmpty || count == 0) = true := by simpa using hignored
    -- the guard is what says that nothing is added
    have hadded : ¬(path ≠ "" ∧ count ≠ 0) := by tauto
    rw [FoldedStacks.addPath, if_pos hguard, decide_eq_false hadded]
  · obtain ⟨hpath, hcount⟩ := not_or.mp hignored
    refine ⟨f.setCount path (f.countOf path + count), ?_, h.setCount hpath hcount, rfl⟩
    have hguard : ¬(path.isEmpty || count == 0) = true := by simpa using hignored
    have hsum : f.countOf path + count < wordLimit 64 := by
      -- the new count is the new weight of the path
      have hweight := hfit hpath
      rwa [weightOf_append, weightOf_singleton, if_pos rfl, ← h.countOf_eq hpath] at hweight
    rw [FoldedStacks.addPath, if_neg hguard, Checked.add_eq_ok_iff.mpr ⟨rfl, hsum⟩,
      decide_eq_true ⟨hpath, hcount⟩]
    rfl

/-- Whatever was added is part of what the profile holds. -/
theorem of_addPath (h : Records f entries) {path : String} {count : Nat} {added : Bool}
    {f' : FoldedStacks} (hadd : f.addPath path count = .ok (added, f')) :
    Records f' (entries ++ [(path, count)]) ∧ f'.skippedLines = f.skippedLines := by
  by_cases hignored : path = "" ∨ count = 0
  · have hguard : (path.isEmpty || count == 0) = true := by simpa using hignored
    rw [FoldedStacks.addPath, if_pos hguard] at hadd
    cases hadd
    exact ⟨h.append_ignored hignored, rfl⟩
  · obtain ⟨hpath, hcount⟩ := not_or.mp hignored
    have hguard : ¬(path.isEmpty || count == 0) = true := by simpa using hignored
    rw [FoldedStacks.addPath, if_neg hguard, Checked.bind_eq_ok_iff] at hadd
    obtain ⟨sum, hsum, hadd⟩ := hadd
    cases hadd
    obtain ⟨rfl, -⟩ := Checked.add_eq_ok_iff.mp hsum
    exact ⟨h.setCount hpath hcount, rfl⟩

/-- What is listed was put in: a path with its weight. -/
theorem of_mem_toList (h : Records f entries) {path : String} {count : Nat}
    (hmem : (path, count) ∈ f.toList) : path ≠ "" ∧ 0 < count ∧ ∃ n, (path, n) ∈ entries := by
  rw [mem_toList_iff, h.getElem?_counts] at hmem
  split at hmem
  case isTrue => contradiction
  case isFalse hkept =>
    cases hmem
    obtain ⟨hpath, hweight⟩ := not_or.mp hkept
    refine ⟨hpath, Nat.pos_of_ne_zero hweight, ?_⟩
    by_contra hnone
    -- a path that was not put in weighs nothing
    apply hweight
    have hempty : entries.filter (·.1 == path) = [] := by
      rw [List.filter_eq_nil_iff]
      rintro ⟨path', n⟩ hmem heq
      exact hnone ⟨n, beq_iff_eq.mp heq ▸ hmem⟩
    rw [weightOf, hempty]
    rfl

/-- A profile holds what it lists. -/
theorem toList (h : Records f entries) : Records f f.toList := by
  constructor
  · intro path
    rw [weightOf_toList, h.getElem?_counts]
    by_cases hpath : path = ""
    · simp [hpath]
    · rw [h.countOf_eq hpath]
  · have hkept : f.toList.filter (!·.1.isEmpty) = f.toList := by
      rw [List.filter_eq_self]
      rintro ⟨path, count⟩ hmem
      simpa using (h.of_mem_toList hmem).1
    rw [totalWeight, hkept]
    rfl

/-- **The order does not matter**: profiles of the same counted paths hold the same. -/
theorem eq_of_perm (hf : Records f entries) (hg : Records g entries')
    (hperm : entries.Perm entries') (hskipped : f.skippedLines = g.skippedLines) : f = g := by
  -- maps that agree at every key are equal
  have hcounts : f.counts = g.counts := by
    apply Std.ExtTreeMap.ext_getElem?
    intro path
    rw [hf.getElem?_counts, hg.getElem?_counts, weightOf_eq_of_perm path hperm]
  cases f
  cases g
  simp_all

end Records

/-! ## Section 5: Profiles that can be built -/

/-- The profiles that can be built: from the empty one, by adding paths and skipping lines. -/
inductive IsBuilt : FoldedStacks → Prop where
  | empty : IsBuilt .empty
  | addPath {f f' : FoldedStacks} {path : String} {count : Nat} {added : Bool} (h : IsBuilt f)
      (hadd : f.addPath path count = .ok (added, f')) : IsBuilt f'
  | skipLine {f : FoldedStacks} (h : IsBuilt f) : IsBuilt f.skipLine

/-- No path of a profile is without observations. -/
theorem IsBuilt.count_pos {f : FoldedStacks} (h : IsBuilt f) {path : String} {count : Nat}
    (hmem : (path, count) ∈ f.toList) : 0 < count := by
  rw [mem_toList_iff] at hmem
  induction h with
  | empty => exact absurd (Std.ExtTreeMap.getElem?_empty.symm.trans hmem) nofun
  | @addPath f f' path' count' added _ hadd ih =>
    unfold FoldedStacks.addPath at hadd
    split at hadd
    case isTrue =>
      cases hadd
      exact ih hmem
    case isFalse hguard =>
      cases hsum : Checked.add 64 (f.countOf path') count' with
      | error fault =>
        rw [hsum] at hadd
        cases hadd
      | ok sum =>
        rw [hsum] at hadd
        cases hadd
        have hget : (f.setCount path' sum).counts[path]? = some count := hmem
        rw [getElem?_setCount] at hget
        split at hget
        · -- the count that was added is not zero
          cases hget
          have hcount : count' ≠ 0 := by
            rintro rfl
            simp at hguard
          obtain ⟨rfl, -⟩ := Checked.add_eq_ok_iff.mp hsum
          omega
        · exact ih hget
  | skipLine _ ih => exact ih hmem

end FoldedStacks

end StackProfiler
