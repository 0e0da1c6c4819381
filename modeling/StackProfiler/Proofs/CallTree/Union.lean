import Mathlib.Algebra.BigOperators.Group.List.Basic
import Mathlib.Algebra.GroupWithZero.Nat
import Mathlib.Algebra.Order.Group.Nat
import StackProfiler.Proofs.CallTree.Relabel

/-!
# What stands at a path of a union

The union of two call trees in order holds at every path what the two trees hold there
(`CallTree.find?_union`): nothing, a relabelled copy of one of them, or the union of both. Its nodes
stand in order again (`CallTree.IsOrdered.union`), and it is as high as the higher of the two.
-/

namespace StackProfiler.CallTree

variable {α β γ : Type}

/-! ## Section 1: Unions of what may be absent -/

/-- The union of two nodes, each of which may be absent. -/
def unionOption (f : Nat → Option α → Option β → γ) (depth : Nat) :
    Option (CallTree α) → Option (CallTree β) → Option (CallTree γ)
  | none, none => none
  | some t, none => some (t.map (fun d a => f d (some a) none) depth)
  | none, some u => some (u.map (fun d b => f d none (some b)) depth)
  | some t, some u => some (union f depth t u)

variable (f : Nat → Option α → Option β → γ)

theorem isSome_unionOption (depth : Nat) (t : Option (CallTree α)) (u : Option (CallTree β)) :
    (unionOption f depth t u).isSome ↔ t.isSome ∨ u.isSome := by
  cases t <;> cases u <;> simp [unionOption]

@[simp]
theorem name_union (depth : Nat) (t : CallTree α) (u : CallTree β) :
    (union f depth t u).name = t.name := by
  cases t
  cases u
  rw [union]
  rfl

@[simp]
theorem label_union (depth : Nat) (t : CallTree α) (u : CallTree β) :
    (union f depth t u).label = f depth (some t.label) (some u.label) := by
  cases t
  cases u
  rw [union]
  rfl

@[simp]
theorem children_union (depth : Nat) (t : CallTree α) (u : CallTree β) :
    (union f depth t u).children = unionAll f (depth + 1) t.children u.children := by
  cases t
  cases u
  rw [union]
  rfl

/-- The label of a node in a union is computed from those of the nodes that there are. -/
theorem label_of_unionOption {depth : Nat} {t : Option (CallTree α)} {u : Option (CallTree β)}
    {v : CallTree γ} (h : unionOption f depth t u = some v) :
    v.label = f depth (t.map label) (u.map label) := by
  cases t <;> cases u <;> cases h <;> simp

/-! ## Section 2: Unions of siblings -/

theorem unionAll_nil_left (depth : Nat) (us : List (CallTree β)) :
    unionAll f depth [] us = us.map (map (fun d b => f d none (some b)) depth) := by
  rw [unionAll, mapAll_eq_map]

theorem unionAll_nil_right (depth : Nat) (ts : List (CallTree α)) :
    unionAll f depth ts [] = ts.map (map (fun d a => f d (some a) none) depth) := by
  cases ts with
  | nil => rw [unionAll]; rfl
  | cons t ts => rw [unionAll, mapAll_eq_map]; exact List.cons_ne_nil _ _

/-- Induction over two lists of siblings along their names. -/
theorem siblings_induction {motive : List (CallTree α) → List (CallTree β) → Prop}
    (left : ∀ us, motive [] us) (right : ∀ ts, motive ts [])
    (first : ∀ t ts u us, t.name < u.name → motive ts (u :: us) → motive (t :: ts) (u :: us))
    (second : ∀ t ts u us, u.name < t.name → motive (t :: ts) us → motive (t :: ts) (u :: us))
    (both : ∀ t ts u us, t.name = u.name → motive ts us → motive (t :: ts) (u :: us))
    (ts : List (CallTree α)) (us : List (CallTree β)) : motive ts us := by
  induction ts generalizing us with
  | nil => exact left us
  | cons t ts iht =>
    induction us with
    | nil => exact right _
    | cons u us ihu =>
      by_cases hlt : t.name < u.name
      · exact first t ts u us hlt (iht (u :: us))
      · by_cases hgt : u.name < t.name
        · exact second t ts u us hgt ihu
        · exact both t ts u us (String.le_antisymm (String.not_lt.mp hgt) (String.not_lt.mp hlt))
            (iht us)

theorem unionAll_of_lt {depth : Nat} {t : CallTree α} {u : CallTree β} (ts : List (CallTree α))
    (us : List (CallTree β)) (h : t.name < u.name) :
    unionAll f depth (t :: ts) (u :: us) =
      t.map (fun d a => f d (some a) none) depth :: unionAll f depth ts (u :: us) := by
  rw [unionAll, if_pos h]

theorem unionAll_of_gt {depth : Nat} {t : CallTree α} {u : CallTree β} (ts : List (CallTree α))
    (us : List (CallTree β)) (h : u.name < t.name) :
    unionAll f depth (t :: ts) (u :: us) =
      u.map (fun d b => f d none (some b)) depth :: unionAll f depth (t :: ts) us := by
  rw [unionAll, if_neg (String.lt_asymm h), if_pos h]

theorem unionAll_of_eq {depth : Nat} {t : CallTree α} {u : CallTree β} (ts : List (CallTree α))
    (us : List (CallTree β)) (h : t.name = u.name) :
    unionAll f depth (t :: ts) (u :: us) = union f depth t u :: unionAll f depth ts us := by
  rw [unionAll, h, if_neg (String.lt_irrefl _), if_neg (String.lt_irrefl _)]

theorem find?_cons_of_ne {t : CallTree α} {ts : List (CallTree α)} {name : String}
    (h : t.name ≠ name) :
    (t :: ts).find? (·.name == name) = ts.find? (·.name == name) :=
  List.find?_cons_of_neg (by simpa using h)

/-- Nobody among siblings in order has a name before that of the first one. -/
theorem Ordered.find?_eq_none_of_lt {t : CallTree α} {ts : List (CallTree α)}
    (h : Ordered (t :: ts)) {name : String} (hlt : name < t.name) :
    (t :: ts).find? (·.name == name) = none := by
  apply List.find?_eq_none.mpr
  intro u hu hname
  rw [beq_iff_eq] at hname
  rcases List.mem_cons.mp hu with rfl | hu
  · exact String.ne_of_lt hlt hname.symm
  · exact String.ne_of_lt (String.lt_trans hlt ((List.pairwise_cons.mp h).1 u hu)) hname.symm

/-- **Among siblings**, a name leads to the union of what it leads to on both sides. -/
theorem find?_unionAll (depth : Nat) {ts : List (CallTree α)} {us : List (CallTree β)}
    (hts : Ordered ts) (hus : Ordered us) (name : String) :
    (unionAll f depth ts us).find? (·.name == name) =
      unionOption f depth (ts.find? (·.name == name)) (us.find? (·.name == name)) := by
  induction ts, us using siblings_induction with
  | left us =>
    rw [unionAll_nil_left, ← mapAll_eq_map, find?_mapAll, List.find?_nil]
    cases us.find? (·.name == name) <;> rfl
  | right ts =>
    rw [unionAll_nil_right, ← mapAll_eq_map, find?_mapAll, List.find?_nil]
    cases ts.find? (·.name == name) <;> rfl
  | first t ts u us hlt ih =>
    rw [unionAll_of_lt f ts us hlt]
    by_cases hname : t.name = name
    · -- the name comes before all names on the other side
      rw [hus.find?_eq_none_of_lt (hname ▸ hlt)]
      simp [hname, unionOption]
    · have hskip : (t.map (fun d a => f d (some a) none) depth).name ≠ name := by
        rwa [name_map]
      rw [find?_cons_of_ne hskip, find?_cons_of_ne hname]
      exact ih (List.pairwise_cons.mp hts).2 hus
  | second t ts u us hgt ih =>
    rw [unionAll_of_gt f ts us hgt]
    by_cases hname : u.name = name
    · rw [hts.find?_eq_none_of_lt (hname ▸ hgt)]
      simp [hname, unionOption]
    · have hskip : (u.map (fun d b => f d none (some b)) depth).name ≠ name := by
        rwa [name_map]
      rw [find?_cons_of_ne hskip, find?_cons_of_ne hname]
      exact ih hts (List.pairwise_cons.mp hus).2
  | both t ts u us heq ih =>
    rw [unionAll_of_eq f ts us heq]
    by_cases hname : t.name = name
    · simp [hname, heq ▸ hname, unionOption]
    · have hskip : (union f depth t u).name ≠ name := by rwa [name_union]
      rw [find?_cons_of_ne hskip, find?_cons_of_ne hname, find?_cons_of_ne (heq ▸ hname)]
      exact ih (List.pairwise_cons.mp hts).2 (List.pairwise_cons.mp hus).2

/-- The names in a union of siblings are those on the two sides. -/
theorem exists_of_mem_unionAll (depth : Nat) {ts : List (CallTree α)} {us : List (CallTree β)}
    {v : CallTree γ} (h : v ∈ unionAll f depth ts us) :
    (∃ t ∈ ts, t.name = v.name) ∨ ∃ u ∈ us, u.name = v.name := by
  induction ts, us using siblings_induction with
  | left us =>
    rw [unionAll_nil_left] at h
    obtain ⟨u, hu, rfl⟩ := List.mem_map.mp h
    exact .inr ⟨u, hu, (name_map ..).symm⟩
  | right ts =>
    rw [unionAll_nil_right] at h
    obtain ⟨t, ht, rfl⟩ := List.mem_map.mp h
    exact .inl ⟨t, ht, (name_map ..).symm⟩
  | first t ts u us hlt ih =>
    rw [unionAll_of_lt f ts us hlt] at h
    rcases List.mem_cons.mp h with rfl | h
    · exact .inl ⟨t, List.mem_cons_self, (name_map ..).symm⟩
    · refine (ih h).imp ?_ id
      rintro ⟨t', ht', hname⟩
      exact ⟨t', List.mem_cons_of_mem _ ht', hname⟩
  | second t ts u us hgt ih =>
    rw [unionAll_of_gt f ts us hgt] at h
    rcases List.mem_cons.mp h with rfl | h
    · exact .inr ⟨u, List.mem_cons_self, (name_map ..).symm⟩
    · refine (ih h).imp id ?_
      rintro ⟨u', hu', hname⟩
      exact ⟨u', List.mem_cons_of_mem _ hu', hname⟩
  | both t ts u us heq ih =>
    rw [unionAll_of_eq f ts us heq] at h
    rcases List.mem_cons.mp h with rfl | h
    · exact .inl ⟨t, List.mem_cons_self, (name_union ..).symm⟩
    · refine (ih h).imp ?_ ?_
      · rintro ⟨t', ht', hname⟩
        exact ⟨t', List.mem_cons_of_mem _ ht', hname⟩
      · rintro ⟨u', hu', hname⟩
        exact ⟨u', List.mem_cons_of_mem _ hu', hname⟩

/-- The union of siblings in order is in order. -/
theorem Ordered.unionAll (depth : Nat) {ts : List (CallTree α)} {us : List (CallTree β)}
    (hts : Ordered ts) (hus : Ordered us) : Ordered (unionAll f depth ts us) := by
  induction ts, us using siblings_induction with
  | left us =>
    rw [unionAll_nil_left]
    exact hus.map _ _
  | right ts =>
    rw [unionAll_nil_right]
    exact hts.map _ _
  | first t ts u us hlt ih =>
    obtain ⟨hhead, htail⟩ := List.pairwise_cons.mp hts
    rw [unionAll_of_lt f ts us hlt]
    refine List.pairwise_cons.mpr ⟨fun v hv => ?_, ih htail hus⟩
    rw [name_map]
    rcases exists_of_mem_unionAll f depth hv with ⟨t', ht', hname⟩ | ⟨u', hu', hname⟩
    · exact hname ▸ hhead t' ht'
    · rcases List.mem_cons.mp hu' with rfl | hu'
      · exact hname ▸ hlt
      · exact hname ▸ String.lt_trans hlt ((List.pairwise_cons.mp hus).1 u' hu')
  | second t ts u us hgt ih =>
    obtain ⟨hhead, htail⟩ := List.pairwise_cons.mp hus
    rw [unionAll_of_gt f ts us hgt]
    refine List.pairwise_cons.mpr ⟨fun v hv => ?_, ih hts htail⟩
    rw [name_map]
    rcases exists_of_mem_unionAll f depth hv with ⟨t', ht', hname⟩ | ⟨u', hu', hname⟩
    · rcases List.mem_cons.mp ht' with rfl | ht'
      · exact hname ▸ hgt
      · exact hname ▸ String.lt_trans hgt ((List.pairwise_cons.mp hts).1 t' ht')
    · exact hname ▸ hhead u' hu'
  | both t ts u us heq ih =>
    obtain ⟨hhead, htail⟩ := List.pairwise_cons.mp hts
    obtain ⟨hhead', htail'⟩ := List.pairwise_cons.mp hus
    rw [unionAll_of_eq f ts us heq]
    refine List.pairwise_cons.mpr ⟨fun v hv => ?_, ih htail htail'⟩
    rw [name_union]
    rcases exists_of_mem_unionAll f depth hv with ⟨t', ht', hname⟩ | ⟨u', hu', hname⟩
    · exact hname ▸ hhead t' ht'
    · exact hname ▸ heq ▸ hhead' u' hu'

/-- A number that is a sum of what the two sides contribute to it sums over siblings. -/
theorem sum_unionAll {number : γ → Nat} {left : α → Nat} {right : β → Nat} (depth : Nat)
    (hnumber : ∀ x y, number (f depth x y) = (x.map left).getD 0 + (y.map right).getD 0)
    (ts : List (CallTree α)) (us : List (CallTree β)) :
    ((unionAll f depth ts us).map (number ·.label)).sum =
      (ts.map (left ·.label)).sum + (us.map (right ·.label)).sum := by
  induction ts, us using siblings_induction with
  | left us => simp [unionAll_nil_left, hnumber, Function.comp_def]
  | right ts => simp [unionAll_nil_right, hnumber, Function.comp_def]
  | first t ts u us hlt ih =>
    rw [unionAll_of_lt f ts us hlt, List.map_cons, List.sum_cons, ih, label_map, hnumber]
    simp [Nat.add_assoc]
  | second t ts u us hgt ih =>
    rw [unionAll_of_gt f ts us hgt, List.map_cons, List.sum_cons, ih, label_map, hnumber]
    simp [Nat.add_left_comm]
  | both t ts u us heq ih =>
    rw [unionAll_of_eq f ts us heq, List.map_cons, List.sum_cons, ih, label_union, hnumber]
    simp [Nat.add_assoc, Nat.add_left_comm]

/-- Beneath a node of a union, the numbers sum as beneath the nodes that it stands for. -/
theorem sum_children_of_unionOption {number : γ → Nat} {left : α → Nat} {right : β → Nat}
    (hnumber : ∀ depth x y,
      number (f depth x y) = (x.map left).getD 0 + (y.map right).getD 0)
    {depth : Nat} {t : Option (CallTree α)} {u : Option (CallTree β)} {v : CallTree γ}
    (h : unionOption f depth t u = some v) :
    (v.children.map (number ·.label)).sum =
      (t.map fun t => (t.children.map (left ·.label)).sum).getD 0 +
        (u.map fun u => (u.children.map (right ·.label)).sum).getD 0 := by
  cases t <;> cases u <;> cases h
  · simp [hnumber, Function.comp_def]
  · simp [hnumber, Function.comp_def]
  · rw [children_union]
    exact sum_unionAll f _ (hnumber _) _ _

/-! ## Section 3: Unions of trees -/

/-- **At every path**, the union of two trees in order holds what the two trees hold there. -/
theorem find?_union (depth : Nat) {t : CallTree α} {u : CallTree β} (ht : t.IsOrdered)
    (hu : u.IsOrdered) (path : List String) :
    (union f depth t u).find? path =
      unionOption f (depth + path.length) (t.find? path) (u.find? path) := by
  induction path generalizing depth t u with
  | nil => rfl
  | cons name path ih =>
    have hdepth : depth + (name :: path).length = depth + 1 + path.length := by
      rw [List.length_cons]
      omega
    have hchild : (union f depth t u).child? name =
        unionOption f (depth + 1) (t.child? name) (u.child? name) := by
      rw [child?, children_union, find?_unionAll f _ ht.children hu.children]
      rfl
    rw [find?, find?, find?, hchild, hdepth]
    cases ht' : t.child? name with
    | none =>
      cases hu' : u.child? name with
      | none => rfl
      | some u' =>
        simp only [unionOption, Option.bind_some, find?_map]
        cases u'.find? path <;> rfl
    | some t' =>
      cases hu' : u.child? name with
      | none =>
        simp only [unionOption, Option.bind_some, find?_map]
        cases t'.find? path <;> rfl
      | some u' =>
        exact ih (depth + 1) (ht.of_mem (List.mem_of_find?_eq_some ht'))
          (hu.of_mem (List.mem_of_find?_eq_some hu'))

/-- The union of trees in order is in order. -/
theorem IsOrdered.union (depth : Nat) {t : CallTree α} {u : CallTree β} (ht : t.IsOrdered)
    (hu : u.IsOrdered) : (union f depth t u).IsOrdered := by
  induction t using induction_on generalizing depth u with
  | h t ih =>
    refine isOrdered_of_children ?_ ?_
    · rw [children_union]
      exact ht.children.unionAll f _ hu.children
    · intro v hv
      rw [children_union] at hv
      -- a child of the union is the union of what its name leads to
      have hfind := (ht.children.unionAll f (depth + 1) hu.children).find?_eq_some_iff.mpr ⟨hv, rfl⟩
      rw [find?_unionAll f _ ht.children hu.children] at hfind
      cases ht' : t.children.find? (·.name == v.name) with
      | none =>
        cases hu' : u.children.find? (·.name == v.name) with
        | none => rw [ht', hu'] at hfind; cases hfind
        | some u' =>
          rw [ht', hu'] at hfind
          cases hfind
          exact (hu.of_mem (List.mem_of_find?_eq_some hu')).map _ _
      | some t' =>
        have hmem := List.mem_of_find?_eq_some ht'
        cases hu' : u.children.find? (·.name == v.name) with
        | none =>
          rw [ht', hu'] at hfind
          cases hfind
          exact (ht.of_mem hmem).map _ _
        | some u' =>
          rw [ht', hu'] at hfind
          cases hfind
          exact ih t' hmem _ (ht.of_mem hmem) (hu.of_mem (List.mem_of_find?_eq_some hu'))

/-- A union of siblings is as high as the higher side, if the unions of two nodes are. -/
theorem heightAll_unionAll (depth : Nat) {ts : List (CallTree α)} (us : List (CallTree β))
    (h : ∀ t ∈ ts, ∀ u, (union f depth t u).height = max t.height u.height) :
    heightAll (unionAll f depth ts us) = max (heightAll ts) (heightAll us) := by
  induction ts, us using siblings_induction with
  | left us =>
    rw [unionAll_nil_left, heightAll_map fun u _ => height_map ..]
    simp [heightAll]
  | right ts =>
    rw [unionAll_nil_right, heightAll_map fun t _ => height_map ..]
    simp [heightAll]
  | first t ts u us hlt ih =>
    have hrest := ih (List.forall_mem_cons.mp h).2
    simp only [unionAll_of_lt f ts us hlt, heightAll, height_map] at hrest ⊢
    omega
  | second t ts u us hgt ih =>
    have hrest := ih h
    simp only [unionAll_of_gt f ts us hgt, heightAll, height_map] at hrest ⊢
    omega
  | both t ts u us heq ih =>
    obtain ⟨hnode, hts⟩ := List.forall_mem_cons.mp h
    simp only [unionAll_of_eq f ts us heq, heightAll, ih hts, hnode u]
    omega

/-- **The union is as high** as the higher of the two trees. -/
theorem height_union (depth : Nat) (t : CallTree α) (u : CallTree β) :
    (union f depth t u).height = max t.height u.height := by
  induction t using induction_on generalizing depth u with
  | h t ih =>
    rw [height_eq, height_eq t, height_eq u, children_union]
    exact heightAll_unionAll f _ _ fun v hv u => ih v hv (depth + 1) u

end StackProfiler.CallTree
