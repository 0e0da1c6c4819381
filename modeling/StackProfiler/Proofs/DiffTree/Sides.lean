import StackProfiler.DiffTree
import StackProfiler.Proofs.CallTree.Union

/-!
# The two sides of a merged node

What stands at one place in two trees is merged into one node, whose children are what the names
lead to on both sides: a name is entered if it leads to something on one side at least
(`DiffTree.Sides.find?_union`), and it is entered with what it leads to on each of them.
-/

namespace StackProfiler.DiffTree.Sides

open CallTree

/-- What the sides are merged into. -/
def union (depth : Nat) (sides : Sides) : Option (CallTree DiffCounts) :=
  unionOption countsOf depth sides.before sides.after

/-- All nodes on both sides have their children in order. -/
structure IsOrdered (sides : Sides) : Prop where
  before : ∀ t, sides.before = some t → t.IsOrdered
  after : ∀ t, sides.after = some t → t.IsOrdered

/-- What a name leads to on both sides. -/
def child (sides : Sides) (name : String) : Sides where
  before := sides.before.bind (·.child? name)
  after := sides.after.bind (·.child? name)

/-- Whether there is anything on one of the sides. -/
def isPresent (sides : Sides) : Bool :=
  sides.before.isSome || sides.after.isSome

variable {sides : Sides} {name : String}

theorem isSome_union (depth : Nat) (sides : Sides) :
    (sides.union depth).isSome = sides.isPresent := by
  obtain ⟨_ | _, _ | _⟩ := sides <;> rfl

theorem IsOrdered.child (h : sides.IsOrdered) (name : String) : (sides.child name).IsOrdered where
  before t ht := by
    obtain ⟨u, hu, hchild⟩ := Option.bind_eq_some_iff.mp ht
    exact (h.before u hu).of_mem (List.mem_of_find?_eq_some hchild)
  after t ht := by
    obtain ⟨u, hu, hchild⟩ := Option.bind_eq_some_iff.mp ht
    exact (h.after u hu).of_mem (List.mem_of_find?_eq_some hchild)

theorem counts_eq_label {depth : Nat} {u : CallTree DiffCounts} (h : sides.union depth = some u) :
    sides.counts depth = u.label :=
  (label_of_unionOption countsOf h).symm

/-- Entered nodes are found under their names, and under other names is what was there. -/
theorem getElem?_enter (set : CallTree FrameCounts → Sides → Sides)
    {ts : List (CallTree FrameCounts)} (hts : Ordered ts)
    (named : Std.ExtTreeMap String Sides compare) (name : String) :
    (enter set named ts)[name]? =
      match ts.find? (·.name == name) with
      | some t => some (set t (named[name]?.getD {}))
      | none => named[name]? := by
  induction ts generalizing named with
  | nil => rfl
  | cons t ts ih =>
    obtain ⟨hhead, htail⟩ := List.pairwise_cons.mp hts
    have hrest := ih htail (named.alter t.name fun sides => some (set t (sides.getD {})))
    rw [enter, List.foldl_cons, ← enter, hrest, Std.ExtTreeMap.getElem?_alter]
    by_cases hname : t.name = name
    · -- no other node has the name
      have hnone : ts.find? (·.name == name) = none := by
        rw [List.find?_eq_none]
        intro u hu hfound
        exact String.ne_of_lt (hhead u hu) (hname.trans (beq_iff_eq.mp hfound).symm)
      rw [hnone]
      simp [hname]
    · rw [find?_cons_of_ne hname, if_neg (by simpa using hname)]

/-- **The children of both sides** are what the names lead to, if it is anything. -/
theorem getElem?_children (h : sides.IsOrdered) (name : String) :
    sides.children[name]? =
      if (sides.child name).isPresent then some (sides.child name) else none := by
  have hordered : ∀ t : Option (CallTree FrameCounts), (∀ u, t = some u → u.IsOrdered) →
      Ordered (t.elim [] (·.children)) := by
    rintro (_ | t) ht
    · exact .nil
    · exact (ht t rfl).children
  have hchild : ∀ t : Option (CallTree FrameCounts),
      (t.elim [] (·.children)).find? (·.name == name) = t.bind (·.child? name) := by
    rintro (_ | t) <;> rfl
  rw [children, getElem?_enter setAfter (hordered _ h.after),
    getElem?_enter setBefore (hordered _ h.before), hchild, hchild, Std.ExtTreeMap.getElem?_empty]
  rw [child]
  cases sides.before.bind (·.child? name) <;> cases sides.after.bind (·.child? name) <;> rfl

/-- What the sides are merged into has for children what their children are merged into. -/
theorem child?_of_union (h : sides.IsOrdered) {depth : Nat} {u : CallTree DiffCounts}
    (hu : sides.union depth = some u) (name : String) :
    u.child? name = (sides.child name).union (depth + 1) := by
  obtain ⟨_ | t, _ | t'⟩ := sides
  · cases hu
  · cases hu
    rw [child?, children_map, ← mapAll_eq_map, find?_mapAll]
    simp only [union, child, Option.bind_none, Option.bind_some, child?]
    cases t'.children.find? (·.name == name) <;> rfl
  · cases hu
    rw [child?, children_map, ← mapAll_eq_map, find?_mapAll]
    simp only [union, child, Option.bind_none, Option.bind_some, child?]
    cases t.children.find? (·.name == name) <;> rfl
  · cases hu
    rw [child?, children_union,
      find?_unionAll _ _ (h.before t rfl).children (h.after t' rfl).children]
    rfl

/-- **What is entered under a name** is merged into the child of that name. -/
theorem getElem?_children_eq_some (h : sides.IsOrdered) {depth : Nat} {u : CallTree DiffCounts}
    (hu : sides.union depth = some u) {below : Sides}
    (hbelow : sides.children[name]? = some below) :
    below.IsOrdered ∧ ∃ v, u.child? name = some v ∧ below.union (depth + 1) = some v := by
  rw [getElem?_children h, ← isSome_union (depth + 1), ← child?_of_union h hu] at hbelow
  cases hchild : u.child? name with
  | none =>
    rw [hchild] at hbelow
    cases hbelow
  | some v =>
    rw [hchild] at hbelow
    cases hbelow
    exact ⟨h.child name, v, rfl, (child?_of_union h hu name).symm.trans hchild⟩

/-- Whatever stands beneath the merged node is entered. -/
theorem isSome_getElem?_children (h : sides.IsOrdered) {depth : Nat} {u v : CallTree DiffCounts}
    (hu : sides.union depth = some u) (hv : u.child? name = some v) :
    (sides.children[name]?).isSome := by
  rw [getElem?_children h, ← isSome_union (depth + 1), ← child?_of_union h hu, hv]
  rfl

end StackProfiler.DiffTree.Sides
