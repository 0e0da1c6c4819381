import StackProfiler.Proofs.FrameTree.Built

/-!
# Where a path is counted

A node that has taken its fill counts the paths of further names at its child `[other]`, so a path
is counted at the nodes of a route that depends on the tree (`FrameTree.extended_route`). Whatever
is inserted, the nodes of a tree stay where they are and keep their numbers, and a full node takes
no child but `[other]` (`FrameTree.persists_insertAll`). So a path that has been counted is always
counted at the same nodes (`FrameTree.Settled.route_eq`).
-/

namespace StackProfiler

namespace FrameTree

open CallTree

variable {config : TreeConfig} {count maxChildren : Nat} {t t' u u' : CallTree FrameCounts}
variable {growth growth' : TreeGrowth} {name : String} {names : List String}

/-! ## Section 1: The child that stands for a name -/

/-- Whether a name comes too late for a child of its own: there is none, and no room for one. -/
def isLate (maxChildren : Nat) (t : CallTree FrameCounts) (name : String) : Bool :=
  (t.child? name).isNone && decide (maxChildren ≤ t.children.length)

/-- The name of the child that stands for a name. -/
def standIn (maxChildren : Nat) (t : CallTree FrameCounts) (name : String) : String :=
  if isLate maxChildren t name then otherName else name

theorem isLate_iff : isLate maxChildren t name = true ↔
    t.child? name = none ∧ maxChildren ≤ t.children.length := by
  simp [isLate]

theorem isLate_of_child?_isSome (h : (t.child? name).isSome) :
    isLate maxChildren t name = false := by
  rw [isLate, Option.isNone_eq_false_iff.mpr h, Bool.false_and]

/-- A name without a child that does not come too late finds room for one. -/
theorem length_lt_of_not_isLate (h : isLate maxChildren t name = false)
    (hnone : t.child? name = none) : t.children.length < maxChildren := by
  apply Nat.not_le.mp
  intro hfull
  rw [isLate_iff.mpr ⟨hnone, hfull⟩] at h
  cases h

theorem standIn_of_isLate (h : isLate maxChildren t name = true) :
    standIn maxChildren t name = otherName :=
  if_pos h

theorem standIn_of_not_isLate (h : isLate maxChildren t name = false) :
    standIn maxChildren t name = name := by
  rw [standIn, h, if_neg Bool.false_ne_true]

/-- A late name only shares a child if it is not the name of that child itself. -/
theorem standIn_otherName (maxChildren : Nat) (t : CallTree FrameCounts) :
    standIn maxChildren t otherName = otherName :=
  ite_self _

/-- A full node sends no name to a new child but `[other]`. -/
theorem standIn_ne {other : String} (hfull : maxChildren ≤ t.children.length)
    (hother : other ≠ otherName) (hnone : t.child? other = none) (name : String) :
    standIn maxChildren t name ≠ other := by
  rintro rfl
  cases hlate : isLate maxChildren t name with
  | false =>
    rw [standIn_of_not_isLate hlate] at hnone
    exact absurd hfull (Nat.not_le.mpr (length_lt_of_not_isLate hlate hnone))
  | true => exact hother (standIn_of_isLate hlate)

/-- The node as it is after it has been asked for a name: marked if the name came too late. -/
def asked (maxChildren : Nat) (t : CallTree FrameCounts) (name : String) :
    CallTree FrameCounts :=
  t.withLabel { t.label with collapsed := t.label.collapsed || isLate maxChildren t name }

/--
**Asking a node for a name** leads to the child that stands for it. The node is marked, and noted
once, if the name came too late.
-/
theorem exists_childFor_eq (config : TreeConfig) (t : CallTree FrameCounts) (growth : TreeGrowth)
    (name : String) :
    ∃ noted : TreeGrowth, childFor config t growth name =
        stepTo (asked config.maxChildren t name) noted (standIn config.maxChildren t name) ∧
      noted.size = growth.size ∧
      noted.collapsedAt.length = growth.collapsedAt.length +
        if isLate config.maxChildren t name && !t.label.collapsed then 1 else 0 := by
  cases hlate : isLate config.maxChildren t name with
  | false =>
    have hasked : asked config.maxChildren t name = t := by
      rw [asked, hlate, Bool.or_false]
      exact withLabel_self t
    refine ⟨growth, ?_, rfl, by simp⟩
    rw [hasked, standIn_of_not_isLate hlate, childFor]
    split
    case isTrue => rfl
    case isFalse habsent =>
      -- there is no such child, so there is room for one
      have hroom : t.children.length < config.maxChildren :=
        length_lt_of_not_isLate hlate (Option.not_isSome_iff_eq_none.mp habsent)
      rw [if_neg (Nat.not_le.mpr hroom)]
  | true =>
    obtain ⟨habsent, hfull⟩ := isLate_iff.mp hlate
    have hchild : ¬(t.child? name).isSome = true := by simp [habsent]
    rw [standIn_of_isLate hlate, childFor, if_neg hchild, if_pos hfull, asked, hlate, Bool.or_true]
    cases hmarked : t.label.collapsed with
    | true =>
      refine ⟨growth, ?_, rfl, by simp⟩
      have hself : t.withLabel { t.label with collapsed := true } = t := by
        rw [← hmarked]
        exact withLabel_self t
      simp only [markCollapsed, if_pos hmarked, hself]
    | false =>
      refine ⟨{ growth with collapsedAt := growth.collapsedAt ++ [t.name] }, ?_, rfl, by simp⟩
      simp only [markCollapsed, hmarked, if_neg Bool.false_ne_true]

/-- The step leads to the child of that name, which is new if there is none. -/
theorem childFor_spec (config : TreeConfig) (t : CallTree FrameCounts) (growth : TreeGrowth)
    (name : String) :
    (childFor config t growth name).child.name = standIn config.maxChildren t name ∧
      (childFor config t growth name).parent = asked config.maxChildren t name ∧
      (childFor config t growth name).growth.collapsedAt.length = growth.collapsedAt.length +
        if isLate config.maxChildren t name && !t.label.collapsed then 1 else 0 := by
  obtain ⟨noted, heq, -, hlength⟩ := exists_childFor_eq config t growth name
  obtain ⟨hname, hparent, hcollapsed⟩ :=
    stepTo_spec (asked config.maxChildren t name) noted (standIn config.maxChildren t name)
  rw [heq]
  exact ⟨hname, hparent, hcollapsed ▸ hlength⟩

/-- A child that is there already is the one that the step leads to, and no node is new. -/
theorem childFor_of_child? (h : t.child? (standIn config.maxChildren t name) = some u)
    (growth : TreeGrowth) :
    (childFor config t growth name).child = u ∧
      (childFor config t growth name).growth.size = growth.size := by
  obtain ⟨noted, heq, hsize, -⟩ := exists_childFor_eq config t growth name
  have hchild : (asked config.maxChildren t name).child?
      (standIn config.maxChildren t name) = some u := h
  rw [heq, stepTo, hchild]
  exact ⟨rfl, hsize⟩

/-- Inserting beneath a node inserts the rest of the path beneath the child that stands for its
first name, and then puts this child in its place. -/
theorem exists_of_insertBelow_asked
    (h : insertBelow config count (name :: names) t growth = .ok (t', growth')) :
    ∃ child', insertBelow config count names ((childFor config t growth name).counted count)
        (childFor config t growth name).growth = .ok (child', growth') ∧
      child'.name = standIn config.maxChildren t name ∧
      t' = (asked config.maxChildren t name).putChild child' := by
  obtain ⟨child', hrest, rfl⟩ := exists_of_insertBelow_cons h
  obtain ⟨hname, hparent, -⟩ := childFor_spec config t growth name
  exact ⟨child', hrest, (kept_of_insertBelow hrest).1.trans hname, by rw [hparent]⟩

theorem childFor_mem_or_leaf (config : TreeConfig) (t : CallTree FrameCounts)
    (growth : TreeGrowth) (name : String) :
    (childFor config t growth name).child ∈ t.children ∨
      (childFor config t growth name).child.children = [] := by
  cases (isStep_childFor config t growth name).reached with
  | existing hchild _ _ => exact .inl (List.mem_of_find?_eq_some hchild)
  | fresh _ heq _ _ =>
    rw [heq]
    exact .inr rfl

/-- Beneath the child that the step leads to, all siblings are in order. -/
theorem isOrdered_counted (config : TreeConfig) (h : t.IsOrdered) (growth : TreeGrowth)
    (name : String) (count : Nat) : ((childFor config t growth name).counted count).IsOrdered := by
  rcases childFor_mem_or_leaf config t growth name with hmem | hleaf
  · have hchild := h.of_mem hmem
    exact isOrdered_of_children hchild.children fun u hu => hchild.of_mem hu
  · refine isOrdered_of_children ?_ fun u hu => ?_
    · rw [Step.counted, children_withLabel, hleaf]
      exact .nil
    · rw [Step.counted, children_withLabel, hleaf] at hu
      exact absurd hu List.not_mem_nil

/-! ## Section 2: Routes -/

/-- The names of the nodes that a path is counted at. -/
def route (maxChildren : Nat) : CallTree FrameCounts → List String → List String
  | _, [] => []
  | t, name :: names =>
    let own := standIn maxChildren t name
    own :: route maxChildren ((t.child? own).getD (.node own { index := 0, depth := 0 } [])) names

/-- The route goes by what there is beneath a node, not by its label. -/
theorem route_withLabel (t : CallTree FrameCounts) (label : FrameCounts) (names : List String) :
    route maxChildren (t.withLabel label) names = route maxChildren t names := by
  cases names with
  | nil => rfl
  | cons => rfl

theorem route_cons_of_child? (h : t.child? (standIn maxChildren t name) = some u)
    (names : List String) :
    route maxChildren t (name :: names) =
      standIn maxChildren t name :: route maxChildren u names := by
  simp only [route, h, Option.getD_some]

/-- The route goes on in the child that the step leads to. -/
theorem route_cons (config : TreeConfig) (t : CallTree FrameCounts) (growth : TreeGrowth)
    (count : Nat) (name : String) (names : List String) :
    route config.maxChildren t (name :: names) = standIn config.maxChildren t name ::
      route config.maxChildren ((childFor config t growth name).counted count) names := by
  obtain ⟨hname, -, -⟩ := childFor_spec config t growth name
  rw [Step.counted, route_withLabel]
  cases (isStep_childFor config t growth name).reached with
  | existing hchild _ _ =>
    rw [hname] at hchild
    exact route_cons_of_child? hchild names
  | fresh hchild heq _ _ =>
    -- new nodes differ in their labels only
    rw [hname] at hchild
    have hleaf : (childFor config t growth name).child =
        (.node (standIn config.maxChildren t name) { index := 0, depth := 0 } [] :
          CallTree FrameCounts).withLabel
            { index := growth.size, depth := t.label.depth + 1 } := by
      rw [heq, hname]
      rfl
    rw [hleaf, route_withLabel]
    simp only [route, hchild, Option.getD_none]

/-- Marking a node does not count anything. -/
theorem Extended.of_withLabel {label : FrameCounts}
    (h : Extended count names (t.withLabel label) t')
    (hinclusive : label.inclusive = t.label.inclusive)
    (hself : label.selfCount = t.label.selfCount) : Extended count names t t' := by
  refine ⟨h.name_eq, h.inclusive_eq.trans hinclusive, fun path => ?_, fun path hpath => ?_,
    fun path => ?_⟩
  · rw [h.isSome_iff, isSome_find?_withLabel]
  · rw [h.inclusiveAt_eq path hpath, valueAt_withLabel_of_ne_nil _ _ _ hpath]
  · rw [h.selfAt_eq, valueAt_withLabel hself]

/-- **Inserting beneath a node** counts the path along its route. -/
theorem extended_route (h : insertBelow config count names t growth = .ok (t', growth')) :
    Extended count (route config.maxChildren t names) t t' := by
  induction names generalizing t growth t' with
  | nil =>
    obtain ⟨rfl, -⟩ := eq_of_insertBelow_nil h
    exact .leaf count t
  | cons name names ih =>
    obtain ⟨child', hrest, -, rfl⟩ := exists_of_insertBelow_asked h
    have hchild := ih hrest
    obtain ⟨noted, heq, -, -⟩ := exists_childFor_eq config t growth name
    rw [route_cons config t growth count]
    rw [heq] at hchild ⊢
    exact hchild.putChild.of_withLabel rfl rfl

/-! ## Section 3: Nodes persist -/

/-- A node after further insertions: full, it takes no child but `[other]`. -/
structure Kept (maxChildren : Nat) (u u' : CallTree FrameCounts) : Prop where
  index_eq : u'.label.index = u.label.index
  length_le : u.children.length ≤ u'.children.length
  absent : maxChildren ≤ u.children.length → ∀ name ≠ otherName,
    u.child? name = none → u'.child? name = none

/-- A tree after further insertions: its nodes are where they were. -/
def Persists (maxChildren : Nat) (t t' : CallTree FrameCounts) : Prop :=
  ∀ path u, t.find? path = some u → ∃ u', t'.find? path = some u' ∧ Kept maxChildren u u'

theorem Kept.refl (u : CallTree FrameCounts) : Kept maxChildren u u :=
  ⟨rfl, Nat.le_refl _, fun _ _ _ h => h⟩

theorem Kept.trans {u'' : CallTree FrameCounts} (h : Kept maxChildren u u')
    (h' : Kept maxChildren u' u'') : Kept maxChildren u u'' :=
  ⟨h'.index_eq.trans h.index_eq, Nat.le_trans h.length_le h'.length_le, fun hfull name hne hnone =>
    h'.absent (Nat.le_trans hfull h.length_le) name hne (h.absent hfull name hne hnone)⟩

/-- A name is stood for by the same child as before if that child is there. -/
theorem Kept.standIn_eq (h : Kept maxChildren u u')
    (hchild : (u'.child? (standIn maxChildren u name)).isSome) :
    standIn maxChildren u' name = standIn maxChildren u name := by
  cases hlate : isLate maxChildren u name with
  | false =>
    rw [standIn_of_not_isLate hlate] at hchild ⊢
    exact standIn_of_not_isLate (isLate_of_child?_isSome hchild)
  | true =>
    rw [standIn_of_isLate hlate]
    by_cases hother : name = otherName
    · rw [hother, standIn_otherName]
    · -- the node was full and still is, and it has not taken the name
      obtain ⟨habsent, hfull⟩ := isLate_iff.mp hlate
      exact standIn_of_isLate (isLate_iff.mpr
        ⟨h.absent hfull name hother habsent, Nat.le_trans hfull h.length_le⟩)

namespace Persists

theorem refl (t : CallTree FrameCounts) : Persists maxChildren t t :=
  fun _ u hfind => ⟨u, hfind, .refl u⟩

theorem trans {t'' : CallTree FrameCounts} (h : Persists maxChildren t t')
    (h' : Persists maxChildren t' t'') : Persists maxChildren t t'' := by
  intro path u hfind
  obtain ⟨u', hfind', hkept⟩ := h path u hfind
  obtain ⟨u'', hfind'', hkept'⟩ := h' path u' hfind'
  exact ⟨u'', hfind'', hkept.trans hkept'⟩

theorem kept (h : Persists maxChildren t t') : Kept maxChildren t t' := by
  obtain ⟨u', hfind, hkept⟩ := h [] t rfl
  cases hfind
  exact hkept

/-- What is beneath a node persists with the node. -/
theorem beneath (h : Persists maxChildren t t') {place : List String}
    (hfind : t.find? place = some u) :
    ∃ u', t'.find? place = some u' ∧ Persists maxChildren u u' := by
  obtain ⟨u', hfind', -⟩ := h place u hfind
  refine ⟨u', hfind', fun path v hv => ?_⟩
  obtain ⟨v', hv', hkept⟩ := h (place ++ path) v (by rw [find?_append, hfind]; exact hv)
  rw [find?_append, hfind'] at hv'
  exact ⟨v', hv', hkept⟩

theorem child (h : Persists maxChildren t t') (hchild : t.child? name = some u) :
    ∃ u', t'.child? name = some u' ∧ Persists maxChildren u u' := by
  rw [← find?_singleton] at hchild
  obtain ⟨u', hfind, hbeneath⟩ := h.beneath hchild
  exact ⟨u', find?_singleton t' name ▸ hfind, hbeneath⟩

theorem withLabel {label : FrameCounts} (hindex : label.index = t.label.index) :
    Persists maxChildren t (t.withLabel label) := by
  intro path u hfind
  cases path with
  | nil =>
    cases hfind
    exact ⟨_, rfl, hindex, Nat.le_refl _, fun _ _ _ h => h⟩
  | cons name names => exact ⟨u, hfind, .refl u⟩

/-- Only what is beneath the child that is put in its place changes. -/
theorem putChild {child : CallTree FrameCounts} (hkept : Kept maxChildren t (t.putChild child))
    (hchild : ∀ u, t.child? child.name = some u → Persists maxChildren u child) :
    Persists maxChildren t (t.putChild child) := by
  intro path u hfind
  cases path with
  | nil =>
    cases hfind
    exact ⟨_, rfl, hkept⟩
  | cons next path =>
    rw [find?_putChild_cons]
    by_cases hnext : child.name = next
    · subst hnext
      obtain ⟨v, hv, hbelow⟩ := Option.bind_eq_some_iff.mp hfind
      rw [if_pos rfl]
      exact hchild v hv path u hbelow
    · rw [if_neg hnext]
      exact ⟨u, hfind, .refl u⟩

end Persists

/-- **What is inserted beneath a node** leaves all nodes where they were. -/
theorem persists_insertBelow (h : insertBelow config count names t growth = .ok (t', growth')) :
    Persists config.maxChildren t t' := by
  induction names generalizing t growth t' with
  | nil =>
    obtain ⟨rfl, -⟩ := eq_of_insertBelow_nil h
    exact .withLabel rfl
  | cons name names ih =>
    obtain ⟨child', hrest, hname, rfl⟩ := exists_of_insertBelow_asked h
    have hmarked : Persists config.maxChildren t (asked config.maxChildren t name) := .withLabel rfl
    refine hmarked.trans (.putChild ⟨rfl, ?_, fun hfull other hother hnone => ?_⟩ fun u hu => ?_)
    · exact length_le_length_place child' _
    · have hne : child'.name ≠ other := hname ▸ standIn_ne hfull hother hnone name
      rw [child?_putChild, if_neg hne]
      exact hnone
    · have hchild : t.child? (standIn config.maxChildren t name) = some u := hname ▸ hu
      obtain ⟨rfl, -⟩ := childFor_of_child? hchild growth
      have hcounted : Persists config.maxChildren (childFor config t growth name).child
          ((childFor config t growth name).counted count) := .withLabel rfl
      exact hcounted.trans (ih hrest)

variable {tree tree' : FrameTree} {path : List String}

theorem persists_insert (h : tree.insert path count = .ok tree') :
    Persists tree.config.maxChildren tree.root tree'.root ∧ tree'.config = tree.config := by
  rcases cases_of_insert h with ⟨rfl, -⟩ | ⟨-, -, root, growth, hbelow, -, rfl⟩
  · exact ⟨.refl _, rfl⟩
  · exact ⟨(persists_insertBelow hbelow).trans (.withLabel rfl), rfl⟩

/-- **Whatever is inserted**, all nodes stay where they were, and full nodes stay full. -/
theorem persists_insertAll {paths : List (List String × Nat)}
    (h : tree.insertAll paths = .ok tree') :
    Persists tree.config.maxChildren tree.root tree'.root ∧ tree'.config = tree.config := by
  induction paths generalizing tree with
  | nil =>
    cases h
    exact ⟨.refl _, rfl⟩
  | cons entry paths ih =>
    obtain ⟨tree₁, hfirst, hrest⟩ := exists_of_insertAll_cons h
    obtain ⟨hpersists₁, hconfig₁⟩ := persists_insert hfirst
    obtain ⟨hpersists₂, hconfig₂⟩ := ih hrest
    rw [hconfig₁] at hpersists₂
    exact ⟨hpersists₁.trans hpersists₂, hconfig₂.trans hconfig₁⟩

/-! ## Section 4: Routes persist -/

/-- A path that would be counted at nodes that are there. -/
def Settled (maxChildren : Nat) (t : CallTree FrameCounts) (names : List String) : Prop :=
  (t.find? (route maxChildren t names)).isSome

/-- The first of the nodes is the child that stands for the first name. -/
theorem Settled.exists_child (h : Settled maxChildren t (name :: names)) :
    ∃ u, t.child? (standIn maxChildren t name) = some u ∧ Settled maxChildren u names := by
  obtain ⟨v, hv⟩ := Option.isSome_iff_exists.mp h
  obtain ⟨u, hchild, hbelow⟩ := Option.bind_eq_some_iff.mp hv
  refine ⟨u, hchild, ?_⟩
  rw [hchild] at hbelow
  exact Option.isSome_iff_exists.mpr ⟨v, hbelow⟩

/-- **The route of a settled path** stays the same. -/
theorem Settled.route_eq (h : Settled maxChildren t names) (hpersists : Persists maxChildren t t') :
    route maxChildren t' names = route maxChildren t names := by
  induction names generalizing t t' with
  | nil => rfl
  | cons name names ih =>
    obtain ⟨u, hchild, hbelow⟩ := h.exists_child
    obtain ⟨u', hchild', hbeneath⟩ := hpersists.child hchild
    have hstand := hpersists.kept.standIn_eq (Option.isSome_iff_exists.mpr ⟨u', hchild'⟩)
    rw [route_cons_of_child? hchild, route_cons_of_child? (hstand ▸ hchild'), hstand,
      ih hbelow hbeneath]

theorem Settled.of_persists (h : Settled maxChildren t names)
    (hpersists : Persists maxChildren t t') : Settled maxChildren t' names := by
  obtain ⟨u, hfind⟩ := Option.isSome_iff_exists.mp h
  obtain ⟨u', hfind', -⟩ := hpersists _ u hfind
  rw [Settled, h.route_eq hpersists]
  exact Option.isSome_iff_exists.mpr ⟨u', hfind'⟩

/-- The nodes that a path has been counted at are the ones of its route afterwards. -/
theorem route_insertBelow (h : insertBelow config count names t growth = .ok (t', growth')) :
    route config.maxChildren t' names = route config.maxChildren t names := by
  induction names generalizing t growth t' with
  | nil => rfl
  | cons name names ih =>
    have hkept := (persists_insertBelow h).kept
    obtain ⟨child', hrest, hname, rfl⟩ := exists_of_insertBelow_asked h
    have hchild : ((asked config.maxChildren t name).putChild child').child?
        (standIn config.maxChildren t name) = some child' := by
      rw [child?_putChild, if_pos hname]
    have hstand := hkept.standIn_eq (Option.isSome_iff_exists.mpr ⟨child', hchild⟩)
    rw [route_cons_of_child? (hstand ▸ hchild), hstand, route_cons config t growth count, ih hrest]

/-- **A path that has been counted** is settled. -/
theorem settled_insertBelow (h : insertBelow config count names t growth = .ok (t', growth')) :
    Settled config.maxChildren t' names := by
  rw [Settled, route_insertBelow h, (extended_route h).isSome_iff]
  exact .inr (List.prefix_refl _)

/-- **Counting a settled path** creates no node. -/
theorem Settled.size_eq (hsettled : Settled config.maxChildren t names)
    (h : insertBelow config count names t growth = .ok (t', growth')) :
    growth'.size = growth.size := by
  induction names generalizing t growth t' with
  | nil => rw [(eq_of_insertBelow_nil h).2]
  | cons name names ih =>
    obtain ⟨child', hrest, -⟩ := exists_of_insertBelow_cons h
    obtain ⟨u, hchild, hbelow⟩ := hsettled.exists_child
    obtain ⟨rfl, hsize⟩ := childFor_of_child? hchild growth
    have hcounted : Settled config.maxChildren ((childFor config t growth name).counted count)
        names :=
      hbelow.of_persists (.withLabel rfl)
    rw [ih hcounted hrest, hsize]

/-! ## Section 5: The bound on children -/

/-- Every node has a bounded number of children with names of their own. -/
def WithinCap (maxChildren : Nat) (t : CallTree FrameCounts) : Prop :=
  ∀ u ∈ t.preorder, u.children.countP (·.name != otherName) ≤ maxChildren

theorem withinCap_iff : WithinCap maxChildren t ↔
    t.children.countP (·.name != otherName) ≤ maxChildren ∧
      ∀ u ∈ t.children, WithinCap maxChildren u := by
  constructor
  · intro h
    refine ⟨h t (mem_preorder_self t), fun u hu v hv => h v ?_⟩
    rw [preorder_eq]
    exact List.mem_cons_of_mem _ (mem_preorderAll.mpr ⟨u, hu, hv⟩)
  · rintro ⟨hself, hchildren⟩ u hu
    rw [preorder_eq] at hu
    rcases List.mem_cons.mp hu with rfl | hu
    · exact hself
    · obtain ⟨v, hv, huv⟩ := mem_preorderAll.mp hu
      exact hchildren v hv u huv

theorem WithinCap.withLabel (h : WithinCap maxChildren t) (label : FrameCounts) :
    WithinCap maxChildren (t.withLabel label) := by
  rw [withinCap_iff] at h ⊢
  exact h

theorem withinCap_of_leaf (h : t.children = []) : WithinCap maxChildren t := by
  rw [withinCap_iff, h]
  exact ⟨Nat.zero_le _, fun u hu => absurd hu List.not_mem_nil⟩

/-- Only one of several siblings can be `[other]`. -/
theorem countP_otherName_le {ts : List (CallTree FrameCounts)} (h : Ordered ts) :
    ts.countP (·.name == otherName) ≤ 1 := by
  have hnodup : (ts.map (·.name)).Nodup := List.pairwise_map.mpr (h.imp String.ne_of_lt)
  have hcount := List.nodup_iff_count_le_one.mp hnodup otherName
  rw [List.count, List.countP_map] at hcount
  exact hcount

theorem WithinCap.length_le (h : WithinCap maxChildren t) (hordered : t.IsOrdered)
    (hu : u ∈ t.preorder) : u.children.length ≤ maxChildren + 1 := by
  have hown := h u hu
  have hother := countP_otherName_le (hordered u hu)
  have hnot : (fun u : CallTree FrameCounts => decide ¬(u.name == otherName) = true) =
      (·.name != otherName) := by
    funext u
    rw [Bool.eq_iff_iff]
    simp
  rw [List.length_eq_countP_add_countP (·.name == otherName), hnot]
  omega

/-- **Inserting beneath a node** adds a child of its own only where there is room. -/
theorem WithinCap.insertBelow (hcap : WithinCap config.maxChildren t) (hordered : t.IsOrdered)
    (h : insertBelow config count names t growth = .ok (t', growth')) :
    WithinCap config.maxChildren t' := by
  induction names generalizing t growth t' with
  | nil =>
    obtain ⟨rfl, -⟩ := eq_of_insertBelow_nil h
    exact hcap.withLabel _
  | cons name names ih =>
    obtain ⟨child', hrest, hname, rfl⟩ := exists_of_insertBelow_asked h
    obtain ⟨hself, hchildren⟩ := withinCap_iff.mp hcap
    rw [withinCap_iff]
    refine ⟨?_, fun u hu => ?_⟩
    · -- a new child has a name of its own only if it was not too late
      have hcount := hordered.children.countP_place child' (· != otherName)
      rw [hname] at hcount
      refine Nat.le_trans (Nat.le_of_eq hcount) ?_
      cases hlate : isLate config.maxChildren t name with
      | true =>
        rw [standIn_of_isLate hlate]
        simpa using hself
      | false =>
        rw [standIn_of_not_isLate hlate]
        split
        case isTrue => exact hself
        case isFalse habsent =>
          have hroom : t.children.length < config.maxChildren :=
            length_lt_of_not_isLate hlate (Option.not_isSome_iff_eq_none.mp habsent)
          have hle : t.children.countP (·.name != otherName) ≤ t.children.length :=
            List.countP_le_length
          split <;> omega
    · rcases eq_or_mem_of_mem_place hu with rfl | hu
      · refine ih (WithinCap.withLabel ?_ _) (isOrdered_counted config hordered growth name count)
          hrest
        rcases childFor_mem_or_leaf config t growth name with hmem | hleaf
        · exact hchildren _ hmem
        · exact withinCap_of_leaf hleaf
      · exact hchildren u hu

theorem WithinCap.insert (hcap : WithinCap tree.config.maxChildren tree.root)
    (hordered : tree.root.IsOrdered) (h : tree.insert path count = .ok tree') :
    WithinCap tree.config.maxChildren tree'.root := by
  rcases cases_of_insert h with ⟨rfl, -⟩ | ⟨-, -, root, growth, hbelow, -, rfl⟩
  · exact hcap
  · exact (hcap.insertBelow hordered hbelow).withLabel _

/-- **Whatever is inserted**, no node takes more children than it may. -/
theorem WithinCap.insertAll {total : Nat} {paths : List (List String × Nat)}
    (hcap : WithinCap tree.config.maxChildren tree.root) (hcounted : Counted tree total)
    (h : tree.insertAll paths = .ok tree') : WithinCap tree.config.maxChildren tree'.root := by
  induction paths generalizing tree total with
  | nil =>
    cases h
    exact hcap
  | cons entry paths ih =>
    obtain ⟨path, count⟩ := entry
    obtain ⟨tree₁, hfirst, hrest⟩ := exists_of_insertAll_cons h
    have hcap₁ := hcap.insert hcounted.isOrdered hfirst
    rw [← (persists_insert hfirst).2] at hcap₁ ⊢
    exact ih hcap₁ (hcounted.of_insert hfirst) hrest

end FrameTree

end StackProfiler
