import Mathlib.Algebra.GroupWithZero.Nat
import Mathlib.Algebra.Order.BigOperators.Group.List
import Mathlib.Algebra.Order.Group.Nat
import StackProfiler.FrameTree
import StackProfiler.Proofs.CallTree

/-!
# Inserting into a frame tree

What one insertion does to a tree whose counts add up at every node (`FrameTree.IsSound`), whatever
the bound on children is: it succeeds as long as the counts fit in a word, the counts add up again,
and the new nodes are numbered in the order of their creation (`FrameTree.Grown`).
-/

namespace StackProfiler.FrameTree

open CallTree

variable {config : TreeConfig} {count : Nat} {t t' : CallTree FrameCounts}
variable {growth growth' : TreeGrowth}

/-! ## Section 1: Steps to children -/

/-- A new node for a name, beneath the given one. -/
def freshChild (t : CallTree FrameCounts) (growth : TreeGrowth) (name : String) :
    CallTree FrameCounts :=
  .node name { index := growth.size, depth := t.label.depth + 1 } []

/-- How a step comes to its child: it was there before, or it is new. -/
inductive Reached (t : CallTree FrameCounts) (growth : TreeGrowth) (step : Step) : Prop where
  | existing (hchild : t.child? step.child.name = some step.child)
      (hsize : step.growth.size = growth.size)
      (hdepth : step.growth.maxDepth = growth.maxDepth)
  | fresh (hchild : t.child? step.child.name = none)
      (heq : step.child = freshChild t growth step.child.name)
      (hsize : step.growth.size = growth.size + 1)
      (hdepth : step.growth.maxDepth = max growth.maxDepth (t.label.depth + 1))

/-- A step leaves the node as it was, but perhaps marks it. -/
structure IsStep (t : CallTree FrameCounts) (growth : TreeGrowth) (step : Step) : Prop where
  parent_eq : ∃ collapsed, step.parent = t.withLabel { t.label with collapsed }
  reached : Reached t growth step

theorem withLabel_self (t : CallTree FrameCounts) : t.withLabel t.label = t := by
  cases t
  rfl

theorem isStep_stepTo (t : CallTree FrameCounts) (growth : TreeGrowth) (name : String) :
    IsStep t growth (stepTo t growth name) := by
  unfold stepTo
  cases hchild : t.child? name with
  | some child =>
    have hname : child.name = name := by simpa using List.find?_some hchild
    exact ⟨⟨t.label.collapsed, (withLabel_self t).symm⟩, .existing (hname ▸ hchild) rfl rfl⟩
  | none => exact ⟨⟨t.label.collapsed, (withLabel_self t).symm⟩, .fresh hchild rfl rfl rfl⟩

/-- **A step** is one to the child of some name, whether or not the node has taken its fill. -/
theorem isStep_childFor (config : TreeConfig) (t : CallTree FrameCounts) (growth : TreeGrowth)
    (name : String) : IsStep t growth (childFor config t growth name) := by
  unfold childFor
  split
  · exact isStep_stepTo t growth name
  · split
    · by_cases hmarked : t.label.collapsed = true
      · simp only [markCollapsed, if_pos hmarked]
        exact isStep_stepTo t growth otherName
      · simp only [markCollapsed, if_neg hmarked]
        -- the mark changes neither the children nor what is counted
        obtain ⟨⟨collapsed, hparent⟩, hreached⟩ := isStep_stepTo
          (t.withLabel { t.label with collapsed := true })
          { growth with collapsedAt := growth.collapsedAt ++ [t.name] } otherName
        refine ⟨⟨collapsed, hparent⟩, ?_⟩
        cases hreached with
        | existing hchild hsize hdepth => exact .existing hchild hsize hdepth
        | fresh hchild heq hsize hdepth => exact .fresh hchild heq hsize hdepth
    · exact isStep_stepTo t growth name

/-! ## Section 2: Sound nodes -/

/-- Samples that end in a node or go on to a child of it. -/
def outflow (t : CallTree FrameCounts) : Nat :=
  t.label.selfCount + (t.children.map (·.label.inclusive)).sum

/-- The children of a node are in order, one level deeper, younger and not without samples. -/
structure IsParent (t : CallTree FrameCounts) : Prop where
  ordered : Ordered t.children
  depth_eq : ∀ u ∈ t.children, u.label.depth = t.label.depth + 1
  index_lt : ∀ u ∈ t.children, t.label.index < u.label.index
  inclusive_pos : ∀ u ∈ t.children, 0 < u.label.inclusive

/-- A node whose counts add up. -/
structure IsSound (t : CallTree FrameCounts) : Prop extends IsParent t where
  balanced : t.label.inclusive = outflow t

/-- A node beneath which all counts add up. -/
structure SoundBelow (t : CallTree FrameCounts) : Prop extends IsParent t where
  below : ∀ u ∈ preorderAll t.children, IsSound u

theorem SoundBelow.of_mem (h : SoundBelow t) {u : CallTree FrameCounts} (hu : u ∈ t.children) :
    SoundBelow u ∧ IsSound u := by
  have hsound : ∀ v ∈ u.preorder, IsSound v := fun v hv =>
    h.below v (mem_preorderAll.mpr ⟨u, hu, hv⟩)
  have hself := hsound u (mem_preorder_self u)
  refine ⟨⟨hself.toIsParent, fun v hv => hsound v ?_⟩, hself⟩
  rw [preorder_eq]
  exact List.mem_cons_of_mem _ hv

theorem soundBelow_iff : SoundBelow t ∧ IsSound t ↔ ∀ u ∈ t.preorder, IsSound u := by
  rw [preorder_eq, List.forall_mem_cons]
  exact ⟨fun ⟨hbelow, hsound⟩ => ⟨hsound, hbelow.below⟩,
    fun ⟨hsound, hbelow⟩ => ⟨⟨hsound.toIsParent, hbelow⟩, hsound⟩⟩

theorem isParent_of_leaf (h : t.children = []) : IsParent t := by
  constructor <;> simp [h, Ordered]

/-- A node with other counts of its own is as sound beneath. -/
theorem SoundBelow.withLabel (h : SoundBelow t) {label : FrameCounts}
    (hdepth : label.depth = t.label.depth) (hindex : label.index = t.label.index) :
    SoundBelow (t.withLabel label) where
  ordered := h.ordered
  depth_eq := by
    rw [label_withLabel, hdepth]
    exact h.depth_eq
  index_lt := by
    rw [label_withLabel, hindex]
    exact h.index_lt
  inclusive_pos := h.inclusive_pos
  below := h.below

/-- A node stays sound beneath when a sound child takes its place. -/
theorem SoundBelow.putChild (h : SoundBelow t) {child : CallTree FrameCounts}
    (hbelow : SoundBelow child) (hsound : IsSound child)
    (hdepth : child.label.depth = t.label.depth + 1)
    (hindex : t.label.index < child.label.index) (hpos : 0 < child.label.inclusive) :
    SoundBelow (t.putChild child) := by
  refine ⟨⟨h.ordered.place, ?_, ?_, ?_⟩, ?_⟩
  · intro u hu
    rcases eq_or_mem_of_mem_place hu with rfl | hu
    · exact hdepth
    · exact h.depth_eq u hu
  · intro u hu
    rcases eq_or_mem_of_mem_place hu with rfl | hu
    · exact hindex
    · exact h.index_lt u hu
  · intro u hu
    rcases eq_or_mem_of_mem_place hu with rfl | hu
    · exact hpos
    · exact h.inclusive_pos u hu
  · intro u hu
    obtain ⟨v, hv, huv⟩ := mem_preorderAll.mp hu
    rcases eq_or_mem_of_mem_place hv with rfl | hv
    · exact soundBelow_iff.mp ⟨hbelow, hsound⟩ u huv
    · exact h.below u (mem_preorderAll.mpr ⟨v, hv, huv⟩)

theorem inclusive_le_outflow {u : CallTree FrameCounts} (hu : u ∈ t.children) :
    u.label.inclusive ≤ outflow t := by
  have hmem : u.label.inclusive ∈ t.children.map (·.label.inclusive) :=
    List.mem_map_of_mem hu
  have hle := List.le_sum_of_mem hmem
  unfold outflow
  omega

/-! ## Section 3: What an insertion leaves behind -/

/-- The number and the depth of every node. -/
def stamps (t : CallTree FrameCounts) : List (Nat × Nat) :=
  t.preorder.map fun u => (u.label.index, u.label.depth)

/-- The numbers and depths of the nodes of several trees. -/
def stampsAll (ts : List (CallTree FrameCounts)) : List (Nat × Nat) :=
  ts.flatMap stamps

theorem stamps_eq (t : CallTree FrameCounts) :
    stamps t = (t.label.index, t.label.depth) :: stampsAll t.children := by
  rw [stamps, preorder_eq, List.map_cons, preorderAll_eq_flatMap, List.map_flatMap]
  rfl

theorem stamps_withLabel {label : FrameCounts} (hindex : label.index = t.label.index)
    (hdepth : label.depth = t.label.depth) : stamps (t.withLabel label) = stamps t := by
  rw [stamps_eq, stamps_eq, label_withLabel, children_withLabel, hindex, hdepth]

/-- The numbers and the depths of new nodes, by which a tree has grown. -/
structure Stamped (added : List (Nat × Nat)) (growth growth' : TreeGrowth) : Prop where
  indices : added.map Prod.fst = List.range' growth.size added.length
  size_eq : growth'.size = growth.size + added.length
  maxDepth_eq : growth'.maxDepth = (added.map Prod.snd).foldl max growth.maxDepth

/-- A node through which samples have been inserted beneath it. -/
structure Grown (count : Nat) (t : CallTree FrameCounts) (growth : TreeGrowth)
    (t' : CallTree FrameCounts) (growth' : TreeGrowth) : Prop where
  name_eq : t'.name = t.name
  index_eq : t'.label.index = t.label.index
  depth_eq : t'.label.depth = t.label.depth
  inclusive_eq : t'.label.inclusive = t.label.inclusive
  outflow_eq : outflow t' = outflow t + count
  soundBelow : SoundBelow t'
  stamped : ∃ added, (stamps t').Perm (stamps t ++ added) ∧ Stamped added growth growth'

theorem Stamped.nil (growth : TreeGrowth) : Stamped [] growth growth :=
  ⟨rfl, rfl, rfl⟩

theorem Stamped.cons {added : List (Nat × Nat)} {depth : Nat} {middle : TreeGrowth}
    (hsize : middle.size = growth.size + 1) (hdepth : middle.maxDepth = max growth.maxDepth depth)
    (h : Stamped added middle growth') :
    Stamped ((growth.size, depth) :: added) growth growth' := by
  refine ⟨?_, ?_, ?_⟩
  · rw [List.map_cons, h.indices, hsize]
    rfl
  · rw [h.size_eq, hsize, List.length_cons]
    omega
  · rw [h.maxDepth_eq, hdepth]
    rfl

/-! ## Section 4: One step of an insertion -/

/-- The child that a step comes to is sound, and its samples are among those of the node. -/
theorem IsStep.child_sound {step : Step} (hstep : IsStep t growth step) (h : SoundBelow t) :
    SoundBelow step.child ∧ IsSound step.child ∧ step.child.label.inclusive ≤ outflow t := by
  cases hstep.reached with
  | existing hchild _ _ =>
    have hmem := List.mem_of_find?_eq_some hchild
    obtain ⟨hbelow, hsound⟩ := h.of_mem hmem
    exact ⟨hbelow, hsound, inclusive_le_outflow hmem⟩
  | fresh _ heq _ _ =>
    rw [heq]
    have hparent := isParent_of_leaf (t := freshChild t growth step.child.name) rfl
    refine ⟨⟨hparent, ?_⟩, ⟨hparent, rfl⟩, Nat.zero_le _⟩
    intro u hu
    exact absurd hu List.not_mem_nil

/-- The child stands one level below the node and is younger. -/
theorem IsStep.child_label {step : Step} (hstep : IsStep t growth step) (h : SoundBelow t)
    (hindex : t.label.index < growth.size) :
    step.child.label.depth = t.label.depth + 1 ∧ t.label.index < step.child.label.index := by
  cases hstep.reached with
  | existing hchild _ _ =>
    have hmem := List.mem_of_find?_eq_some hchild
    exact ⟨h.depth_eq _ hmem, h.index_lt _ hmem⟩
  | fresh _ heq _ _ =>
    rw [heq]
    exact ⟨rfl, hindex⟩

/-- The nodes beneath the child that a step comes to have been created by then. -/
theorem IsStep.index_lt {step : Step} (hstep : IsStep t growth step)
    (hindex : ∀ stamp ∈ stamps t, stamp.1 < growth.size) :
    ∀ stamp ∈ stamps step.child, stamp.1 < step.growth.size := by
  intro stamp hstamp
  cases hstep.reached with
  | existing hchild hsize _ =>
    rw [hsize]
    apply hindex
    rw [stamps_eq]
    exact List.mem_cons_of_mem _
      (List.mem_flatMap.mpr ⟨_, List.mem_of_find?_eq_some hchild, hstamp⟩)
  | fresh _ heq hsize _ =>
    rw [heq] at hstamp
    rw [List.mem_singleton.mp hstamp, hsize]
    exact Nat.lt_succ_self _

/-- If a part of a list is replaced by one that has grown, then the list has grown by as much. -/
private theorem perm_of_replaced {α : Type} [DecidableEq α] {a : α}
    {before after old new others added : List α} (hafter : after.Perm (new ++ others))
    (hnew : new.Perm (old ++ added)) (hbefore : before.Perm (old ++ others)) :
    (a :: after).Perm (a :: before ++ added) := by
  apply List.perm_iff_count.mpr
  intro x
  have hafter' := hafter.count_eq x
  have hnew' := hnew.count_eq x
  have hbefore' := hbefore.count_eq x
  simp only [List.count_cons, List.count_append] at hafter' hnew' hbefore' ⊢
  omega

/--
What becomes of the children when `child'` takes the place of the child that a step comes to: the
others stay, and of the two there was the one that the step comes to, or none.
-/
theorem IsStep.perm_children {step : Step} (hstep : IsStep t growth step)
    (h : Ordered t.children) {child' : CallTree FrameCounts}
    (hname : child'.name = step.child.name) :
    ∃ others, (place child' t.children).Perm (child' :: others) ∧
      (t.children.Perm (step.child :: others) ∧ step.growth.size = growth.size ∧
          step.growth.maxDepth = growth.maxDepth ∨
        t.children.Perm others ∧ step.child = freshChild t growth step.child.name ∧
          step.growth.size = growth.size + 1 ∧
          step.growth.maxDepth = max growth.maxDepth (t.label.depth + 1)) := by
  obtain ⟨others, hplace, hold⟩ := h.exists_others child'
  rw [hname, ← child?] at hold
  refine ⟨others, hplace, ?_⟩
  cases hstep.reached with
  | existing hchild hsize hdepth =>
    rw [hchild] at hold
    exact .inl ⟨hold, hsize, hdepth⟩
  | fresh hchild heq hsize hdepth =>
    rw [hchild] at hold
    exact .inr ⟨hold, heq, hsize, hdepth⟩

/-- What the child has gained, the node has gained: a new child had no samples before. -/
theorem IsStep.outflow_putChild {step : Step} (hstep : IsStep t growth step)
    (h : Ordered t.children) {child' : CallTree FrameCounts}
    (hname : child'.name = step.child.name)
    (hinclusive : child'.label.inclusive = step.child.label.inclusive + count) :
    outflow (step.parent.putChild child') = outflow t + count := by
  obtain ⟨collapsed, hparent⟩ := hstep.parent_eq
  obtain ⟨others, hplace, hreached⟩ := hstep.perm_children h hname
  have hsum := (hplace.map (·.label.inclusive)).sum_eq
  rw [List.map_cons, List.sum_cons, hinclusive] at hsum
  rw [hparent]
  simp only [outflow, label_putChild, children_putChild, label_withLabel, children_withLabel, hsum]
  rcases hreached with ⟨hold, -⟩ | ⟨hold, hfresh, -⟩
  · rw [(hold.map (·.label.inclusive)).sum_eq, List.map_cons, List.sum_cons]
    omega
  · have hzero : step.child.label.inclusive = 0 := by rw [hfresh]; rfl
    rw [(hold.map (·.label.inclusive)).sum_eq, hzero]
    omega

/-- The new nodes of the tree are those beneath the child, and the child itself if it is new. -/
theorem IsStep.stamped_putChild {step : Step} (hstep : IsStep t growth step)
    (h : Ordered t.children) {child' : CallTree FrameCounts}
    (hname : child'.name = step.child.name) {added : List (Nat × Nat)}
    (hperm : (stamps child').Perm (stamps step.child ++ added))
    (hstamped : Stamped added step.growth growth') :
    ∃ added', (stamps (step.parent.putChild child')).Perm (stamps t ++ added') ∧
      Stamped added' growth growth' := by
  obtain ⟨collapsed, hparent⟩ := hstep.parent_eq
  obtain ⟨others, hplace, hreached⟩ := hstep.perm_children h hname
  have hnew : (stampsAll (place child' t.children)).Perm (stamps child' ++ stampsAll others) :=
    hplace.flatMap_right stamps
  rw [hparent, stamps_eq, stamps_eq t]
  rcases hreached with ⟨hold, hsize, hmax⟩ | ⟨hold, hfresh, hsize, hmax⟩
  · have hbefore : (stampsAll t.children).Perm (stamps step.child ++ stampsAll others) :=
      hold.flatMap_right stamps
    refine ⟨added, ?_, hsize ▸ hstamped.indices, hsize ▸ hstamped.size_eq,
      hmax ▸ hstamped.maxDepth_eq⟩
    exact perm_of_replaced hnew hperm hbefore
  · have hbefore : (stampsAll t.children).Perm ([] ++ stampsAll others) :=
      hold.flatMap_right stamps
    have hone : stamps step.child = [(growth.size, t.label.depth + 1)] := by rw [hfresh]; rfl
    rw [hone] at hperm
    refine ⟨(growth.size, t.label.depth + 1) :: added, ?_, hstamped.cons hsize hmax⟩
    exact perm_of_replaced hnew hperm hbefore

/-- The child that a step comes to, with the samples that go on to it. -/
def Step.counted (step : Step) (count : Nat) : CallTree FrameCounts :=
  step.child.withLabel
    { step.child.label with inclusive := step.child.label.inclusive + count }

/--
**A step back up**: if samples have been inserted beneath the child that a step comes to, then
putting the child back makes them samples inserted beneath the node.
-/
theorem IsStep.grown_putChild {step : Step} (hcount : 0 < count) (hstep : IsStep t growth step)
    (h : SoundBelow t) (hindex : ∀ stamp ∈ stamps t, stamp.1 < growth.size)
    {child' : CallTree FrameCounts}
    (hchild : Grown count (step.counted count) step.growth child' growth') :
    Grown count t growth (step.parent.putChild child') growth' := by
  obtain ⟨collapsed, hparent⟩ := hstep.parent_eq
  obtain ⟨-, hsound, -⟩ := hstep.child_sound h
  have hself : t.label.index < growth.size :=
    hindex _ (stamps_eq t ▸ List.mem_cons_self ..)
  obtain ⟨hdepth, hyounger⟩ := hstep.child_label h hself
  have hname : child'.name = step.child.name := hchild.name_eq
  have hinclusive : child'.label.inclusive = step.child.label.inclusive + count :=
    hchild.inclusive_eq
  have hsound' : IsSound child' := by
    refine ⟨hchild.soundBelow.toIsParent, ?_⟩
    rw [hinclusive, hchild.outflow_eq, hsound.balanced]
    rfl
  have hoff := hstep.outflow_putChild h.ordered hname hinclusive
  obtain ⟨added, hperm, hstamped⟩ := hchild.stamped
  have hcounted : stamps (step.counted count) = stamps step.child := stamps_withLabel rfl rfl
  rw [hcounted] at hperm
  have hnodes := hstep.stamped_putChild h.ordered hname hperm hstamped
  -- the step may have marked the node, which changes nothing of this
  have hmarked : SoundBelow (t.withLabel { t.label with collapsed }) := h.withLabel rfl rfl
  rw [hparent] at hoff hnodes ⊢
  refine ⟨rfl, rfl, rfl, rfl, hoff, hmarked.putChild hchild.soundBelow hsound' ?_ ?_ ?_, hnodes⟩
  · exact hchild.depth_eq.trans hdepth
  · exact hchild.index_eq.symm ▸ hyounger
  · omega

/-! ## Section 5: A whole insertion -/

theorem addInclusive_eq_ok (h : t.label.inclusive + count < wordLimit 64) :
    addInclusive t count =
      .ok (t.withLabel { t.label with inclusive := t.label.inclusive + count }) := by
  rw [addInclusive, Checked.add_eq_ok_iff.mpr ⟨rfl, h⟩]
  rfl

theorem addSelf_eq_ok (h : t.label.selfCount + count < wordLimit 64) :
    addSelf t count =
      .ok (t.withLabel { t.label with selfCount := t.label.selfCount + count }) := by
  rw [addSelf, Checked.add_eq_ok_iff.mpr ⟨rfl, h⟩]
  rfl

/--
**Inserting beneath a node** succeeds if the samples beneath it still fit in a word, and only a
path that ends in the node changes its self count.
-/
theorem insertBelow_eq_ok (config : TreeConfig) (hcount : 0 < count) (names : List String)
    (h : SoundBelow t) (hindex : ∀ stamp ∈ stamps t, stamp.1 < growth.size)
    (hfit : outflow t + count < wordLimit 64) :
    ∃ t' growth', insertBelow config count names t growth = .ok (t', growth') ∧
      Grown count t growth t' growth' ∧
      (names ≠ [] → t'.label.selfCount = t.label.selfCount) := by
  induction names generalizing t growth with
  | nil =>
    -- the path ends here: its count goes to the self count
    have hself : t.label.selfCount + count < wordLimit 64 := by
      unfold outflow at hfit
      omega
    refine ⟨t.withLabel { t.label with selfCount := t.label.selfCount + count }, growth, ?_, ?_,
      fun hne => absurd rfl hne⟩
    · rw [insertBelow, addSelf_eq_ok hself]
      rfl
    · refine ⟨rfl, rfl, rfl, rfl, ?_, h.withLabel rfl rfl, [], ?_, .nil growth⟩
      · simp only [outflow, label_withLabel, children_withLabel]
        omega
      · have hstamps : stamps (t.withLabel
            { t.label with selfCount := t.label.selfCount + count }) = stamps t :=
          stamps_withLabel rfl rfl
        rw [hstamps, List.append_nil]
  | cons name names ih =>
    -- the invariants go down to the child with the step and come back up with it
    have hstep := isStep_childFor config t growth name
    obtain ⟨hbelow, hsound, hle⟩ := hstep.child_sound h
    have hinclusive : (childFor config t growth name).child.label.inclusive + count <
        wordLimit 64 := by
      omega
    have houtflow : outflow ((childFor config t growth name).counted count) + count <
        wordLimit 64 := by
      have heq : outflow ((childFor config t growth name).counted count) =
          (childFor config t growth name).child.label.inclusive := hsound.balanced.symm
      omega
    have hindex' : ∀ stamp ∈ stamps ((childFor config t growth name).counted count),
        stamp.1 < (childFor config t growth name).growth.size := by
      have hstamps : stamps ((childFor config t growth name).counted count) =
          stamps (childFor config t growth name).child :=
        stamps_withLabel rfl rfl
      rw [hstamps]
      exact hstep.index_lt hindex
    have hbelow' : SoundBelow ((childFor config t growth name).counted count) :=
      hbelow.withLabel rfl rfl
    obtain ⟨child', growth', hinsert, hgrown, -⟩ := ih hbelow' hindex' houtflow
    refine ⟨_, growth', ?_, hstep.grown_putChild hcount h hindex hgrown, fun _ => ?_⟩
    · rw [insertBelow]
      simp only [addInclusive_eq_ok hinclusive, bind, Except.bind]
      rw [← Step.counted, hinsert]
      rfl
    · obtain ⟨collapsed, hparent⟩ := hstep.parent_eq
      rw [label_putChild, hparent]
      rfl

/-- Sum of the counts of all paths but the empty one. -/
def countedTotal (paths : List (List String × Nat)) : Nat :=
  ((paths.filter (!·.1.isEmpty)).map Prod.snd).sum

theorem countedTotal_cons (path : List String) (count : Nat) (paths : List (List String × Nat)) :
    countedTotal ((path, count) :: paths) =
      (if path = [] then 0 else count) + countedTotal paths := by
  by_cases hpath : path = [] <;> simp [countedTotal, hpath]

/-- A tree that a number of samples have been inserted into. -/
structure Counted (tree : FrameTree) (total : Nat) : Prop where
  sound : ∀ u ∈ tree.root.preorder, IsSound u
  selfCount_eq : tree.root.label.selfCount = 0
  inclusive_eq : tree.root.label.inclusive = total
  index_eq : tree.root.label.index = 0
  depth_eq : tree.root.label.depth = 0
  stamped : ∃ added, (stamps tree.root).Perm added ∧
    added.map Prod.fst = List.range tree.growth.size ∧
    tree.growth.maxDepth = (added.map Prod.snd).foldl max 0

namespace Counted

variable {tree : FrameTree} {total : Nat}

theorem empty (config : TreeConfig) : Counted (FrameTree.empty config) 0 := by
  refine ⟨?_, rfl, rfl, rfl, rfl, [(0, 0)], List.Perm.refl _, rfl, rfl⟩
  intro u hu
  have hroot : u = (FrameTree.empty config).root := List.mem_singleton.mp hu
  subst hroot
  exact ⟨isParent_of_leaf rfl, rfl⟩

private theorem grown_root (h : Counted tree total) {root : CallTree FrameCounts}
    {growth : TreeGrowth} (hgrown : Grown count tree.root tree.growth root growth)
    (hself : root.label.selfCount = tree.root.label.selfCount) :
    Counted
      { tree with
        root := root.withLabel { root.label with inclusive := root.label.inclusive + count }
        growth }
      (total + count) := by
  have hbalanced : root.label.inclusive + count = outflow root := by
    have hbefore := (h.sound _ (mem_preorder_self _)).balanced
    rw [hgrown.inclusive_eq, hgrown.outflow_eq, hbefore]
  have hinclusive : root.label.inclusive = total := hgrown.inclusive_eq.trans h.inclusive_eq
  refine ⟨?_, hself.trans h.selfCount_eq, congrArg (· + count) hinclusive,
    hgrown.index_eq.trans h.index_eq, hgrown.depth_eq.trans h.depth_eq, ?_⟩
  · have hbelow : SoundBelow
        (root.withLabel { root.label with inclusive := root.label.inclusive + count }) :=
      hgrown.soundBelow.withLabel rfl rfl
    exact soundBelow_iff.mp ⟨hbelow, ⟨hbelow.toIsParent, hbalanced⟩⟩
  · -- the new numbers follow those given before
    obtain ⟨before, hbefore, hindices, hmax⟩ := h.stamped
    obtain ⟨added, hadded, hstamped⟩ := hgrown.stamped
    have hstamps : stamps
        (root.withLabel { root.label with inclusive := root.label.inclusive + count }) =
          stamps root :=
      stamps_withLabel rfl rfl
    refine ⟨before ++ added, hstamps ▸ hadded.trans (hbefore.append_right added), ?_, ?_⟩
    · rw [List.map_append, hindices, hstamped.indices, hstamped.size_eq, List.range_eq_range',
        List.range_eq_range']
      simpa using (List.range'_append_1 : List.range' 0 tree.growth.size ++
        List.range' (0 + tree.growth.size) added.length = _)
    · rw [List.map_append, List.foldl_append, ← hmax]
      exact hstamped.maxDepth_eq

/-- **Inserting a path** adds its count to the root, unless the path is empty. -/
theorem insert (h : Counted tree total) (path : List String) (count : Nat)
    (hfit : total + count < wordLimit 64) :
    ∃ tree', tree.insert path count = .ok tree' ∧
      Counted tree' (total + if path = [] then 0 else count) ∧ tree'.config = tree.config := by
  unfold FrameTree.insert
  by_cases hignored : (count == 0 || path.isEmpty) = true
  · rw [if_pos hignored]
    refine ⟨tree, rfl, ?_, rfl⟩
    -- whichever it is, nothing is to be counted
    have hzero : (if path = [] then 0 else count) = 0 := by
      rcases Bool.or_eq_true_iff.mp hignored with hcount | hpath
      · simp [beq_iff_eq.mp hcount]
      · simp [List.isEmpty_iff.mp hpath]
    rw [hzero]
    exact h
  · rw [if_neg hignored]
    have hpath : path ≠ [] := by
      rintro rfl
      simp at hignored
    have hcount : 0 < count := by
      rcases Nat.eq_zero_or_pos count with rfl | hpos
      · simp at hignored
      · exact hpos
    -- beneath the root all is sound, and every number has been given before
    have hbelow := (soundBelow_iff.mpr h.sound).1
    have hindex : ∀ stamp ∈ stamps tree.root, stamp.1 < tree.growth.size := by
      obtain ⟨added, hperm, hindices, -⟩ := h.stamped
      intro stamp hstamp
      have hmem : stamp.1 ∈ added.map Prod.fst := List.mem_map_of_mem (hperm.mem_iff.mp hstamp)
      rw [hindices] at hmem
      exact List.mem_range.mp hmem
    have houtflow : outflow tree.root = total := by
      rw [← (h.sound _ (mem_preorder_self _)).balanced, h.inclusive_eq]
    obtain ⟨root, growth, hinsert, hgrown, hself⟩ :=
      insertBelow_eq_ok tree.config hcount path hbelow hindex (houtflow ▸ hfit)
    have hroot : root.label.inclusive + count < wordLimit 64 := by
      rw [hgrown.inclusive_eq, h.inclusive_eq]
      exact hfit
    rw [hinsert, if_neg hpath]
    simp only [bind, Except.bind, addInclusive_eq_ok hroot, pure, Except.pure]
    exact ⟨_, rfl, h.grown_root hgrown (hself hpath), rfl⟩

/-- **Inserting paths in order** succeeds if their counts together fit in a word. -/
theorem insertAll (h : Counted tree total) (paths : List (List String × Nat))
    (hfit : total + (paths.map Prod.snd).sum < wordLimit 64) :
    ∃ tree', tree.insertAll paths = .ok tree' ∧ Counted tree' (total + countedTotal paths) := by
  induction paths generalizing tree total with
  | nil => exact ⟨tree, rfl, h⟩
  | cons entry paths ih =>
    obtain ⟨path, count⟩ := entry
    rw [List.map_cons, List.sum_cons] at hfit
    obtain ⟨tree₁, hinsert, h₁, -⟩ := h.insert path count (by omega)
    -- the bound holds for all counts, those that are ignored included
    have hle : (if path = [] then 0 else count) ≤ count := by split <;> omega
    obtain ⟨tree₂, hrest, h₂⟩ := ih h₁ (by omega)
    refine ⟨tree₂, ?_, ?_⟩
    · rw [FrameTree.insertAll, List.foldlM_cons]
      simp only [hinsert, bind, Except.bind]
      exact hrest
    · rw [countedTotal_cons, ← Nat.add_assoc]
      exact h₂

end Counted

end StackProfiler.FrameTree
