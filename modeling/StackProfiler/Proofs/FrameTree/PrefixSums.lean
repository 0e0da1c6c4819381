import Mathlib.Data.Finset.Card
import Mathlib.Data.Finset.Dedup
import StackProfiler.Proofs.FoldedStacks.Path
import StackProfiler.Proofs.FrameTree.Conservation

/-!
# A frame tree holds prefix sums

As long as no node has more names beneath it than the bound on children allows, the tree of some
paths is determined by sums over the paths: a node stands at every prefix of a path, its inclusive
count is that of all paths with this prefix, and its self count that of the paths that end there.
So a folded profile can be read back from its tree.
-/

namespace StackProfiler.FrameTree

open CallTree

variable {config : TreeConfig} {count : Nat} {t t' : CallTree FrameCounts}
variable {growth growth' : TreeGrowth}

/-! ## Section 1: Sums over paths -/

/-- What is counted for the paths with a given prefix. -/
def prefixWeight (names : List String) (paths : List (List String × Nat)) : Nat :=
  ((paths.filter (names.isPrefixOf ·.1)).map Prod.snd).sum

/-- What is counted for one path. -/
def exactWeight (names : List String) (paths : List (List String × Nat)) : Nat :=
  ((paths.filter (·.1 == names)).map Prod.snd).sum

/-- The names that follow a prefix in paths that are counted. -/
def nextNames (names : List String) (paths : List (List String × Nat)) : List String :=
  paths.filterMap fun entry =>
    if 0 < entry.2 ∧ names <+: entry.1 then entry.1[names.length]? else none

/-- No prefix is followed by more distinct names than a node may have children. -/
def WithinBound (maxChildren : Nat) (paths : List (List String × Nat)) : Prop :=
  ∀ names, (nextNames names paths).toFinset.card ≤ maxChildren

/-- A node cannot have more children than there are paths. -/
theorem withinBound_of_length_le {maxChildren : Nat} {paths : List (List String × Nat)}
    (h : paths.length ≤ maxChildren) : WithinBound maxChildren paths := by
  intro names
  calc (nextNames names paths).toFinset.card
      ≤ (nextNames names paths).length := List.toFinset_card_le _
    _ ≤ paths.length := List.length_filterMap_le _ _
    _ ≤ maxChildren := h

theorem prefixWeight_append_singleton (names : List String) (paths : List (List String × Nat))
    (path : List String) (count : Nat) :
    prefixWeight names (paths ++ [(path, count)]) =
      prefixWeight names paths + if names <+: path then count else 0 := by
  by_cases h : names <+: path <;> simp [prefixWeight, h]

theorem exactWeight_append_singleton (names : List String) (paths : List (List String × Nat))
    (path : List String) (count : Nat) :
    exactWeight names (paths ++ [(path, count)]) =
      exactWeight names paths + if names = path then count else 0 := by
  by_cases h : names = path
  · simp [exactWeight, h]
  · simp [exactWeight, h, Ne.symm h]

theorem mem_nextNames {names : List String} {paths : List (List String × Nat)} {name : String} :
    name ∈ nextNames names paths ↔
      ∃ entry ∈ paths, 0 < entry.2 ∧ names ++ [name] <+: entry.1 := by
  -- the next name is the one at the place behind the prefix
  have hnext : ∀ path : List String,
      names ++ [name] <+: path ↔ names <+: path ∧ path[names.length]? = some name := by
    intro path
    constructor
    · rintro ⟨rest, rfl⟩
      exact ⟨⟨name :: rest, by simp⟩, by simp⟩
    · rintro ⟨⟨rest, rfl⟩, hget⟩
      cases rest with
      | nil => simp at hget
      | cons next rest =>
        have heq : next = name := by simpa using hget
        exact ⟨rest, by simp [heq]⟩
  rw [nextNames, List.mem_filterMap]
  constructor
  · rintro ⟨entry, hmem, hget⟩
    split at hget
    case isTrue hcounted =>
      exact ⟨entry, hmem, hcounted.1, (hnext entry.1).mpr ⟨hcounted.2, hget⟩⟩
    case isFalse => cases hget
  · rintro ⟨entry, hmem, hcount, hprefix⟩
    obtain ⟨hnames, hget⟩ := (hnext entry.1).mp hprefix
    exact ⟨entry, hmem, by rw [if_pos ⟨hcount, hnames⟩, hget]⟩

/-! ## Section 2: What stands at a path -/

/-- A number that the node at a path has; zero if there is none. -/
def valueAt (f : CallTree FrameCounts → Nat) (t : CallTree FrameCounts) (path : List String) :
    Nat :=
  ((t.find? path).map f).getD 0

/-- A label is only seen at the node itself. -/
theorem isSome_find?_withLabel (t : CallTree FrameCounts) (label : FrameCounts)
    (path : List String) : ((t.withLabel label).find? path).isSome ↔ (t.find? path).isSome := by
  cases path with
  | nil => simp [CallTree.find?]
  | cons => rfl

theorem valueAt_withLabel {f : CallTree FrameCounts → Nat} {label : FrameCounts}
    (hf : f (t.withLabel label) = f t) (path : List String) :
    valueAt f (t.withLabel label) path = valueAt f t path := by
  cases path with
  | nil => exact hf
  | cons => rfl

/-- What a node has beneath it does not depend on its label. -/
theorem valueAt_withLabel_of_ne_nil (f : CallTree FrameCounts → Nat) (t : CallTree FrameCounts)
    (label : FrameCounts) {path : List String} (hpath : path ≠ []) :
    valueAt f (t.withLabel label) path = valueAt f t path := by
  cases path with
  | nil => exact absurd rfl hpath
  | cons => rfl

theorem valueAt_putChild_cons (f : CallTree FrameCounts → Nat) (t child : CallTree FrameCounts)
    (name : String) (names : List String) :
    valueAt f (t.putChild child) (name :: names) =
      if child.name = name then valueAt f child names else valueAt f t (name :: names) := by
  unfold valueAt
  rw [find?_putChild_cons]
  split <;> rfl

/-- The child that a step comes to has what the node has beneath its name. -/
theorem valueAt_child (f : CallTree FrameCounts → Nat)
    (hf : ∀ name, f (freshChild t growth name) = 0) (name : String) (names : List String) :
    valueAt f (stepTo t growth name).child names = valueAt f t (name :: names) := by
  unfold stepTo valueAt
  rw [CallTree.find?]
  cases hchild : t.child? name with
  | some child => rfl
  | none =>
    cases names with
    | nil => exact hf name
    | cons => rfl

theorem isSome_find?_child (t : CallTree FrameCounts) (growth : TreeGrowth) (name : String)
    (names : List String) :
    ((stepTo t growth name).child.find? names).isSome ↔
      (t.find? (name :: names)).isSome ∨ names = [] := by
  unfold stepTo
  rw [CallTree.find?]
  cases hchild : t.child? name with
  | some child =>
    cases names with
    | nil => simp [CallTree.find?]
    | cons => simp
  | none =>
    cases names with
    | nil => simp [CallTree.find?]
    | cons => simp [CallTree.find?, child?, children]

theorem stepTo_spec (t : CallTree FrameCounts) (growth : TreeGrowth) (name : String) :
    (stepTo t growth name).child.name = name ∧ (stepTo t growth name).parent = t ∧
      (stepTo t growth name).growth.collapsedAt = growth.collapsedAt := by
  unfold stepTo
  cases hchild : t.child? name with
  | some child => exact ⟨by simpa using List.find?_some hchild, rfl, rfl⟩
  | none => exact ⟨rfl, rfl, rfl⟩

/-- Every name on a path has a node, or its parent has room for one more child. -/
def HasRoom (config : TreeConfig) (t : CallTree FrameCounts) (names : List String) : Prop :=
  ∀ before name, before ++ [name] <+: names →
    (t.find? (before ++ [name])).isSome ∨
      valueAt (·.children.length) t before < config.maxChildren

/-! ## Section 3: One insertion -/

theorem eq_of_insertBelow_nil (h : insertBelow config count [] t growth = .ok (t', growth')) :
    t' = t.withLabel { t.label with selfCount := t.label.selfCount + count } ∧
      growth' = growth := by
  rw [insertBelow, addSelf] at h
  cases hadd : Checked.add 64 t.label.selfCount count with
  | error fault =>
    rw [hadd] at h
    cases h
  | ok selfCount =>
    obtain ⟨rfl, -⟩ := Checked.add_eq_ok_iff.mp hadd
    rw [hadd] at h
    cases h
    exact ⟨rfl, rfl⟩

theorem exists_of_insertBelow_cons {name : String} {names : List String}
    (h : insertBelow config count (name :: names) t growth = .ok (t', growth')) :
    ∃ child', insertBelow config count names ((childFor config t growth name).counted count)
        (childFor config t growth name).growth = .ok (child', growth') ∧
      t' = (childFor config t growth name).parent.putChild child' := by
  rw [insertBelow, addInclusive] at h
  cases hadd : Checked.add 64 (childFor config t growth name).child.label.inclusive count with
  | error fault =>
    simp only [hadd] at h
    cases h
  | ok inclusive =>
    obtain ⟨rfl, -⟩ := Checked.add_eq_ok_iff.mp hadd
    simp only [hadd, bind, Except.bind, pure, Except.pure] at h
    rw [← Step.counted] at h
    cases hrest : insertBelow config count names ((childFor config t growth name).counted count)
        (childFor config t growth name).growth with
    | error fault =>
      rw [hrest] at h
      cases h
    | ok result =>
      rw [hrest] at h
      cases h
      exact ⟨result.1, rfl, rfl⟩

/-- As long as there is room, a step goes to the child of the name itself. -/
theorem childFor_eq_stepTo {name : String} {names : List String}
    (hroom : HasRoom config t (name :: names)) :
    childFor config t growth name = stepTo t growth name := by
  unfold childFor
  split
  · rfl
  · -- the name is not there yet, so there is room for it
    rename_i hchild
    have hbound : ¬config.maxChildren ≤ t.children.length := by
      rcases hroom [] name (by simp) with hsome | hlt
      · exact absurd (Option.isSome_of_isSome_bind hsome) hchild
      · exact Nat.not_le.mpr hlt
    rw [if_neg hbound]

/-- There is room beneath the child if there was beneath the node. -/
theorem HasRoom.child {name : String} {names : List String}
    (hroom : HasRoom config t (name :: names)) :
    HasRoom config ((stepTo t growth name).counted count) names := by
  intro before next hprefix
  -- a path beneath the child is one beneath the node behind the name
  have hprefix' : (name :: before) ++ [next] <+: name :: names := by
    rw [List.cons_append]
    exact List.cons_prefix_cons.mpr ⟨rfl, hprefix⟩
  refine (hroom (name :: before) next hprefix').imp ?_ ?_
  · intro hsome
    exact (isSome_find?_withLabel _ _ _).mpr ((isSome_find?_child t growth name _).mpr (.inl hsome))
  · intro hlt
    have hchild : valueAt (·.children.length) ((stepTo t growth name).counted count) before =
        valueAt (·.children.length) t (name :: before) :=
      (valueAt_withLabel rfl before).trans (valueAt_child _ (fun _ => rfl) name before)
    rwa [hchild]

/-- A node through which a path has been counted beneath it, name by name. -/
structure Extended (count : Nat) (names : List String) (t t' : CallTree FrameCounts) : Prop where
  name_eq : t'.name = t.name
  inclusive_eq : t'.label.inclusive = t.label.inclusive
  isSome_iff : ∀ path, (t'.find? path).isSome ↔ (t.find? path).isSome ∨ path <+: names
  inclusiveAt_eq : ∀ path ≠ [], valueAt (·.label.inclusive) t' path =
    valueAt (·.label.inclusive) t path + if path <+: names then count else 0
  selfAt_eq : ∀ path, valueAt (·.label.selfCount) t' path =
    valueAt (·.label.selfCount) t path + if path = names then count else 0

/-- Counting a path that ends in the node. -/
theorem Extended.leaf (count : Nat) (t : CallTree FrameCounts) :
    Extended count [] t
      (t.withLabel { t.label with selfCount := t.label.selfCount + count }) := by
  refine ⟨rfl, rfl, ?_, ?_, ?_⟩
  · intro path
    rw [isSome_find?_withLabel, List.prefix_nil]
    refine ⟨.inl, ?_⟩
    rintro (hsome | rfl)
    · exact hsome
    · rfl
  · intro path hpath
    have hprefix : ¬path <+: [] := fun h => hpath (List.prefix_nil.mp h)
    rw [valueAt_withLabel rfl, if_neg hprefix, Nat.add_zero]
  · intro path
    cases path with
    | nil => rfl
    | cons name names => rfl

/-- Putting the child back, through which the rest of a path has been counted. -/
theorem Extended.putChild {name : String} {names : List String} {child' : CallTree FrameCounts}
    (hchild : Extended count names ((stepTo t growth name).counted count) child') :
    Extended count (name :: names) t (t.putChild child') := by
  have hname : child'.name = name := hchild.name_eq.trans (stepTo_spec t growth name).1
  refine ⟨rfl, rfl, ?_, ?_, ?_⟩
  -- a path that starts with another name is followed as before
  · intro path
    cases path with
    | nil => simp [CallTree.find?]
    | cons next path =>
      rw [find?_putChild_cons, hname, List.cons_prefix_cons]
      by_cases hnext : name = next
      · subst hnext
        rw [if_pos rfl, hchild.isSome_iff, Step.counted, isSome_find?_withLabel,
          isSome_find?_child]
        constructor
        · rintro ((hsome | rfl) | hprefix)
          · exact .inl hsome
          · exact .inr ⟨rfl, List.nil_prefix⟩
          · exact .inr ⟨rfl, hprefix⟩
        · rintro (hsome | ⟨-, hprefix⟩)
          · exact .inl (.inl hsome)
          · exact .inr hprefix
      · rw [if_neg hnext]
        exact ⟨.inl, fun h => h.resolve_right fun hpath => hnext hpath.1.symm⟩
  · intro path hpath
    cases path with
    | nil => exact absurd rfl hpath
    | cons next path =>
      rw [valueAt_putChild_cons, hname]
      by_cases hnext : name = next
      · subst hnext
        rw [if_pos rfl, ← valueAt_child (·.label.inclusive) (fun _ => rfl) name path]
        simp only [List.cons_prefix_cons, true_and]
        cases path with
        | nil =>
          -- the child itself was counted before its own children were
          have hself : child'.label.inclusive = _ := hchild.inclusive_eq
          simpa [valueAt, CallTree.find?, Step.counted] using hself
        | cons => exact hchild.inclusiveAt_eq _ (List.cons_ne_nil _ _)
      · have hprefix : ¬next :: path <+: name :: names := fun h =>
          hnext (List.cons_prefix_cons.mp h).1.symm
        rw [if_neg hnext, if_neg hprefix, Nat.add_zero]
  · intro path
    cases path with
    | nil => rfl
    | cons next path =>
      rw [valueAt_putChild_cons, hname]
      by_cases hnext : name = next
      · subst hnext
        rw [if_pos rfl, hchild.selfAt_eq, Step.counted, valueAt_withLabel rfl,
          valueAt_child _ (fun _ => rfl)]
        simp only [List.cons.injEq, true_and]
      · have hne : ¬next :: path = name :: names := fun h => hnext (List.cons.inj h).1.symm
        rw [if_neg hnext, if_neg hne, Nat.add_zero]

/-- **Inserting beneath a node with room** counts the path name by name and marks nothing. -/
theorem extended_insertBelow {names : List String} (hroom : HasRoom config t names)
    (h : insertBelow config count names t growth = .ok (t', growth')) :
    Extended count names t t' ∧ growth'.collapsedAt = growth.collapsedAt := by
  induction names generalizing t growth t' growth' with
  | nil =>
    obtain ⟨rfl, rfl⟩ := eq_of_insertBelow_nil h
    exact ⟨.leaf count t, rfl⟩
  | cons name names ih =>
    obtain ⟨child', hrest, rfl⟩ := exists_of_insertBelow_cons h
    rw [childFor_eq_stepTo hroom] at hrest ⊢
    obtain ⟨hchild, hcollapsed⟩ := ih hroom.child hrest
    obtain ⟨-, hparent, hgrowth⟩ := stepTo_spec t growth name
    rw [hparent]
    exact ⟨hchild.putChild, hcollapsed.trans hgrowth⟩

theorem insert_of_ignored {path : List String} (h : path = [] ∨ count = 0) (tree : FrameTree) :
    tree.insert path count = .ok tree := by
  have hguard : (count == 0 || path.isEmpty) = true := by simpa [or_comm] using h
  rw [FrameTree.insert, if_pos hguard]

/-- An insertion that is not ignored counts the path beneath the root and then the root itself. -/
theorem exists_of_insert {tree tree' : FrameTree} {path : List String}
    (h : tree.insert path count = .ok tree') (hpath : path ≠ []) (hcount : 0 < count) :
    ∃ root growth, insertBelow tree.config count path tree.root tree.growth = .ok (root, growth) ∧
      root.label.inclusive + count < wordLimit 64 ∧
      tree' = { tree with
        root := root.withLabel { root.label with inclusive := root.label.inclusive + count }
        growth } := by
  have hguard : ¬(count == 0 || path.isEmpty) = true := by
    simp [hpath, Nat.ne_of_gt hcount]
  rw [FrameTree.insert, if_neg hguard] at h
  obtain ⟨⟨root, growth⟩, hbelow, hrest⟩ := Checked.bind_eq_ok_iff.mp h
  obtain ⟨root', hroot, htree⟩ := Checked.bind_eq_ok_iff.mp hrest
  obtain ⟨inclusive, hadd, hlabel⟩ := Checked.bind_eq_ok_iff.mp hroot
  obtain ⟨rfl, hfit⟩ := Checked.add_eq_ok_iff.mp hadd
  cases hlabel
  cases htree
  exact ⟨root, growth, hbelow, hfit, rfl⟩

/-- **An insertion that has succeeded** was ignored, or it has counted a path beneath the root. -/
theorem cases_of_insert {tree tree' : FrameTree} {path : List String}
    (h : tree.insert path count = .ok tree') :
    tree' = tree ∧ (path = [] ∨ count = 0) ∨
      path ≠ [] ∧ 0 < count ∧ ∃ root growth,
        insertBelow tree.config count path tree.root tree.growth = .ok (root, growth) ∧
          root.label.inclusive + count < wordLimit 64 ∧
          tree' = { tree with
            root := root.withLabel { root.label with inclusive := root.label.inclusive + count }
            growth } := by
  by_cases hignored : path = [] ∨ count = 0
  · rw [insert_of_ignored hignored] at h
    cases h
    exact .inl ⟨rfl, hignored⟩
  · obtain ⟨hpath, hzero⟩ := not_or.mp hignored
    have hcount := Nat.pos_of_ne_zero hzero
    exact .inr ⟨hpath, hcount, exists_of_insert h hpath hcount⟩

theorem exists_of_insertAll_cons {tree tree' : FrameTree} {path : List String}
    {paths : List (List String × Nat)} (h : tree.insertAll ((path, count) :: paths) = .ok tree') :
    ∃ tree₁, tree.insert path count = .ok tree₁ ∧ tree₁.insertAll paths = .ok tree' := by
  rw [FrameTree.insertAll, List.foldlM_cons] at h
  exact Checked.bind_eq_ok_iff.mp h

/-! ## Section 4: Trees of prefix sums -/

/-- A tree whose nodes hold the prefix sums of the given paths. -/
structure HoldsSums (tree : FrameTree) (paths : List (List String × Nat)) : Prop where
  isSome_iff : ∀ names ≠ [], (tree.root.find? names).isSome ↔
    ∃ entry ∈ paths, 0 < entry.2 ∧ names <+: entry.1
  inclusiveAt_eq : ∀ names ≠ [],
    valueAt (·.label.inclusive) tree.root names = prefixWeight names paths
  selfAt_eq : ∀ names ≠ [],
    valueAt (·.label.selfCount) tree.root names = exactWeight names paths
  collapsedAt_eq : tree.growth.collapsedAt = []

theorem WithinBound.mono {maxChildren : Nat} {paths paths' : List (List String × Nat)}
    (h : WithinBound maxChildren (paths ++ paths')) : WithinBound maxChildren paths := by
  intro names
  refine Nat.le_trans (Finset.card_le_card ?_) (h names)
  intro name hname
  rw [List.mem_toFinset, mem_nextNames] at hname ⊢
  obtain ⟨entry, hentry, hcounted⟩ := hname
  exact ⟨entry, List.mem_append_left _ hentry, hcounted⟩

namespace HoldsSums

variable {tree tree' : FrameTree} {paths : List (List String × Nat)} {path : List String}

theorem empty (config : TreeConfig) : HoldsSums (FrameTree.empty config) [] := by
  have hnone : ∀ names ≠ [], (FrameTree.empty config).root.find? names = none := by
    intro names hnames
    cases names with
    | nil => exact absurd rfl hnames
    | cons => rfl
  refine ⟨?_, ?_, ?_, rfl⟩
  · intro names hnames
    simp [hnone names hnames]
  · intro names hnames
    rw [valueAt, hnone names hnames]
    rfl
  · intro names hnames
    rw [valueAt, hnone names hnames]
    rfl

/-- Within the bound, there is room for every counted path. -/
theorem hasRoom (h : HoldsSums tree paths) (hordered : tree.root.IsOrdered) (hcount : 0 < count)
    (hbound : WithinBound tree.config.maxChildren (paths ++ [(path, count)])) :
    HasRoom tree.config tree.root path := by
  intro before name hprefix
  by_cases hsome : (tree.root.find? (before ++ [name])).isSome = true
  · exact .inl hsome
  right
  have hnext : name ∈ nextNames before (paths ++ [(path, count)]) :=
    mem_nextNames.mpr ⟨(path, count), List.mem_append_right _ (List.mem_singleton_self _), hcount,
      hprefix⟩
  cases hfind : tree.root.find? before with
  | none =>
    rw [valueAt, hfind]
    exact Nat.lt_of_lt_of_le (Finset.card_pos.mpr ⟨name, List.mem_toFinset.mpr hnext⟩)
      (hbound before)
  | some u =>
    -- the names of the children follow the prefix as well, and the new name is none of them
    have hu : u ∈ tree.root.preorder := mem_preorder_of_find? hordered hfind
    have hchildren : ∀ v ∈ u.children, tree.root.find? (before ++ [v.name]) = some v :=
      fun v hv => find?_append_child hordered hfind hv
    have hnodup : (name :: u.children.map (·.name)).Nodup := by
      refine List.nodup_cons.mpr ⟨?_, ?_⟩
      · intro hmem
        obtain ⟨v, hv, rfl⟩ := List.mem_map.mp hmem
        exact hsome (by rw [hchildren v hv]; rfl)
      · exact List.pairwise_map.mpr ((hordered u hu).imp String.ne_of_lt)
    have hsubset : (name :: u.children.map (·.name)).toFinset ⊆
        (nextNames before (paths ++ [(path, count)])).toFinset := by
      intro next hmem
      rw [List.mem_toFinset] at hmem ⊢
      rcases List.mem_cons.mp hmem with rfl | hmem
      · exact hnext
      · obtain ⟨v, hv, rfl⟩ := List.mem_map.mp hmem
        have hstands : (tree.root.find? (before ++ [v.name])).isSome := by
          rw [hchildren v hv]
          rfl
        obtain ⟨entry, hentry, hcounted⟩ := (h.isSome_iff _ (by simp)).mp hstands
        exact mem_nextNames.mpr ⟨entry, List.mem_append_left _ hentry, hcounted⟩
    -- so there are fewer children than next names
    have hcard := Finset.card_le_card hsubset
    rw [List.toFinset_card_of_nodup hnodup, List.length_cons, List.length_map] at hcard
    rw [valueAt, hfind]
    exact Nat.lt_of_lt_of_le hcard (hbound before)

/-- An insertion that is ignored adds nothing to the sums. -/
theorem append_ignored (h : HoldsSums tree paths) (hignored : path = [] ∨ count = 0) :
    HoldsSums tree (paths ++ [(path, count)]) := by
  have hzero : ∀ names ≠ [], (if names <+: path then count else 0) = 0 := by
    intro names hnames
    rcases hignored with rfl | rfl
    · exact if_neg fun hprefix => hnames (List.prefix_nil.mp hprefix)
    · exact ite_self 0
  refine ⟨?_, ?_, ?_, h.collapsedAt_eq⟩
  · intro names hnames
    rw [h.isSome_iff names hnames]
    constructor
    · rintro ⟨entry, hentry, hcounted⟩
      exact ⟨entry, List.mem_append_left _ hentry, hcounted⟩
    · rintro ⟨entry, hentry, hcount, hprefix⟩
      rcases List.mem_append.mp hentry with hentry | hentry
      · exact ⟨entry, hentry, hcount, hprefix⟩
      · rw [List.mem_singleton.mp hentry] at hcount hprefix
        rcases hignored with rfl | rfl
        · exact absurd (List.prefix_nil.mp hprefix) hnames
        · exact absurd hcount (Nat.lt_irrefl 0)
  · intro names hnames
    rw [h.inclusiveAt_eq names hnames, prefixWeight_append_singleton, hzero names hnames,
      Nat.add_zero]
  · intro names hnames
    have hself : (if names = path then count else 0) = 0 := by
      rcases hignored with rfl | rfl
      · exact if_neg hnames
      · exact ite_self 0
    rw [h.selfAt_eq names hnames, exactWeight_append_singleton, hself, Nat.add_zero]

/-- **Inserting a path** within the bound adds it to the sums. -/
theorem insert (h : HoldsSums tree paths) (hordered : tree.root.IsOrdered)
    (hbound : WithinBound tree.config.maxChildren (paths ++ [(path, count)]))
    (hinsert : tree.insert path count = .ok tree') :
    HoldsSums tree' (paths ++ [(path, count)]) := by
  rcases cases_of_insert hinsert with ⟨rfl, hignored⟩ | ⟨-, hcount, root, growth, hbelow, -, htree⟩
  · exact h.append_ignored hignored
  · -- counted beneath the root, whose own label is not part of the sums
    obtain ⟨label, hroot⟩ : ∃ label, tree'.root = root.withLabel label := ⟨_, by rw [htree]⟩
    have hgrowth : tree'.growth = growth := by rw [htree]
    obtain ⟨hextended, hcollapsed⟩ :=
      extended_insertBelow (h.hasRoom hordered hcount hbound) hbelow
    refine ⟨?_, ?_, ?_, ?_⟩
    · intro names hnames
      rw [hroot, isSome_find?_withLabel, hextended.isSome_iff, h.isSome_iff names hnames]
      constructor
      · rintro (⟨entry, hentry, hcounted⟩ | hprefix)
        · exact ⟨entry, List.mem_append_left _ hentry, hcounted⟩
        · exact ⟨(path, count), List.mem_append_right _ (List.mem_singleton_self _), hcount,
            hprefix⟩
      · rintro ⟨entry, hentry, hpos, hprefix⟩
        rcases List.mem_append.mp hentry with hentry | hentry
        · exact .inl ⟨entry, hentry, hpos, hprefix⟩
        · rw [List.mem_singleton.mp hentry] at hprefix
          exact .inr hprefix
    · intro names hnames
      rw [hroot, valueAt_withLabel_of_ne_nil _ _ _ hnames, hextended.inclusiveAt_eq names hnames,
        h.inclusiveAt_eq names hnames, prefixWeight_append_singleton]
    · intro names hnames
      rw [hroot, valueAt_withLabel_of_ne_nil _ _ _ hnames, hextended.selfAt_eq names,
        h.selfAt_eq names hnames, exactWeight_append_singleton]
    · rw [hgrowth, hcollapsed, h.collapsedAt_eq]

/-- **Inserting paths in order** within the bound makes a tree of their prefix sums. -/
theorem insertAll {total : Nat} {before : List (List String × Nat)} (h : HoldsSums tree before)
    (hcounted : Counted tree total) (hfit : total + (paths.map Prod.snd).sum < wordLimit 64)
    (hbound : WithinBound tree.config.maxChildren (before ++ paths)) :
    ∃ tree', tree.insertAll paths = .ok tree' ∧ HoldsSums tree' (before ++ paths) ∧
      Counted tree' (total + countedTotal paths) := by
  induction paths generalizing tree total before with
  | nil => exact ⟨tree, rfl, by rwa [List.append_nil], hcounted⟩
  | cons entry paths ih =>
    obtain ⟨path, count⟩ := entry
    rw [List.map_cons, List.sum_cons] at hfit
    rw [List.append_cons] at hbound ⊢
    obtain ⟨tree₁, hinsert, hcounted₁, hconfig⟩ := hcounted.insert path count (by omega)
    have h₁ := h.insert hcounted.isOrdered hbound.mono hinsert
    have hle : (if path = [] then 0 else count) ≤ count := by split <;> omega
    obtain ⟨tree₂, hrest, h₂, hcounted₂⟩ := ih h₁ hcounted₁ (by omega) (hconfig ▸ hbound)
    refine ⟨tree₂, ?_, h₂, ?_⟩
    · rw [FrameTree.insertAll, List.foldlM_cons]
      simp only [hinsert, bind, Except.bind]
      exact hrest
    · rw [countedTotal_cons, ← Nat.add_assoc]
      exact hcounted₂

end HoldsSums

/-! ## Section 5: Profiles and their trees -/

/-- The paths of a profile as they are inserted into a tree. -/
def pathsOf (f : FoldedStacks) : List (List String × Nat) :=
  f.toList.map fun (path, count) => (framesOfPath path, count)

/-- The joined names and the self count of every node in which samples end. -/
def readBack (tree : FrameTree) : List (String × Nat) :=
  (tree.root.nodePaths.filter (0 < ·.2.label.selfCount)).map fun node =>
    (";".intercalate node.1, node.2.label.selfCount)

variable {f : FoldedStacks} {tree : FrameTree} {total : Nat}

theorem sum_counts_pathsOf (f : FoldedStacks) : ((pathsOf f).map Prod.snd).sum = f.total := by
  rw [pathsOf, List.map_map]
  rfl

theorem countedTotal_pathsOf (f : FoldedStacks) : countedTotal (pathsOf f) = f.total := by
  -- no path is cut into no frames at all
  have hall : (pathsOf f).filter (!·.1.isEmpty) = pathsOf f := by
    apply List.filter_eq_self.mpr
    intro entry hentry
    obtain ⟨⟨path, count⟩, -, rfl⟩ := List.mem_map.mp hentry
    simpa using framesOfPath_ne_nil path
  rw [countedTotal, hall, sum_counts_pathsOf]

/-- Of the paths of a profile, only one has the frames of a given path. -/
theorem exactWeight_pathsOf (f : FoldedStacks) (path : String) :
    exactWeight (framesOfPath path) (pathsOf f) = f.countOf path := by
  rw [← f.weightOf_toList path, exactWeight, weightOf, pathsOf, List.filter_map, List.map_map]
  congr 2
  apply List.filter_congr
  rintro ⟨path', count⟩ -
  simp [framesOfPath_injective.eq_iff]

/-- Where samples end in the tree of a profile, a path of the profile ends, with as many. -/
theorem exists_path_of_mem_nodePaths (hsums : HoldsSums tree (pathsOf f))
    (hcounted : Counted tree total) {names : List String} {u : CallTree FrameCounts}
    (hmem : (names, u) ∈ tree.root.nodePaths) (hself : 0 < u.label.selfCount) :
    ∃ path, framesOfPath path = names ∧ (path, u.label.selfCount) ∈ f.toList := by
  have hfind := (mem_nodePaths_iff hcounted.isOrdered).mp hmem
  have hnames : names ≠ [] := by
    rintro rfl
    cases hfind
    exact absurd hcounted.selfCount_eq (Nat.ne_of_gt hself)
  have hweight : u.label.selfCount = exactWeight names (pathsOf f) := by
    rw [← hsums.selfAt_eq names hnames, valueAt, hfind]
    rfl
  -- a sum that is not zero has a summand
  have hentry : (pathsOf f).filter (·.1 == names) ≠ [] := by
    intro hnil
    rw [exactWeight, hnil] at hweight
    exact absurd hweight (Nat.ne_of_gt hself)
  obtain ⟨entry, hfiltered⟩ := List.exists_mem_of_ne_nil _ hentry
  obtain ⟨hpaths, hname⟩ := List.mem_filter.mp hfiltered
  obtain ⟨⟨path, count⟩, hpath, rfl⟩ := List.mem_map.mp hpaths
  have hframes : framesOfPath path = names := beq_iff_eq.mp hname
  refine ⟨path, hframes, ?_⟩
  rw [hweight, ← hframes, exactWeight_pathsOf, FoldedStacks.countOf_eq,
    FoldedStacks.mem_toList_iff.mp hpath]
  exact hpath

/-- **A profile is read back** from the tree of its paths: nothing is lost, merged or invented. -/
theorem readBack_perm (hsums : HoldsSums tree (pathsOf f)) (hcounted : Counted tree total)
    (hbuilt : f.IsBuilt) : (readBack tree).Perm f.toList := by
  -- neither side holds anything twice, so it is enough to compare members
  have hordered := hcounted.isOrdered
  have hnodes : tree.root.nodePaths.Nodup :=
    List.Nodup.of_map Prod.fst (nodup_map_fst_nodePaths hordered)
  have hnodup : (readBack tree).Nodup := by
    refine List.Nodup.map_on ?_ (hnodes.filter _)
    rintro ⟨names, u⟩ hu ⟨names', u'⟩ hu' heq
    obtain ⟨hmem, hself⟩ := List.mem_filter.mp hu
    obtain ⟨hmem', hself'⟩ := List.mem_filter.mp hu'
    obtain ⟨path, rfl, -⟩ :=
      exists_path_of_mem_nodePaths hsums hcounted hmem (of_decide_eq_true hself)
    obtain ⟨path', rfl, -⟩ :=
      exists_path_of_mem_nodePaths hsums hcounted hmem' (of_decide_eq_true hself')
    -- joining the frames of a path gives the path, so the nodes stand at one path
    have hpath : path = path' := by
      have hjoined := (Prod.mk.inj heq).1
      rwa [intercalate_framesOfPath, intercalate_framesOfPath] at hjoined
    subst hpath
    have hfind := (mem_nodePaths_iff hordered).mp hmem
    rw [(mem_nodePaths_iff hordered).mp hmem'] at hfind
    rw [Option.some.inj hfind]
  rw [List.perm_ext_iff_of_nodup hnodup f.nodup_toList]
  rintro ⟨path, count⟩
  constructor
  · intro hread
    obtain ⟨⟨names, u⟩, hfiltered, heq⟩ := List.mem_map.mp hread
    obtain ⟨hmem, hself⟩ := List.mem_filter.mp hfiltered
    obtain ⟨path', rfl, hpath'⟩ :=
      exists_path_of_mem_nodePaths hsums hcounted hmem (of_decide_eq_true hself)
    rw [intercalate_framesOfPath] at heq
    exact heq ▸ hpath'
  · intro hpath
    -- a path of the profile has observations, so that a node stands there
    have hpos := hbuilt.count_pos hpath
    have hentry : (framesOfPath path, count) ∈ pathsOf f := List.mem_map_of_mem hpath
    obtain ⟨u, hfind⟩ := Option.isSome_iff_exists.mp
      ((hsums.isSome_iff _ (framesOfPath_ne_nil path)).mpr
        ⟨_, hentry, hpos, List.prefix_refl _⟩)
    have hself : u.label.selfCount = count := by
      have hvalue := hsums.selfAt_eq _ (framesOfPath_ne_nil path)
      rw [valueAt, hfind, exactWeight_pathsOf, FoldedStacks.countOf_eq,
        FoldedStacks.mem_toList_iff.mp hpath] at hvalue
      exact hvalue
    refine List.mem_map.mpr ⟨(framesOfPath path, u), ?_, ?_⟩
    · refine List.mem_filter.mpr ⟨(mem_nodePaths_iff hordered).mpr hfind, ?_⟩
      rw [hself]
      exact decide_eq_true hpos
    · rw [intercalate_framesOfPath, hself]

/--
**A frame tree holds prefix sums.** Insertions whose counts together fit in a word and whose names
stay within the bound on children collapse nothing; a node stands at exactly the prefixes of the
paths that are counted, its inclusive count is that of all paths with the prefix, and its self
count that of the paths that end there. So the tree of a profile has as many samples as the
profile, and the profile can be read back from it.
-/
theorem insertAll_prefixSums (config : TreeConfig) :
    (∀ paths : List (List String × Nat), (paths.map Prod.snd).sum < wordLimit 64 →
      WithinBound config.maxChildren paths →
      ∃ tree, (FrameTree.empty config).insertAll paths = .ok tree ∧ tree.overflowedParents = 0 ∧
        ∀ names ≠ [],
          ((tree.find? names).isSome ↔ ∃ entry ∈ paths, 0 < entry.2 ∧ names <+: entry.1) ∧
          ∀ u, tree.find? names = some u →
            u.label.inclusive = prefixWeight names paths ∧
              u.label.selfCount = exactWeight names paths) ∧
    ∀ f : FoldedStacks, f.IsBuilt → f.total < wordLimit 64 →
      WithinBound config.maxChildren (pathsOf f) →
      ∃ tree, ofFolded f config = .ok tree ∧ f.totalSamples = .ok tree.totalSamples ∧
        (readBack tree).Perm f.toList := by
  have hstart := HoldsSums.empty config
  have hcounted := Counted.empty config
  constructor
  · intro paths hfit hbound
    obtain ⟨tree, hinsert, hsums, -⟩ := hstart.insertAll hcounted (by rwa [Nat.zero_add]) hbound
    rw [List.nil_append] at hsums
    refine ⟨tree, hinsert, by rw [overflowedParents, hsums.collapsedAt_eq]; rfl, ?_⟩
    intro names hnames
    refine ⟨hsums.isSome_iff names hnames, fun u hfind => ?_⟩
    have hfind' : tree.root.find? names = some u := hfind
    have hinclusive := hsums.inclusiveAt_eq names hnames
    have hself := hsums.selfAt_eq names hnames
    rw [valueAt, hfind'] at hinclusive hself
    exact ⟨hinclusive, hself⟩
  · intro f hbuilt hfit hbound
    have hfit' : 0 + ((pathsOf f).map Prod.snd).sum < wordLimit 64 := by
      rwa [Nat.zero_add, sum_counts_pathsOf]
    obtain ⟨tree, hinsert, hsums, htree⟩ := hstart.insertAll hcounted hfit' hbound
    rw [List.nil_append] at hsums
    refine ⟨tree, hinsert, ?_, readBack_perm hsums htree hbuilt⟩
    have htotal : tree.totalSamples = f.total := by
      rw [totalSamples, htree.inclusive_eq, Nat.zero_add, countedTotal_pathsOf]
    rw [htotal]
    exact FoldedStacks.totalSamples_eq_ok hfit

/-- A recursion, a path that ends within another, and two paths that do not count. -/
private def demoPaths : List (List String × Nat) :=
  [(["a", "a", "b"], 2), (["a"], 3), ([], 1), (["c"], 0)]

private def demoProfile : FoldedStacks where
  counts := (∅ : Std.ExtTreeMap String Nat compare).insert "main;work" 3

/-- The outer of the two frames of one name has the samples of both paths. -/
theorem insertAll_prefixSums_recursive :
    (∃ tree u, (FrameTree.empty { maxChildren := 4 }).insertAll demoPaths = .ok tree ∧
      tree.find? ["a"] = some u ∧ u.label.inclusive = 5 ∧ u.label.selfCount = 3) ∧
    ∃ tree, ofFolded demoProfile { maxChildren := 4 } = .ok tree ∧
      (readBack tree).Perm [("main;work", 3)] := by
  obtain ⟨hsums, hprofiles⟩ := insertAll_prefixSums { maxChildren := 4 }
  constructor
  · obtain ⟨tree, hinsert, -, hnodes⟩ :=
      hsums demoPaths (by decide) (withinBound_of_length_le (by decide))
    obtain ⟨hsome, hcounts⟩ := hnodes ["a"] (by decide)
    obtain ⟨u, hfind⟩ := Option.isSome_iff_exists.mp
      (hsome.mpr ⟨(["a"], 3), by decide, by decide, by decide⟩)
    obtain ⟨hinclusive, hself⟩ := hcounts u hfind
    exact ⟨tree, u, hinsert, hfind, hinclusive.trans (by decide), hself.trans (by decide)⟩
  · have hadd : FoldedStacks.empty.addPath "main;work" 3 = .ok (true, demoProfile) := rfl
    have hbuilt : demoProfile.IsBuilt := .addPath .empty hadd
    have hlist : demoProfile.toList = [("main;work", 3)] := rfl
    have hbound : WithinBound 4 (pathsOf demoProfile) :=
      withinBound_of_length_le (by rw [pathsOf, hlist]; decide)
    obtain ⟨tree, hfolded, -, hperm⟩ :=
      hprofiles demoProfile hbuilt (by rw [FoldedStacks.total, hlist]; decide) hbound
    exact ⟨tree, hfolded, hlist ▸ hperm⟩

end StackProfiler.FrameTree
