import StackProfiler.Proofs.FrameTree.Route

/-!
# Requests for children

Counting a path asks one node after the other for the child of the next name. What a node has
answered once it answers forever (`FrameTree.answered_requestsAll`), also if it was asked too late
and had to answer with its child `[other]`. The nodes that were asked too late are the marked ones,
and their number is the one that the tree keeps (`FrameTree.overflowedParents_eq`). The main
statement, `FrameTree.insertAll_routing`, puts this together with the routes of paths.
-/

namespace StackProfiler

namespace FrameTree

open CallTree

variable {config : TreeConfig} {count maxChildren total : Nat} {t t' u u' : CallTree FrameCounts}
variable {growth growth' : TreeGrowth} {name : String} {names path : List String}
variable {tree tree' : FrameTree} {paths : List (List String × Nat)}

/-! ## Section 1: Requests -/

/-- A node, as it was when it was asked for the child of a name, and the child it answered with. -/
structure Request where
  node : CallTree FrameCounts
  name : String
  child : CallTree FrameCounts

/-- Whether the node had no such child, and no room for one either. -/
def Request.isLate (maxChildren : Nat) (r : Request) : Bool :=
  FrameTree.isLate maxChildren r.node r.name

/-- The requests by which a path is counted beneath a node, from the top down. -/
def requestsBelow (config : TreeConfig) (count : Nat) :
    List String → CallTree FrameCounts → TreeGrowth → List Request
  | [], _, _ => []
  | name :: names, t, growth =>
    let step := childFor config t growth name
    ⟨t, name, step.child⟩ :: requestsBelow config count names (step.counted count) step.growth

def requests (tree : FrameTree) (path : List String) (count : Nat) : List Request :=
  if count == 0 then [] else requestsBelow tree.config count path tree.root tree.growth

/-- The requests of several insertions, each into the tree that those before it have led to. -/
def requestsAll (tree : FrameTree) : List (List String × Nat) → List Request
  | [] => []
  | (path, count) :: paths =>
    match tree.insert path count with
    | .ok tree' => tree.requests path count ++ tree'.requestsAll paths
    | .error _ => []

theorem requestsAll_cons (h : tree.insert path count = .ok tree')
    (paths : List (List String × Nat)) :
    tree.requestsAll ((path, count) :: paths) =
      tree.requests path count ++ tree'.requestsAll paths := by
  simp only [requestsAll, h]

theorem requests_of_ignored (h : path = [] ∨ count = 0) (tree : FrameTree) :
    tree.requests path count = [] := by
  rcases h with rfl | rfl
  · exact ite_self _
  · rfl

theorem requests_of_pos (hcount : 0 < count) (tree : FrameTree) (path : List String) :
    tree.requests path count = requestsBelow tree.config count path tree.root tree.growth := by
  rw [requests, if_neg]
  simpa using Nat.ne_of_gt hcount

/-! ## Section 2: Answers persist -/

/-- A node that still answers a request with the same child. -/
structure Answered (maxChildren : Nat) (r : Request) (u : CallTree FrameCounts) : Prop where
  kept : Kept maxChildren r.node u
  child : ∃ v, u.child? (standIn maxChildren r.node r.name) = some v ∧
    v.label.index = r.child.label.index

/-- The node that was asked stands somewhere in the tree, and still gives the same answer. -/
def StillAnswered (maxChildren : Nat) (t : CallTree FrameCounts) (r : Request) : Prop :=
  ∃ place u, t.find? place = some u ∧ Answered maxChildren r u

theorem Answered.of_persists {r : Request} (h : Answered maxChildren r u)
    (hpersists : Persists maxChildren u u') : Answered maxChildren r u' := by
  obtain ⟨v, hchild, hindex⟩ := h.child
  obtain ⟨v', hchild', hbelow⟩ := hpersists.child hchild
  exact ⟨h.kept.trans hpersists.kept, v', hchild', hbelow.kept.index_eq.trans hindex⟩

theorem StillAnswered.of_persists {r : Request} (h : StillAnswered maxChildren t r)
    (hpersists : Persists maxChildren t t') : StillAnswered maxChildren t' r := by
  obtain ⟨place, u, hfind, hanswered⟩ := h
  obtain ⟨u', hfind', hbeneath⟩ := hpersists.beneath hfind
  exact ⟨place, u', hfind', hanswered.of_persists hbeneath⟩

/-- Asked for the name again, the node answers with the same child, and creates none. -/
theorem Answered.childFor_eq {r : Request} (h : Answered config.maxChildren r u)
    (growth : TreeGrowth) :
    u.child? (standIn config.maxChildren r.node r.name) =
        some (childFor config u growth r.name).child ∧
      (childFor config u growth r.name).growth.size = growth.size := by
  obtain ⟨v, hchild, -⟩ := h.child
  have hstand := h.kept.standIn_eq (Option.isSome_iff_exists.mpr ⟨v, hchild⟩)
  obtain ⟨heq, hsize⟩ := childFor_of_child? (hstand ▸ hchild) growth
  exact ⟨heq ▸ hchild, hsize⟩

/-- **Every request** of an insertion is still answered in the tree that it leads to. -/
theorem stillAnswered_insertBelow
    (h : insertBelow config count names t growth = .ok (t', growth')) :
    ∀ r ∈ requestsBelow config count names t growth, StillAnswered config.maxChildren t' r := by
  induction names generalizing t growth t' with
  | nil => exact fun r hr => absurd hr List.not_mem_nil
  | cons name names ih =>
    have hkept := (persists_insertBelow h).kept
    obtain ⟨child', hrest, hname, rfl⟩ := exists_of_insertBelow_asked h
    intro r hr
    rcases List.mem_cons.mp hr with rfl | hr
    · refine ⟨[], _, rfl, hkept, child', ?_, (persists_insertBelow hrest).kept.index_eq⟩
      rw [child?_putChild, if_pos hname]
    · -- asked beneath the child, which now stands in its place
      obtain ⟨place, u, hfind, hanswered⟩ := ih hrest r hr
      refine ⟨standIn config.maxChildren t name :: place, u, ?_, hanswered⟩
      rw [find?_putChild_cons, if_pos hname]
      exact hfind

theorem stillAnswered_insert (h : tree.insert path count = .ok tree') :
    ∀ r ∈ tree.requests path count, StillAnswered tree.config.maxChildren tree'.root r := by
  intro r hr
  rcases cases_of_insert h with ⟨rfl, hignored⟩ | ⟨-, hcount, root, growth, hbelow, -, rfl⟩
  · rw [requests_of_ignored hignored] at hr
    exact absurd hr List.not_mem_nil
  · rw [requests_of_pos hcount] at hr
    exact (stillAnswered_insertBelow hbelow r hr).of_persists (.withLabel rfl)

/-- **Every request** of a run is still answered at its end. -/
theorem stillAnswered_insertAll (h : tree.insertAll paths = .ok tree') :
    ∀ r ∈ tree.requestsAll paths, StillAnswered tree.config.maxChildren tree'.root r := by
  induction paths generalizing tree with
  | nil => exact fun r hr => absurd hr List.not_mem_nil
  | cons entry paths ih =>
    obtain ⟨path, count⟩ := entry
    obtain ⟨tree₁, hfirst, hrest⟩ := exists_of_insertAll_cons h
    obtain ⟨-, hconfig⟩ := persists_insert hfirst
    intro r hr
    rw [requestsAll_cons hfirst] at hr
    rw [← hconfig]
    rcases List.mem_append.mp hr with hr | hr
    · exact (hconfig ▸ stillAnswered_insert hfirst r hr).of_persists (persists_insertAll hrest).1
    · exact ih hrest r hr

/-! ## Section 3: Marks -/

/-- The numbers of the nodes that are marked because names have been collapsed there. -/
def marks (t : CallTree FrameCounts) : List Nat :=
  (t.preorder.filter (·.label.collapsed)).map (·.label.index)

/-- The marks of several trees. -/
def marksAll (ts : List (CallTree FrameCounts)) : List Nat :=
  ts.flatMap marks

theorem marks_eq (t : CallTree FrameCounts) :
    marks t = (if t.label.collapsed then [t.label.index] else []) ++ marksAll t.children := by
  have hbelow : marksAll t.children =
      ((preorderAll t.children).filter (·.label.collapsed)).map (·.label.index) := by
    rw [preorderAll_eq_flatMap, List.filter_flatMap, List.map_flatMap]
    rfl
  rw [hbelow, marks, preorder_eq, List.filter_cons]
  cases t.label.collapsed <;> rfl

/-- The tree has noted as many nodes as are newly marked, and these are the ones asked too late. -/
structure Noted (maxChildren : Nat) (requests : List Request) (t : CallTree FrameCounts)
    (growth : TreeGrowth) (t' : CallTree FrameCounts) (growth' : TreeGrowth) : Prop where
  length_eq : growth'.collapsedAt.length + (marks t).length =
    growth.collapsedAt.length + (marks t').length
  mem_iff : ∀ index, index ∈ marks t' ↔ index ∈ marks t ∨
    ∃ r ∈ requests, r.isLate maxChildren = true ∧ r.node.label.index = index

theorem Noted.refl (maxChildren : Nat) (t : CallTree FrameCounts) (growth : TreeGrowth) :
    Noted maxChildren [] t growth t growth :=
  ⟨rfl, fun _ => by simp⟩

theorem Noted.trans {requests requests' : List Request} {t'' : CallTree FrameCounts}
    {growth'' : TreeGrowth} (h : Noted maxChildren requests t growth t' growth')
    (h' : Noted maxChildren requests' t' growth' t'' growth'') :
    Noted maxChildren (requests ++ requests') t growth t'' growth'' := by
  refine ⟨?_, fun index => ?_⟩
  · have hlength := h.length_eq
    have hlength' := h'.length_eq
    omega
  · rw [h'.mem_iff, h.mem_iff, or_assoc]
    simp only [List.mem_append, or_and_right, exists_or]

theorem length_marks (t : CallTree FrameCounts) :
    (marks t).length = (if t.label.collapsed then 1 else 0) + (marksAll t.children).length := by
  rw [marks_eq, List.length_append]
  cases t.label.collapsed <;> rfl

theorem mem_marks {index : Nat} : index ∈ marks t ↔
    t.label.collapsed = true ∧ t.label.index = index ∨ index ∈ marksAll t.children := by
  rw [marks_eq, List.mem_append]
  cases t.label.collapsed <;> simp [eq_comm]

theorem marks_withLabel {label : FrameCounts} (hcollapsed : label.collapsed = t.label.collapsed)
    (hindex : label.index = t.label.index) : marks (t.withLabel label) = marks t := by
  rw [marks_eq, marks_eq t, label_withLabel, children_withLabel, hcollapsed, hindex]

theorem marks_of_leaf (h : t.children = []) (hcollapsed : t.label.collapsed = false) :
    marks t = [] := by
  rw [marks_eq, hcollapsed, h]
  rfl

/-- Beside the marks beneath the child that a step leads to, all marks stay. -/
theorem exists_marks_putChild (config : TreeConfig) (hordered : Ordered t.children)
    (growth : TreeGrowth) (name : String) {child' : CallTree FrameCounts}
    (hname : child'.name = (childFor config t growth name).child.name) :
    ∃ others, (marksAll (place child' t.children)).Perm (marks child' ++ others) ∧
      (marksAll t.children).Perm (marks (childFor config t growth name).child ++ others) := by
  obtain ⟨others, hplace, hreached⟩ :=
    (isStep_childFor config t growth name).perm_children hordered hname
  refine ⟨marksAll others, hplace.flatMap_right marks, ?_⟩
  rcases hreached with ⟨hold, -⟩ | ⟨hold, hfresh, -⟩
  · exact hold.flatMap_right marks
  · rw [hfresh, marks_of_leaf rfl rfl]
    exact hold.flatMap_right marks

/-- **Inserting beneath a node** marks and notes the nodes that are asked too late. -/
theorem noted_insertBelow (hordered : t.IsOrdered)
    (h : insertBelow config count names t growth = .ok (t', growth')) :
    Noted config.maxChildren (requestsBelow config count names t growth) t growth t' growth' := by
  induction names generalizing t growth t' with
  | nil =>
    obtain ⟨rfl, rfl⟩ := eq_of_insertBelow_nil h
    have hmarks : marks (t.withLabel
        { t.label with selfCount := t.label.selfCount + count }) = marks t :=
      marks_withLabel rfl rfl
    refine ⟨by rw [hmarks], fun index => ?_⟩
    rw [hmarks]
    simp [requestsBelow]
  | cons name names ih =>
    obtain ⟨child', hrest, -, rfl⟩ := exists_of_insertBelow_asked h
    obtain ⟨-, -, hlength⟩ := childFor_spec config t growth name
    obtain ⟨hlengthBelow, hmemBelow⟩ :=
      ih (isOrdered_counted config hordered growth name count) hrest
    obtain ⟨others, hafter, hbefore⟩ := exists_marks_putChild config hordered.children growth name
      (kept_of_insertBelow hrest).1
    have hcounted : marks ((childFor config t growth name).counted count) =
        marks (childFor config t growth name).child :=
      marks_withLabel rfl rfl
    rw [hcounted] at hlengthBelow hmemBelow
    refine ⟨?_, fun index => ?_⟩
    · have hlengths := hafter.length_eq
      have hlengths' := hbefore.length_eq
      rw [List.length_append] at hlengths hlengths'
      rw [length_marks, length_marks, children_putChild, asked, children_withLabel,
        label_putChild, label_withLabel, hlengths, hlengths']
      -- the node itself is one more if it is marked only now
      cases hlate : isLate config.maxChildren t name <;> cases hmarked : t.label.collapsed <;>
        simp [hlate, hmarked] at hlength ⊢ <;> omega
    · rw [mem_marks, mem_marks, children_putChild, asked, children_withLabel,
        label_putChild, label_withLabel, hafter.mem_iff, hbefore.mem_iff, List.mem_append,
        List.mem_append, hmemBelow, requestsBelow, List.exists_mem_cons_iff, Bool.or_eq_true,
        or_and_right]
      simp only [Request.isLate, or_assoc, or_left_comm, or_comm]

theorem noted_insert (hordered : tree.root.IsOrdered) (h : tree.insert path count = .ok tree') :
    Noted tree.config.maxChildren (tree.requests path count) tree.root tree.growth tree'.root
      tree'.growth := by
  rcases cases_of_insert h with ⟨rfl, hignored⟩ | ⟨-, hcount, root, growth, hbelow, -, rfl⟩
  · rw [requests_of_ignored hignored]
    exact .refl _ _ _
  · obtain ⟨hlength, hmem⟩ := noted_insertBelow hordered hbelow
    have hmarks : marks (root.withLabel
        { root.label with inclusive := root.label.inclusive + count }) = marks root :=
      marks_withLabel rfl rfl
    rw [requests_of_pos hcount]
    exact ⟨hmarks ▸ hlength, hmarks ▸ hmem⟩

/-- **A run of insertions** marks and notes the nodes that are asked too late. -/
theorem noted_insertAll (hcounted : Counted tree total) (h : tree.insertAll paths = .ok tree') :
    Noted tree.config.maxChildren (tree.requestsAll paths) tree.root tree.growth tree'.root
      tree'.growth := by
  induction paths generalizing tree total with
  | nil =>
    cases h
    exact .refl _ _ _
  | cons entry paths ih =>
    obtain ⟨path, count⟩ := entry
    obtain ⟨tree₁, hfirst, hrest⟩ := exists_of_insertAll_cons h
    obtain ⟨-, hconfig⟩ := persists_insert hfirst
    have hnoted := ih (hcounted.of_insert hfirst) hrest
    rw [hconfig] at hnoted
    rw [requestsAll_cons hfirst]
    exact (noted_insert hcounted.isOrdered hfirst).trans hnoted

/-- Numbers of the nodes that were asked for an absent name when they had taken their fill. -/
def askedTooLate (maxChildren : Nat) (requests : List Request) : Finset Nat :=
  ((requests.filter (·.isLate maxChildren)).map (·.node.label.index)).toFinset

/-- **The number of nodes with collapsed names** is that of the nodes asked too late. -/
theorem overflowedParents_eq (h : (FrameTree.empty config).insertAll paths = .ok tree) :
    tree.overflowedParents =
      (askedTooLate config.maxChildren ((FrameTree.empty config).requestsAll paths)).card := by
  have hcounted := (Counted.empty config).of_insertAll h
  have hempty : marks (FrameTree.empty config).root = [] := marks_of_leaf rfl rfl
  obtain ⟨hlength, hmem⟩ := noted_insertAll (Counted.empty config) h
  rw [hempty] at hlength hmem
  have hnodup : (marks tree.root).Nodup :=
    hcounted.nodup_indices.sublist (List.filter_sublist.map _)
  have hsame : askedTooLate config.maxChildren ((FrameTree.empty config).requestsAll paths) =
      (marks tree.root).toFinset := by
    ext index
    rw [List.mem_toFinset, hmem, askedTooLate, List.mem_toFinset, List.mem_map]
    simp only [List.mem_filter, List.not_mem_nil, false_or, and_assoc]
    rfl
  rw [hsame, List.toFinset_card_of_nodup hnodup]
  exact hlength.trans (Nat.zero_add _)

/-! ## Section 4: Every history -/

/-- An insertion has ended at the node of a number: its self count is the only one to grow. -/
structure EndsAt (tree tree' : FrameTree) (count : Nat) (place : List String) (index : Nat) :
    Prop where
  stands : ∃ u, tree'.find? place = some u ∧ u.label.index = index
  selfAt_eq : ∀ names, valueAt (·.label.selfCount) tree'.root names =
    valueAt (·.label.selfCount) tree.root names + if names = place then count else 0

/-- Each name of a route is the one of the path, or it is `[other]`. -/
theorem forall₂_route (maxChildren : Nat) (t : CallTree FrameCounts) (names : List String) :
    List.Forall₂ (fun own name => own = name ∨ own = otherName) (route maxChildren t names)
      names := by
  induction names generalizing t with
  | nil => exact .nil
  | cons name names ih =>
    refine .cons ?_ (ih _)
    cases hlate : isLate maxChildren t name with
    | false => exact .inl (standIn_of_not_isLate hlate)
    | true => exact .inr (standIn_of_isLate hlate)

/-- The self count of the node that the route leads to is the only one to grow. -/
theorem selfAt_insert (h : tree.insert path count = .ok tree') (hpath : path ≠ []) :
    ∀ names, valueAt (·.label.selfCount) tree'.root names =
      valueAt (·.label.selfCount) tree.root names +
        if names = route tree.config.maxChildren tree.root path then count else 0 := by
  intro names
  rcases cases_of_insert h with ⟨rfl, hignored⟩ | ⟨-, -, root, growth, hbelow, -, rfl⟩
  · rw [hignored.resolve_left hpath, ite_self, Nat.add_zero]
  · exact (valueAt_withLabel rfl names).trans ((extended_route hbelow).selfAt_eq names)

/-- Once a path has been inserted, its route leads to where it has been counted. -/
theorem settled_insert (h : tree.insert path count = .ok tree') (hpath : path ≠ [])
    (hcount : 0 < count) :
    Settled tree.config.maxChildren tree'.root path ∧
      route tree.config.maxChildren tree'.root path =
        route tree.config.maxChildren tree.root path := by
  obtain ⟨root, growth, hbelow, -, rfl⟩ := exists_of_insert h hpath hcount
  refine ⟨(settled_insertBelow hbelow).of_persists (.withLabel rfl), ?_⟩
  rw [route_withLabel]
  exact route_insertBelow hbelow

theorem size_insert_of_settled (hsettled : Settled tree.config.maxChildren tree.root path)
    (h : tree.insert path count = .ok tree') : tree'.size = tree.size := by
  rcases cases_of_insert h with ⟨rfl, -⟩ | ⟨-, -, root, growth, hbelow, -, rfl⟩
  · rfl
  · exact hsettled.size_eq hbelow

/-- **A path that has been inserted** ends at the same node whenever it is inserted again. -/
theorem insert_again (hcounted : Counted tree total) (hpath : path ≠ []) (hcount : 0 < count)
    (hfit : total + count < wordLimit 64) :
    ∃ tree' place index, tree.insert path count = .ok tree' ∧
      List.Forall₂ (fun own name => own = name ∨ own = otherName) place path ∧
      EndsAt tree tree' count place index ∧
      ∀ further later, tree'.insertAll further = .ok later →
        ∀ again, later.totalSamples + again < wordLimit 64 →
          ∃ later', later.insert path again = .ok later' ∧
            EndsAt later later' again place index ∧ later'.size = later.size := by
  obtain ⟨tree', hinsert, hcounted', hconfig⟩ := hcounted.insert path count hfit
  obtain ⟨hsettled, hroute⟩ := settled_insert hinsert hpath hcount
  have hplace := hsettled
  rw [Settled, hroute] at hplace
  obtain ⟨u, hu⟩ := Option.isSome_iff_exists.mp hplace
  refine ⟨tree', _, u.label.index, hinsert, forall₂_route _ _ _,
    ⟨⟨u, hu, rfl⟩, selfAt_insert hinsert hpath⟩, fun further later hlater again hagain => ?_⟩
  obtain ⟨hpersists, hconfigLater⟩ := persists_insertAll hlater
  rw [hconfig] at hpersists hconfigLater
  have hcountedLater := hcounted'.of_insertAll hlater
  obtain ⟨later', hinsertAgain, -, -⟩ :=
    hcountedLater.insert path again (hcountedLater.inclusive_eq ▸ hagain)
  refine ⟨later', hinsertAgain, ⟨?_, ?_⟩, ?_⟩
  · -- the node is where it was, with its number, in the tree before and in the one after
    obtain ⟨hpersistsAgain, -⟩ := persists_insert hinsertAgain
    rw [hconfigLater] at hpersistsAgain
    obtain ⟨v, hv, hkept⟩ := hpersists.trans hpersistsAgain _ u hu
    exact ⟨v, hv, hkept.index_eq⟩
  · have hself := selfAt_insert hinsertAgain hpath
    rwa [hconfigLater, hsettled.route_eq hpersists, hroute] at hself
  · refine size_insert_of_settled ?_ hinsertAgain
    rw [hconfigLater]
    exact hsettled.of_persists hpersists

/--
**Routing by the bound on children is stable and bounded.** After any insertions that did not
overflow, no node has more than `maxChildren` children with names of their own, nor more than one
further child. The number of nodes with collapsed names is that of the nodes that have ever been
asked for an absent name when they had taken their fill. Every request that has ever been made would
be answered by the same child again: the one of that name if the request did not come too late, and
`[other]` if it did. A path that is inserted ends at one node; inserting it again, after whatever
else has been inserted, ends at the same node and creates none.
-/
theorem insertAll_routing (config : TreeConfig) (history : List (List String × Nat))
    {tree : FrameTree} (h : (FrameTree.empty config).insertAll history = .ok tree) :
    (∀ u ∈ tree.root.preorder,
        (u.children.filter (·.name != otherName)).length ≤ config.maxChildren ∧
          u.children.length ≤ config.maxChildren + 1) ∧
      tree.overflowedParents =
        (askedTooLate config.maxChildren ((FrameTree.empty config).requestsAll history)).card ∧
      (∀ r ∈ (FrameTree.empty config).requestsAll history,
        ∃ place u v, tree.find? place = some u ∧ u.label.index = r.node.label.index ∧
          u.child? (if r.isLate config.maxChildren then otherName else r.name) = some v ∧
          v.label.index = r.child.label.index ∧
          ∀ growth, (childFor config u growth r.name).child = v ∧
            (childFor config u growth r.name).growth.size = growth.size) ∧
      ∀ path count, path ≠ [] → 0 < count → tree.totalSamples + count < wordLimit 64 →
        ∃ tree' place index, tree.insert path count = .ok tree' ∧
          List.Forall₂ (fun own name => own = name ∨ own = otherName) place path ∧
          EndsAt tree tree' count place index ∧
          ∀ further later, tree'.insertAll further = .ok later →
            ∀ again, later.totalSamples + again < wordLimit 64 →
              ∃ later', later.insert path again = .ok later' ∧
                EndsAt later later' again place index ∧ later'.size = later.size := by
  have hcounted := (Counted.empty config).of_insertAll h
  have hordered := hcounted.isOrdered
  have hcap : WithinCap config.maxChildren tree.root :=
    (withinCap_of_leaf rfl).insertAll (Counted.empty config) h
  refine ⟨fun u hu => ⟨?_, hcap.length_le hordered hu⟩, overflowedParents_eq h, fun r hr => ?_,
    fun path count hpath hcount hfit => ?_⟩
  · rw [← List.countP_eq_length_filter]
    exact hcap u hu
  · obtain ⟨place, u, hfind, hanswered⟩ := stillAnswered_insertAll h r hr
    obtain ⟨v, hchild, hindex⟩ := hanswered.child
    refine ⟨place, u, v, hfind, hanswered.kept.index_eq, hchild, hindex, fun growth => ?_⟩
    obtain ⟨hagain, hsize⟩ := hanswered.childFor_eq growth
    exact ⟨Option.some.inj (hagain.symm.trans hchild), hsize⟩
  · exact insert_again hcounted hpath hcount (hcounted.inclusive_eq ▸ hfit)

/-- The tree of two paths with room for one child, where the second name came too late. -/
def sharedTree : FrameTree where
  config := { maxChildren := 1 }
  root := .node rootName { index := 0, depth := 0, inclusive := 3, collapsed := true }
    [.node otherName { index := 2, depth := 1, inclusive := 2 }
      [.node "c" { index := 3, depth := 2, inclusive := 2, selfCount := 2 } []],
    .node "a" { index := 1, depth := 1, inclusive := 1, selfCount := 1 } []]
  growth := { size := 4, maxDepth := 2, collapsedAt := [rootName] }

/-- A third name shares the child of the second one, now and when it is inserted again. -/
theorem insertAll_routing_shared :
    (FrameTree.empty { maxChildren := 1 }).insertAll [(["a"], 1), (["b", "c"], 2)] =
        .ok sharedTree ∧
      sharedTree.overflowedParents = 1 ∧
      (∀ u ∈ sharedTree.root.preorder, u.children.length ≤ 2) ∧
      ∃ tree' place index, sharedTree.insert ["d", "c"] 5 = .ok tree' ∧
        EndsAt sharedTree tree' 5 place index ∧
        ∃ later, tree'.insert ["d", "c"] 7 = .ok later ∧ EndsAt tree' later 7 place index ∧
          later.size = tree'.size := by
  have hinsert : (FrameTree.empty { maxChildren := 1 }).insertAll
      [(["a"], 1), (["b", "c"], 2)] = .ok sharedTree := by rfl
  obtain ⟨hcap, -, -, hagain⟩ := insertAll_routing _ _ hinsert
  obtain ⟨tree', place, index, hinsert', -, hends, hstable⟩ :=
    hagain ["d", "c"] 5 (by decide) (by decide) (by decide)
  have hfit : tree'.totalSamples + 7 < wordLimit 64 := by
    cases hinsert'
    decide
  obtain ⟨later, hlater, hendsAgain, hsize⟩ := hstable [] tree' rfl 7 hfit
  exact ⟨hinsert, rfl, fun u hu => (hcap u hu).2, tree', place, index, hinsert', hends, later,
    hlater, hendsAgain, hsize⟩

end FrameTree

end StackProfiler
