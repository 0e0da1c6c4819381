import StackProfiler.Proofs.CallTree

/-!
# Call trees with other labels

A path leads in a relabelled tree to the relabelled node (`CallTree.find?_map`), its nodes stand in
the same order, and it is as high. The height is how far the deepest node lies beneath the root,
for whatever counts the levels (`CallTree.height_spec`).
-/

namespace StackProfiler.CallTree

variable {α β : Type}

/-! ## Section 1: Other labels -/

theorem mapAll_eq_map (g : Nat → α → β) (depth : Nat) (ts : List (CallTree α)) :
    mapAll g depth ts = ts.map (map g depth) := by
  induction ts with
  | nil => rfl
  | cons t ts ih => rw [mapAll, ih, List.map_cons]

@[simp]
theorem name_map (g : Nat → α → β) (depth : Nat) (t : CallTree α) :
    (t.map g depth).name = t.name := by
  cases t
  rfl

@[simp]
theorem label_map (g : Nat → α → β) (depth : Nat) (t : CallTree α) :
    (t.map g depth).label = g depth t.label := by
  cases t
  rfl

@[simp]
theorem children_map (g : Nat → α → β) (depth : Nat) (t : CallTree α) :
    (t.map g depth).children = t.children.map (map g (depth + 1)) := by
  cases t
  exact mapAll_eq_map ..

theorem find?_mapAll (g : Nat → α → β) (depth : Nat) (ts : List (CallTree α)) (name : String) :
    (mapAll g depth ts).find? (·.name == name) =
      (ts.find? (·.name == name)).map (map g depth) := by
  have hname : (fun t : CallTree β => t.name == name) ∘ map g depth = (·.name == name) :=
    funext fun t => by rw [Function.comp_apply, name_map]
  rw [mapAll_eq_map, List.find?_map, hname]

/-- With other labels, a path leads to the same node. -/
theorem find?_map (g : Nat → α → β) (depth : Nat) (t : CallTree α) (path : List String) :
    (t.map g depth).find? path = (t.find? path).map (map g (depth + path.length)) := by
  induction path generalizing t depth with
  | nil => rfl
  | cons name path ih =>
    have hchild : (t.map g depth).child? name = (t.child? name).map (map g (depth + 1)) := by
      rw [child?, child?, children_map, ← mapAll_eq_map, find?_mapAll]
    rw [find?, find?, hchild]
    cases t.child? name with
    | none => rfl
    | some u =>
      rw [Option.map_some, Option.bind_some, Option.bind_some, ih, List.length_cons]
      congr 2
      omega

theorem Ordered.map (g : Nat → α → β) (depth : Nat) {ts : List (CallTree α)} (h : Ordered ts) :
    Ordered (ts.map (map g depth)) := by
  refine List.pairwise_map.mpr (h.imp fun {t u} hlt => ?_)
  rwa [name_map, name_map]

/-- A tree is in order if its children are, among each other and each of them. -/
theorem isOrdered_of_children {t : CallTree α} (h : Ordered t.children)
    (hbelow : ∀ u ∈ t.children, u.IsOrdered) : t.IsOrdered := by
  intro v hv
  rw [preorder_eq] at hv
  rcases List.mem_cons.mp hv with rfl | hv
  · exact h
  · obtain ⟨u, hu, hvu⟩ := mem_preorderAll.mp hv
    exact hbelow u hu v hvu

theorem IsOrdered.map (g : Nat → α → β) (depth : Nat) {t : CallTree α} (h : t.IsOrdered) :
    (t.map g depth).IsOrdered := by
  induction t using induction_on generalizing depth with
  | h t ih =>
    refine isOrdered_of_children ?_ ?_
    · rw [children_map]
      exact h.children.map g _
    · intro v hv
      rw [children_map] at hv
      obtain ⟨u, hu, rfl⟩ := List.mem_map.mp hv
      exact ih u hu _ (h.of_mem hu)

/-- The same tree with other labels, which do not depend on the depth of a node. -/
def relabel (g : α → β) (t : CallTree α) : CallTree β :=
  t.map (fun _ => g) 0

theorem ext {t u : CallTree α} (hname : t.name = u.name) (hlabel : t.label = u.label)
    (hchildren : t.children = u.children) : t = u := by
  cases t
  cases u
  cases hname
  cases hlabel
  cases hchildren
  rfl

theorem map_eq_relabel (g : α → β) (depth : Nat) (t : CallTree α) :
    t.map (fun _ => g) depth = t.relabel g := by
  induction t using induction_on generalizing depth with
  | h t ih =>
    refine ext ?_ ?_ ?_
    · rw [relabel, name_map, name_map]
    · rw [relabel, label_map, label_map]
    · rw [relabel, children_map, children_map]
      exact List.map_congr_left fun u hu => (ih u hu _).trans (ih u hu _).symm

@[simp]
theorem name_relabel (g : α → β) (t : CallTree α) : (t.relabel g).name = t.name :=
  name_map ..

@[simp]
theorem label_relabel (g : α → β) (t : CallTree α) : (t.relabel g).label = g t.label :=
  label_map ..

@[simp]
theorem children_relabel (g : α → β) (t : CallTree α) :
    (t.relabel g).children = t.children.map (relabel g) := by
  rw [relabel, children_map]
  exact List.map_congr_left fun u _ => map_eq_relabel g _ u

theorem find?_relabel (g : α → β) (t : CallTree α) (path : List String) :
    (t.relabel g).find? path = (t.find? path).map (relabel g) := by
  rw [relabel, find?_map]
  congr 1
  funext u
  exact map_eq_relabel g _ u

/-! ## Section 2: Heights -/

theorem height_eq (t : CallTree α) : t.height = heightAll t.children := by
  cases t
  rfl

theorem heightAll_map {g : CallTree α → CallTree β} {ts : List (CallTree α)}
    (h : ∀ t ∈ ts, (g t).height = t.height) : heightAll (ts.map g) = heightAll ts := by
  induction ts with
  | nil => rfl
  | cons t ts ih =>
    obtain ⟨ht, hts⟩ := List.forall_mem_cons.mp h
    rw [List.map_cons, heightAll, heightAll, ht, ih hts]

@[simp]
theorem height_map (g : Nat → α → β) (depth : Nat) (t : CallTree α) :
    (t.map g depth).height = t.height := by
  induction t using induction_on generalizing depth with
  | h t ih =>
    rw [height_eq, height_eq t, children_map]
    exact heightAll_map fun u hu => ih u hu (depth + 1)

theorem height_lt_heightAll {t : CallTree α} {ts : List (CallTree α)} (h : t ∈ ts) :
    t.height < heightAll ts := by
  induction h with
  | head => rw [heightAll]; omega
  | tail _ _ ih => rw [heightAll]; omega

/-- Among trees, the highest one reaches the height of them all. -/
theorem exists_height_eq {ts : List (CallTree α)} (h : ts ≠ []) :
    ∃ t ∈ ts, heightAll ts = t.height + 1 := by
  induction ts with
  | nil => exact absurd rfl h
  | cons t ts ih =>
    rw [heightAll]
    rcases Nat.le_total (heightAll ts) (t.height + 1) with hle | hle
    · exact ⟨t, List.mem_cons_self, Nat.max_eq_left hle⟩
    · have hts : ts ≠ [] := by
        rintro rfl
        exact absurd hle (Nat.not_le.mpr (Nat.succ_pos _))
      obtain ⟨u, hu, hheight⟩ := ih hts
      exact ⟨u, List.mem_cons_of_mem _ hu, (Nat.max_eq_right hle).trans hheight⟩

/-- **The height** is the distance from the root to the deepest node, in any count of levels. -/
theorem height_spec (depthOf : CallTree α → Nat) {t : CallTree α}
    (h : ∀ u ∈ t.preorder, ∀ v ∈ u.children, depthOf v = depthOf u + 1) :
    (∀ u ∈ t.preorder, depthOf u ≤ depthOf t + t.height) ∧
      ∃ u ∈ t.preorder, depthOf u = depthOf t + t.height := by
  induction t using induction_on with
  | h t ih =>
    have hsub : ∀ v ∈ t.children, ∀ w ∈ v.preorder, w ∈ t.preorder := by
      intro v hv w hw
      rw [preorder_eq]
      exact List.mem_cons_of_mem _ (mem_preorderAll.mpr ⟨v, hv, hw⟩)
    have hchild : ∀ v ∈ t.children, depthOf v = depthOf t + 1 := h t (mem_preorder_self t)
    rw [height_eq]
    constructor
    · intro u hu
      rw [preorder_eq] at hu
      rcases List.mem_cons.mp hu with rfl | hu
      · exact Nat.le_add_right _ _
      · obtain ⟨v, hv, huv⟩ := mem_preorderAll.mp hu
        have hle := (ih v hv fun w hw => h w (hsub v hv w hw)).1 u huv
        have hlt := height_lt_heightAll hv
        rw [hchild v hv] at hle
        omega
    · by_cases hleaf : t.children = []
      · exact ⟨t, mem_preorder_self t, by rw [hleaf]; rfl⟩
      · obtain ⟨v, hv, hheight⟩ := exists_height_eq hleaf
        obtain ⟨u, hu, hdepth⟩ := (ih v hv fun w hw => h w (hsub v hv w hw)).2
        refine ⟨u, hsub v hv u hu, ?_⟩
        rw [hdepth, hchild v hv, hheight]
        omega

/-- No path leads further than the height. -/
theorem length_le_height {t u : CallTree α} {path : List String} (h : t.find? path = some u) :
    path.length ≤ t.height := by
  induction path generalizing t with
  | nil => exact Nat.zero_le _
  | cons name path ih =>
    obtain ⟨v, hchild, hfind⟩ := Option.bind_eq_some_iff.mp h
    have hlt := height_lt_heightAll (List.mem_of_find?_eq_some hchild)
    rw [height_eq, List.length_cons]
    exact Nat.lt_of_le_of_lt (ih hfind) hlt

/-- Some path leads as far as the height. -/
theorem exists_length_eq_height {t : CallTree α} (h : t.IsOrdered) :
    ∃ path u, t.find? path = some u ∧ path.length = t.height := by
  induction t using induction_on with
  | h t ih =>
    rw [height_eq]
    by_cases hleaf : t.children = []
    · exact ⟨[], t, rfl, by rw [hleaf]; rfl⟩
    · obtain ⟨v, hv, hheight⟩ := exists_height_eq hleaf
      obtain ⟨path, u, hfind, hlength⟩ := ih v hv (h.of_mem hv)
      refine ⟨v.name :: path, u, ?_, by rw [hheight, List.length_cons, hlength]⟩
      rw [find?, (child?_eq_some_iff h.children).mpr ⟨hv, rfl⟩, Option.bind_some, hfind]

/-- **The depth of a node** is the length of its path, in any count of levels. -/
theorem depth_of_find? (depthOf : CallTree α → Nat) {t u : CallTree α}
    (h : ∀ v ∈ t.preorder, ∀ w ∈ v.children, depthOf w = depthOf v + 1) {path : List String}
    (hfind : t.find? path = some u) : depthOf u = depthOf t + path.length := by
  induction path generalizing t with
  | nil =>
    cases hfind
    rfl
  | cons name path ih =>
    obtain ⟨v, hchild, hfind⟩ := Option.bind_eq_some_iff.mp hfind
    have hv := List.mem_of_find?_eq_some hchild
    have hbelow : ∀ w ∈ v.preorder, ∀ x ∈ w.children, depthOf x = depthOf w + 1 := by
      intro w hw
      apply h
      rw [preorder_eq]
      exact List.mem_cons_of_mem _ (mem_preorderAll.mpr ⟨v, hv, hw⟩)
    rw [ih hbelow hfind, h t (mem_preorder_self t) v hv, List.length_cons, Nat.add_right_comm,
      Nat.add_assoc]

/-! ## Section 3: Trees that hold the same -/

/-- Siblings in order are determined by what the names lead to. -/
theorem Ordered.eq_of_find? {ts us : List (CallTree α)} (hts : Ordered ts) (hus : Ordered us)
    (h : ∀ name : String, ts.find? (·.name == name) = us.find? (·.name == name)) : ts = us := by
  have hnodup : ∀ {vs : List (CallTree α)}, Ordered vs → vs.Nodup := fun hvs =>
    hvs.imp fun hlt heq => String.ne_of_lt hlt (congrArg name heq)
  have hperm : ts.Perm us := by
    refine (List.perm_ext_iff_of_nodup (hnodup hts) (hnodup hus)).mpr fun v => ?_
    have hfound : ts.find? (·.name == v.name) = some v ↔ us.find? (·.name == v.name) = some v := by
      rw [h]
    rw [hts.find?_eq_some_iff, hus.find?_eq_some_iff] at hfound
    simpa using hfound
  exact hperm.eq_of_pairwise (fun v w _ _ hlt hgt => absurd hgt (String.lt_asymm hlt)) hts hus

/-- **Extensionality**: a tree in order is determined by the labels at its paths. -/
theorem eq_of_find? {t u : CallTree α} (ht : t.IsOrdered) (hu : u.IsOrdered)
    (hname : t.name = u.name)
    (h : ∀ path, (t.find? path).map label = (u.find? path).map label) : t = u := by
  induction t using induction_on generalizing u with
  | h t ih =>
    refine ext hname (Option.some.inj (h [])) (ht.children.eq_of_find? hu.children fun name => ?_)
    -- what is below a child is below the node, behind the name of the child
    have hbelow : ∀ path, ((t.child? name).bind (·.find? path)).map label =
        ((u.child? name).bind (·.find? path)).map label := fun path => h (name :: path)
    rw [← child?, ← child?]
    cases ht' : t.child? name with
    | none =>
      cases hu' : u.child? name with
      | none => rfl
      | some u' => simpa [ht', hu', find?] using hbelow []
    | some t' =>
      cases hu' : u.child? name with
      | none => simpa [ht', hu', find?] using hbelow []
      | some u' =>
        simp only [ht', hu', Option.bind_some] at hbelow
        obtain ⟨hmem, htname⟩ := (child?_eq_some_iff ht.children).mp ht'
        obtain ⟨hmem', huname⟩ := (child?_eq_some_iff hu.children).mp hu'
        rw [ih t' hmem (ht.of_mem hmem) (hu.of_mem hmem') (htname.trans huname.symm) hbelow]

end StackProfiler.CallTree
