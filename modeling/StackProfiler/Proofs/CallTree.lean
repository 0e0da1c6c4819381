import Mathlib.Data.List.Lex
import Mathlib.Data.List.Nodup
import Mathlib.Data.List.Perm.Basic
import StackProfiler.CallTree

/-!
# Nodes and paths of a call tree

What putting a child among its siblings does to the node that is found by a path, and to the nodes
of the tree as a whole. In a tree whose siblings are in order, the nodes and the paths on which
they are found determine each other (`CallTree.mem_nodePaths_iff`), and the usual order of the nodes
is that of their paths (`CallTree.pairwise_before_nodePaths`).
-/

namespace StackProfiler.CallTree

variable {α : Type}

/-! ## Section 1: Parts of a node -/

@[simp]
theorem label_withLabel (t : CallTree α) (a : α) : (t.withLabel a).label = a := rfl

@[simp]
theorem children_withLabel (t : CallTree α) (a : α) : (t.withLabel a).children = t.children := rfl

@[simp]
theorem label_putChild (parent t : CallTree α) : (parent.putChild t).label = parent.label := rfl

@[simp]
theorem children_putChild (parent t : CallTree α) :
    (parent.putChild t).children = place t parent.children := rfl

theorem preorderAll_eq_flatMap (ts : List (CallTree α)) :
    preorderAll ts = ts.flatMap preorder := by
  induction ts with
  | nil => rfl
  | cons t ts ih => rw [preorderAll, ih, List.flatMap_cons]

theorem preorder_eq (t : CallTree α) : t.preorder = t :: preorderAll t.children := by
  cases t
  rfl

theorem mem_preorder_self (t : CallTree α) : t ∈ t.preorder := by
  rw [preorder_eq]
  exact List.mem_cons_self ..

theorem mem_preorderAll {u : CallTree α} {ts : List (CallTree α)} :
    u ∈ preorderAll ts ↔ ∃ t ∈ ts, u ∈ t.preorder := by
  rw [preorderAll_eq_flatMap, List.mem_flatMap]

/-- Induction over a tree: what is true of a node if it is true of its children is always true. -/
theorem induction_on {motive : CallTree α → Prop}
    (h : ∀ t, (∀ u ∈ t.children, motive u) → motive t) (t : CallTree α) : motive t := by
  generalize hsize : t.size = n
  induction n using Nat.strongRecOn generalizing t with
  | ind n ih =>
    apply h
    intro u hu
    have hlt : u.size < n := by
      cases t with
      | node name a ts =>
        have hle := size_le_sizeAll hu
        rw [size] at hsize
        rw [children] at hle
        omega
    exact ih u.size hlt u rfl

/-! ## Section 2: Siblings in order -/

/-- The nodes stand in ascending order of their names. -/
def Ordered (ts : List (CallTree α)) : Prop :=
  ts.Pairwise fun t u => t.name < u.name

theorem eq_or_mem_of_mem_place {t u : CallTree α} {us : List (CallTree α)}
    (h : u ∈ place t us) : u = t ∨ u ∈ us := by
  induction us with
  | nil => exact .inl (List.mem_singleton.mp h)
  | cons v vs ih =>
    unfold place at h
    split at h
    · exact List.mem_cons.mp h
    · split at h
      · exact (List.mem_cons.mp h).imp id (List.mem_cons_of_mem _)
      · rcases List.mem_cons.mp h with rfl | h
        · exact .inr (List.mem_cons_self ..)
        · exact (ih h).imp id (List.mem_cons_of_mem _)

/-- Putting a node in its place takes at most a node of its name away. -/
theorem length_le_length_place (t : CallTree α) (us : List (CallTree α)) :
    us.length ≤ (place t us).length := by
  induction us with
  | nil => exact Nat.zero_le _
  | cons u us ih =>
    unfold place
    split
    · exact Nat.le_succ _
    · split
      · exact Nat.le_refl _
      · exact Nat.succ_le_succ ih

/-- Putting a node in its place keeps siblings in order. -/
theorem Ordered.place {t : CallTree α} {us : List (CallTree α)} (h : Ordered us) :
    Ordered (place t us) := by
  induction us with
  | nil => exact List.pairwise_singleton _ _
  | cons u us ih =>
    obtain ⟨hhead, htail⟩ := List.pairwise_cons.mp h
    unfold CallTree.place
    split
    case isTrue hlt =>
      refine List.pairwise_cons.mpr ⟨?_, h⟩
      intro v hv
      rcases List.mem_cons.mp hv with rfl | hv
      · exact hlt
      · exact String.lt_trans hlt (hhead v hv)
    case isFalse hlt =>
      split
      case isTrue heq =>
        refine List.pairwise_cons.mpr ⟨?_, htail⟩
        intro v hv
        rw [heq]
        exact hhead v hv
      case isFalse hne =>
        refine List.pairwise_cons.mpr ⟨?_, ih htail⟩
        intro v hv
        rcases eq_or_mem_of_mem_place hv with rfl | hv
        · -- neither smaller nor equal, so the new name is larger
          apply String.not_le.mp
          intro hle
          exact hne (String.le_antisymm hle (String.not_lt.mp hlt))
        · exact hhead v hv

/-- The node is found by its name, and every other name finds what it found before. -/
theorem find?_place (t : CallTree α) (us : List (CallTree α)) (name : String) :
    (place t us).find? (·.name == name) =
      if t.name = name then some t else us.find? (·.name == name) := by
  induction us with
  | nil =>
    by_cases h : t.name = name <;> simp [place, h]
  | cons u us ih =>
    unfold place
    split
    · by_cases h : t.name = name <;> simp [h]
    · split
      case isTrue heq =>
        by_cases h : t.name = name
        · simp [h]
        · have hu : u.name ≠ name := heq ▸ h
          simp [h, hu]
      case isFalse hne =>
        rw [List.find?_cons, ih, List.find?_cons]
        by_cases hu : u.name = name
        · have ht : t.name ≠ name := fun h => hne (h.trans hu.symm)
          simp [hu, ht]
        · have hbeq : (u.name == name) = false := by simpa using hu
          rw [hbeq]

theorem child?_putChild (parent t : CallTree α) (name : String) :
    (parent.putChild t).child? name = if t.name = name then some t else parent.child? name :=
  find?_place t parent.children name

/-- Below the new child, a path is followed in it; every other path is followed as before. -/
theorem find?_putChild_cons (parent t : CallTree α) (name : String) (names : List String) :
    (parent.putChild t).find? (name :: names) =
      if t.name = name then t.find? names else parent.find? (name :: names) := by
  rw [find?, child?_putChild]
  split
  · rfl
  · rw [find?]

/-- Of nodes in order, the node takes the place of the one of its name, if there is one. -/
theorem Ordered.exists_others (t : CallTree α) {us : List (CallTree α)} (h : Ordered us) :
    ∃ others, (CallTree.place t us).Perm (t :: others) ∧
      us.Perm ((us.find? (·.name == t.name)).toList ++ others) := by
  induction us with
  | nil => exact ⟨[], List.Perm.refl _, List.Perm.refl _⟩
  | cons u us ih =>
    obtain ⟨hhead, htail⟩ := List.pairwise_cons.mp h
    unfold CallTree.place
    split
    case isTrue hlt =>
      -- all names are larger, so none of them is found
      have hnone : (u :: us).find? (·.name == t.name) = none := by
        apply List.find?_eq_none.mpr
        intro v hv hname
        have hlarger : t.name < v.name := by
          rcases List.mem_cons.mp hv with rfl | hv
          · exact hlt
          · exact String.lt_trans hlt (hhead v hv)
        exact String.ne_of_lt hlarger (beq_iff_eq.mp hname).symm
      exact ⟨u :: us, List.Perm.refl _, by rw [hnone]; exact List.Perm.refl _⟩
    case isFalse hlt =>
      split
      case isTrue heq =>
        have hsome : (u :: us).find? (·.name == t.name) = some u := by
          rw [List.find?_cons, beq_iff_eq.mpr heq.symm]
        exact ⟨us, List.Perm.refl _, by rw [hsome]; exact List.Perm.refl _⟩
      case isFalse hne =>
        obtain ⟨others, hplace, hold⟩ := ih htail
        have hskip : (u :: us).find? (·.name == t.name) = us.find? (·.name == t.name) := by
          apply List.find?_cons_of_neg
          simpa using fun h => hne h.symm
        refine ⟨u :: others, (hplace.cons u).trans (.swap _ _ _), ?_⟩
        rw [hskip]
        exact (hold.cons u).trans List.perm_middle.symm

/-- A node that is put in its place counts as a further one unless there is one of its name. -/
theorem Ordered.countP_place (t : CallTree α) {us : List (CallTree α)} (h : Ordered us)
    (p : String → Bool) :
    (CallTree.place t us).countP (p ·.name) = us.countP (p ·.name) +
      if (us.find? (·.name == t.name)).isSome then 0 else if p t.name then 1 else 0 := by
  obtain ⟨others, hplace, hold⟩ := h.exists_others t
  rw [hplace.countP_eq, List.countP_cons]
  cases hfind : us.find? (·.name == t.name) with
  | none =>
    rw [hfind] at hold
    rw [hold.countP_eq]
    rfl
  | some u =>
    have hname : u.name = t.name := by simpa using List.find?_some hfind
    rw [hfind] at hold
    rw [hold.countP_eq, Option.toList_some, List.singleton_append, List.countP_cons, hname]
    rfl

/-! ## Section 3: The path of every node -/

mutual

/-- Every node with the names on the way down to it. -/
def nodePaths : CallTree α → List (List String × CallTree α)
  | node n a ts => ([], node n a ts) :: nodePathsAll ts

/-- Every node of several trees with the names on the way down, those of the trees included. -/
def nodePathsAll : List (CallTree α) → List (List String × CallTree α)
  | [] => []
  | t :: ts => (nodePaths t).map (fun (path, u) => (t.name :: path, u)) ++ nodePathsAll ts

end

theorem nodePaths_eq (t : CallTree α) : t.nodePaths = ([], t) :: nodePathsAll t.children := by
  cases t
  rfl

theorem nodePathsAll_eq_flatMap (ts : List (CallTree α)) :
    nodePathsAll ts =
      ts.flatMap fun t => (nodePaths t).map fun (path, u) => (t.name :: path, u) := by
  induction ts with
  | nil => rfl
  | cons t ts ih => rw [nodePathsAll, ih, List.flatMap_cons]

theorem mem_nodePathsAll {path : List String} {u : CallTree α} {ts : List (CallTree α)} :
    (path, u) ∈ nodePathsAll ts ↔
      ∃ t ∈ ts, ∃ names, (names, u) ∈ t.nodePaths ∧ t.name :: names = path := by
  simp [nodePathsAll_eq_flatMap]

/-- The nodes with their paths are the nodes in their usual order. -/
theorem map_snd_nodePaths (t : CallTree α) : t.nodePaths.map Prod.snd = t.preorder := by
  induction t using induction_on with
  | h t ih =>
    rw [nodePaths_eq, preorder_eq, List.map_cons, nodePathsAll_eq_flatMap,
      preorderAll_eq_flatMap, List.map_flatMap]
    congr 1
    apply List.flatMap_congr
    intro u hu
    rw [List.map_map]
    exact ih u hu

/-- Every node of the tree has its children in order. -/
def IsOrdered (t : CallTree α) : Prop :=
  ∀ u ∈ t.preorder, Ordered u.children

theorem IsOrdered.children {t : CallTree α} (h : t.IsOrdered) : Ordered t.children :=
  h t (mem_preorder_self t)

theorem IsOrdered.of_mem {t u : CallTree α} (h : t.IsOrdered) (hu : u ∈ t.children) :
    u.IsOrdered := by
  intro v hv
  apply h v
  rw [preorder_eq]
  exact List.mem_cons_of_mem _ (mem_preorderAll.mpr ⟨u, hu, hv⟩)

/-- Among nodes in order, every node is found by its name. -/
theorem Ordered.find?_eq_some_iff {ts : List (CallTree α)} (h : Ordered ts) {t : CallTree α}
    {name : String} : ts.find? (·.name == name) = some t ↔ t ∈ ts ∧ t.name = name := by
  constructor
  · intro hfind
    exact ⟨List.mem_of_find?_eq_some hfind, by simpa using List.find?_some hfind⟩
  · rintro ⟨hmem, rfl⟩
    induction ts with
    | nil => exact absurd hmem List.not_mem_nil
    | cons u us ih =>
      obtain ⟨hhead, htail⟩ := List.pairwise_cons.mp h
      rcases List.mem_cons.mp hmem with rfl | hmem
      · simp
      · have hne : (u.name == t.name) = false := by
          simpa using String.ne_of_lt (hhead t hmem)
        rw [List.find?_cons, hne]
        exact ih htail hmem

theorem child?_eq_some_iff {t u : CallTree α} {name : String} (h : Ordered t.children) :
    t.child? name = some u ↔ u ∈ t.children ∧ u.name = name :=
  h.find?_eq_some_iff

/-- **Nodes and paths**: in a tree in order, a node stands at the path that finds it. -/
theorem mem_nodePaths_iff {t u : CallTree α} {path : List String} (h : t.IsOrdered) :
    (path, u) ∈ t.nodePaths ↔ t.find? path = some u := by
  induction t using induction_on generalizing path with
  | h t ih =>
    rw [nodePaths_eq, List.mem_cons]
    cases path with
    | nil =>
      rw [find?, mem_nodePathsAll]
      constructor
      · rintro (heq | ⟨v, -, names, -, heq⟩)
        · cases heq
          rfl
        · cases heq
      · rintro heq
        cases heq
        exact .inl rfl
    | cons name names =>
      rw [find?, Option.bind_eq_some_iff, mem_nodePathsAll]
      constructor
      · rintro (heq | ⟨v, hv, names', hmem, heq⟩)
        · cases heq
        · cases heq
          exact ⟨v, (child?_eq_some_iff h.children).mpr ⟨hv, rfl⟩,
            (ih v hv (h.of_mem hv)).mp hmem⟩
      · rintro ⟨v, hchild, hfind⟩
        obtain ⟨hv, rfl⟩ := (child?_eq_some_iff h.children).mp hchild
        exact .inr ⟨v, hv, names, (ih v hv (h.of_mem hv)).mpr hfind, rfl⟩

theorem mem_preorder_of_find? {t u : CallTree α} {path : List String} (h : t.IsOrdered)
    (hfind : t.find? path = some u) : u ∈ t.preorder := by
  rw [← map_snd_nodePaths]
  exact List.mem_map_of_mem ((mem_nodePaths_iff h).mpr hfind)

/-- Every node stands at some path. -/
theorem exists_find?_of_mem_preorder {t u : CallTree α} (h : t.IsOrdered) (hu : u ∈ t.preorder) :
    ∃ path, t.find? path = some u := by
  rw [← map_snd_nodePaths] at hu
  obtain ⟨⟨path, v⟩, hmem, rfl⟩ := List.mem_map.mp hu
  exact ⟨path, (mem_nodePaths_iff h).mp hmem⟩

/-! ## Section 4: The order of paths -/

/-- The order of the paths of a tree: a path comes before those that go on from it, and paths
through different children come in the order of the names of these. -/
def Before : List String → List String → Prop :=
  List.Lex (· < ·)

theorem Before.ne {path path' : List String} (h : Before path path') : path ≠ path' := by
  rintro rfl
  exact List.lex_irrefl String.lt_irrefl path h

theorem Before.asymm {path path' : List String} (h : Before path path') : ¬Before path' path :=
  asymm_of (List.Lex (· < ·)) h

theorem before_append {path rest : List String} (h : rest ≠ []) : Before path (path ++ rest) := by
  induction path with
  | nil =>
    cases rest with
    | nil => exact absurd rfl h
    | cons name names => exact .nil
  | cons name path ih => exact .cons ih

/-- **The nodes of a tree in order** stand in the order of their paths. -/
theorem pairwise_before_nodePaths {t : CallTree α} (h : t.IsOrdered) :
    (t.nodePaths.map Prod.fst).Pairwise Before := by
  induction t using induction_on with
  | h t ih =>
    rw [nodePaths_eq, List.map_cons, List.pairwise_cons]
    constructor
    · intro path hpath
      obtain ⟨⟨path, u⟩, hmem, rfl⟩ := List.mem_map.mp hpath
      obtain ⟨v, -, names, -, rfl⟩ := mem_nodePathsAll.mp hmem
      exact .nil
    · -- beneath one child by induction, and beneath two of them by their names
      rw [nodePathsAll_eq_flatMap, List.map_flatMap, List.pairwise_flatMap]
      constructor
      · intro u hu
        rw [List.map_map]
        have hcons : Prod.fst ∘ (fun (path, v) => (u.name :: path, v)) =
            (u.name :: ·) ∘ (Prod.fst : List String × CallTree α → List String) := rfl
        rw [hcons, ← List.map_map]
        exact (ih u hu (h.of_mem hu)).map _ fun _ _ => List.Lex.cons
      · refine h.children.imp fun {u v} hlt path hu path' hv => ?_
        simp only [List.map_map, List.mem_map] at hu hv
        obtain ⟨_, _, rfl⟩ := hu
        obtain ⟨_, _, rfl⟩ := hv
        exact .rel hlt

/-- In a tree in order, no two nodes stand at one path. -/
theorem nodup_map_fst_nodePaths {t : CallTree α} (h : t.IsOrdered) :
    (t.nodePaths.map Prod.fst).Nodup :=
  (pairwise_before_nodePaths h).imp Before.ne

end StackProfiler.CallTree
