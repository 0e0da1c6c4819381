/-!
# Call trees

A finite tree of named nodes, each with a label. Children stand in ascending order of their names
and no two siblings share one, so a node is known by the names on the way to it. Building, merging
and drawing profiles all work on this one type and differ in the labels only.
-/

namespace StackProfiler

/-- A node with its name, its label and the nodes called from it. -/
inductive CallTree (α : Type) where
  | node (name : String) (label : α) (children : List (CallTree α))

namespace CallTree

variable {α β γ : Type}

def name : CallTree α → String
  | node n _ _ => n

def label : CallTree α → α
  | node _ a _ => a

/-- The nodes called from this one, in ascending order of their names. -/
def children : CallTree α → List (CallTree α)
  | node _ _ ts => ts

def withLabel (t : CallTree α) (a : α) : CallTree α :=
  node t.name a t.children

def child? (t : CallTree α) (name : String) : Option (CallTree α) :=
  t.children.find? (·.name == name)

/-- Puts a node in its place among its siblings, instead of one of the same name. -/
def place (t : CallTree α) : List (CallTree α) → List (CallTree α)
  | [] => [t]
  | u :: us =>
    if t.name < u.name then t :: u :: us
    else if t.name = u.name then t :: us
    else u :: place t us

/-- The node with `t` as its child of that name. -/
def putChild (parent t : CallTree α) : CallTree α :=
  node parent.name parent.label (place t parent.children)

/-- The node reached by following the names downwards. -/
def find? : CallTree α → List String → Option (CallTree α)
  | t, [] => some t
  | t, name :: names => (t.child? name).bind (·.find? names)

mutual

def size : CallTree α → Nat
  | node _ _ ts => sizeAll ts + 1

def sizeAll : List (CallTree α) → Nat
  | [] => 0
  | t :: ts => size t + sizeAll ts

end

mutual

/-- Number of edges on the longest way down. -/
def height : CallTree α → Nat
  | node _ _ ts => heightAll ts

/-- Number of levels of the highest of several trees. -/
def heightAll : List (CallTree α) → Nat
  | [] => 0
  | t :: ts => max (height t + 1) (heightAll ts)

end

mutual

/-- Every node, parents before children and siblings in order. -/
def preorder : CallTree α → List (CallTree α)
  | node n a ts => node n a ts :: preorderAll ts

def preorderAll : List (CallTree α) → List (CallTree α)
  | [] => []
  | t :: ts => preorder t ++ preorderAll ts

end

mutual

/-- The same tree with other labels, computed from the depth of a node and its label. -/
def map (f : Nat → α → β) (depth : Nat) : CallTree α → CallTree β
  | node n a ts => node n (f depth a) (mapAll f (depth + 1) ts)

def mapAll (f : Nat → α → β) (depth : Nat) : List (CallTree α) → List (CallTree β)
  | [] => []
  | t :: ts => map f depth t :: mapAll f depth ts

end

mutual

/--
The union of two trees by names at every level: the label of a node is computed from its depth and
the labels that the two trees give to it.
-/
def union (f : Nat → Option α → Option β → γ) (depth : Nat) :
    CallTree α → CallTree β → CallTree γ
  | node n a ts, node _ b us =>
    node n (f depth (some a) (some b)) (unionAll f (depth + 1) ts us)
termination_by t u => sizeOf t + sizeOf u

/-- The union of two lists of siblings. -/
def unionAll (f : Nat → Option α → Option β → γ) (depth : Nat) :
    List (CallTree α) → List (CallTree β) → List (CallTree γ)
  | [], us => mapAll (fun d b => f d none (some b)) depth us
  | ts, [] => mapAll (fun d a => f d (some a) none) depth ts
  | t :: ts, u :: us =>
    if t.name < u.name then
      map (fun d a => f d (some a) none) depth t :: unionAll f depth ts (u :: us)
    else if u.name < t.name then
      map (fun d b => f d none (some b)) depth u :: unionAll f depth (t :: ts) us
    else union f depth t u :: unionAll f depth ts us
termination_by ts us => sizeOf ts + sizeOf us

end

theorem size_pos (t : CallTree α) : 0 < t.size := by
  cases t; simp [size]

theorem size_le_sizeAll {t : CallTree α} {ts : List (CallTree α)} (h : t ∈ ts) :
    t.size ≤ sizeAll ts := by
  induction h with
  | head => simp [sizeAll]
  | tail _ _ ih => simp only [sizeAll]; omega

theorem sizeAll_append (ts us : List (CallTree α)) :
    sizeAll (ts ++ us) = sizeAll ts + sizeAll us := by
  induction ts with
  | nil => simp [sizeAll]
  | cons t ts ih => simp [sizeAll, ih, Nat.add_assoc]

end CallTree

end StackProfiler
