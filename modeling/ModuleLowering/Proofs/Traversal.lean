import ModuleLowering.Syntax.Traversal

/-!
# Laws of folds and walks

A fold is computed from the folds of the children, so facts about trees follow by induction over
children. The walk with a list of nodes still to see is the recursive one: it meets every node of a
tree once, each before its children. The names of a tree are therefore its own name, if it is an
identifier, and those of its children.
-/

set_option autoImplicit false

namespace ModuleLowering.Node

variable {β : Type}

/-! ## Folds -/

theorem foldPart_eq_map (f : Node → Form β → β) (p : Option Node) :
    foldPart f p = p.map (fold f) := by
  cases p <;> simp [foldPart]

theorem foldList_eq_map (f : Node → Form β → β) (ns : List Node) :
    foldList f ns = ns.map (fold f) := by
  induction ns with
  | nil => simp [foldList]
  | cons n rest ih => simp [foldList, ih]

theorem foldSparse_eq_map (f : Node → Form β → β) (ps : List (Option Node)) :
    foldSparse f ps = ps.map (Option.map (fold f)) := by
  induction ps with
  | nil => simp [foldSparse]
  | cons p rest ih => simp [foldSparse, foldPart_eq_map, ih]

theorem filterMap_id_map_map {α γ : Type} (g : α → γ) (ps : List (Option α)) :
    (ps.map (Option.map g)).filterMap id = (ps.filterMap id).map g := by
  rw [List.filterMap_map, List.map_filterMap]
  rfl

theorem parts_foldForm (f : Node → Form β → β) (form : Form Node) :
    (foldForm f form).parts = form.parts.map (fold f) := by
  cases form <;>
    simp only [foldForm, foldPart_eq_map, foldList_eq_map, foldSparse_eq_map, Form.parts,
      Form.slots, Slot.parts, List.flatMap_cons, List.flatMap_nil, List.map_append, List.map_nil,
      Option.toList_map, filterMap_id_map_map]

theorem fold_eq (f : Node → Form β → β) (n : Node) : n.fold f = f n (foldForm f n.form) := by
  cases n with
  | mk loc form => rw [fold]; rfl

/-! ## Sizes and induction -/

/-- How many nodes some trees have together. -/
def sizes (ns : List Node) : Nat := (ns.map size).foldr (· + ·) 0

@[simp] theorem sizes_nil : sizes [] = 0 := rfl

@[simp] theorem sizes_cons (n : Node) (ns : List Node) : sizes (n :: ns) = n.size + sizes ns := rfl

@[simp] theorem sizes_append (ms ns : List Node) : sizes (ms ++ ns) = sizes ms + sizes ns := by
  induction ms with
  | nil => simp
  | cons m ms ih =>
    simp only [List.cons_append, sizes_cons, ih]
    omega

theorem size_eq (n : Node) : n.size = 1 + sizes n.children := by
  unfold size
  rw [fold_eq, parts_foldForm]
  rfl

/-- A tree has no more nodes than some trees together of which it is one. -/
theorem size_le_sizes {n : Node} {ns : List Node} (hn : n ∈ ns) : n.size ≤ sizes ns := by
  induction ns with
  | nil => exact absurd hn List.not_mem_nil
  | cons m ns ih =>
    rw [sizes_cons]
    rcases List.mem_cons.1 hn with rfl | hn
    · omega
    · have hrest := ih hn
      omega

theorem size_lt_of_mem_children {n c : Node} (hc : c ∈ n.children) : c.size < n.size := by
  have hle := size_le_sizes hc
  rw [size_eq n]
  omega

/-- What holds of a node whenever it holds of its children holds of every node. -/
@[elab_as_elim]
theorem induction_children {P : Node → Prop} (step : ∀ n, (∀ c ∈ n.children, P c) → P n)
    (n : Node) : P n := by
  induction hk : n.size using Nat.strongRecOn generalizing n with
  | ind k ih =>
    subst hk
    exact step n fun c hc => ih c.size (size_lt_of_mem_children hc) c rfl

/-! ## Walks -/

theorem visited_eq (stop : Node → Bool) (n : Node) :
    n.visited stop = n :: if stop n then [] else n.children.flatMap (visited stop) := by
  unfold visited
  rw [fold_eq, parts_foldForm]
  rfl

/-- With enough fuel a walk from some nodes visits each of them, one after the other. -/
theorem walkFrom_eq_flatMap_visited (fuel : Nat) (todo : List Node)
    (hfuel : sizes todo ≤ fuel) :
    walkFrom fuel todo = todo.flatMap (visited fun _ => false) := by
  induction fuel generalizing todo with
  | zero =>
    cases todo with
    | nil => rfl
    | cons n todo =>
      have hpos := size_eq n
      rw [sizes_cons] at hfuel
      omega
  | succ fuel ih =>
    cases todo with
    | nil => rfl
    | cons n todo =>
      have hsize := size_eq n
      rw [sizes_cons] at hfuel
      have hrest : sizes (n.children ++ todo) ≤ fuel := by
        rw [sizes_append]
        omega
      rw [walkFrom, ih _ hrest, List.flatMap_append, List.flatMap_cons, visited_eq _ n]
      rfl

/-- The walk of a tree is the visit that never stops. -/
theorem walk_eq_visited (n : Node) : n.walk = n.visited fun _ => false := by
  have h := walkFrom_eq_flatMap_visited n.size [n] (by simp)
  rw [List.flatMap_cons, List.flatMap_nil, List.append_nil] at h
  exact h

theorem walk_eq_cons (n : Node) : n.walk = n :: n.children.flatMap walk := by
  have hwalk : walk = visited fun _ => false := funext walk_eq_visited
  rw [hwalk, visited_eq]
  rfl

theorem self_mem_walk (n : Node) : n ∈ n.walk := by
  rw [walk_eq_cons]
  exact List.mem_cons_self

theorem mem_walk_of_mem_children {n c m : Node} (hc : c ∈ n.children) (hm : m ∈ c.walk) :
    m ∈ n.walk := by
  rw [walk_eq_cons]
  exact List.mem_cons_of_mem n (List.mem_flatMap.2 ⟨c, hc, hm⟩)

/-! ## Names -/

/-- The names of a tree are its own name and those of its children. -/
theorem names_eq (n : Node) : n.names = n.name?.toList ++ n.children.flatMap names := by
  unfold names
  rw [walk_eq_cons, List.filterMap_cons, List.filterMap_flatMap]
  cases n.name? <;> rfl

theorem mem_names_of_name? {n : Node} {x : Text} (h : n.name? = some x) : x ∈ n.names := by
  rw [names_eq, h]
  exact List.mem_append_left _ (by simp)

theorem mem_names_of_mem_children {n c : Node} {x : Text} (hc : c ∈ n.children)
    (hx : x ∈ c.names) : x ∈ n.names := by
  rw [names_eq]
  exact List.mem_append_right _ (List.mem_flatMap.2 ⟨c, hc, hx⟩)

end ModuleLowering.Node
