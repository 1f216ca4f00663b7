import Mathlib.Computability.StateTransition
import Mathlib.Data.List.Lex
import Mathlib.Data.Prod.Lex
import ModuleLowering.Proofs.Removing
import ModuleLowering.Registry.Names

/-!
# The order of a walk

A walk keeps the nodes still to see on a stack and puts the children of a node on it from the last
to the first. It comes to an end, having seen the nodes that a recursive visit sees, in the same
order. A place in a tree is reached by a route, which says at each node which cell of which slot to
go on to. The walk goes through all places, each once, in the lexicographic order of their routes,
where a route comes before those that go on from it. The names that are taken at the start are
therefore those of the identifiers at any place.
-/

set_option autoImplicit false

namespace ModuleLowering

/-! ## Parts in their cells -/

/-- The cells of a slot; an absent part and a hole leave theirs empty. -/
def Slot.cells {α : Type} : Slot α → List (Option α)
  | one part => [part]
  | many parts => parts.map some
  | sparse parts => parts

namespace Slot

variable {α β : Type}

theorem filterMap_cells (slot : Slot α) : slot.cells.filterMap id = slot.parts := by
  cases slot with
  | one part => cases part <;> rfl
  | many parts => exact (List.filterMap_map ..).trans List.filterMap_some
  | sparse parts => rfl

theorem cells_map (f : α → β) (slot : Slot α) :
    (slot.map f).cells = slot.cells.map (Option.map f) := by
  cases slot with
  | one part => rfl
  | many parts => simp only [map, cells, List.map_map, Function.comp_def, Option.map_some]
  | sparse parts => rfl

end Slot

namespace Form

variable {α β : Type}

/-- The part in a cell of a slot, both counted from zero. -/
def part? (form : Form α) (step : Nat × Nat) : Option α :=
  (form.slots[step.1]?.bind fun slot => slot.cells[step.2]?).join

/-- The parts of a form, in order, each with its slot and its cell there. -/
def entries (form : Form α) : List ((Nat × Nat) × α) :=
  form.slots.zipIdx.flatMap fun slot =>
    slot.1.cells.zipIdx.filterMap fun cell => cell.1.map ((slot.2, cell.2), ·)

theorem map_snd_entries (form : Form α) : form.entries.map Prod.snd = form.parts := by
  have hslot (slot : Slot α × Nat) : (slot.1.cells.zipIdx.filterMap fun cell =>
      cell.1.map fun a => ((slot.2, cell.2), a)).map Prod.snd = slot.1.parts := by
    have hcell : (fun cell : Option α × Nat =>
        (cell.1.map fun a => ((slot.2, cell.2), a)).map Prod.snd) = id ∘ Prod.fst := by
      funext ⟨cell, j⟩
      cases cell <;> rfl
    rw [List.map_filterMap, hcell, ← List.filterMap_map, List.zipIdx_map_fst, slot.1.filterMap_cells]
  have hparts : form.parts = (form.slots.zipIdx.map Prod.fst).flatMap Slot.parts := by
    rw [List.zipIdx_map_fst]
    rfl
  rw [entries, List.map_flatMap, hparts, List.flatMap_map]
  exact congrArg (List.flatMap · form.slots.zipIdx) (funext hslot)

theorem mem_entries {form : Form α} {step : Nat × Nat} {a : α} :
    (step, a) ∈ form.entries ↔ form.part? step = some a := by
  obtain ⟨i, j⟩ := step
  simp only [entries, part?, List.mem_flatMap, List.mem_filterMap, Prod.exists,
    List.mk_mem_zipIdx_iff_getElem?, Option.map_eq_some_iff, Prod.mk.injEq, Option.join_eq_some_iff,
    Option.bind_eq_some_iff]
  constructor
  · rintro ⟨slot, _, hslot, cell, _, hcell, _, rfl, ⟨rfl, rfl⟩, rfl⟩
    exact ⟨slot, hslot, hcell⟩
  · rintro ⟨slot, hslot, hcell⟩
    exact ⟨slot, i, hslot, some a, j, hcell, a, rfl, ⟨rfl, rfl⟩, rfl⟩

/-- One step comes before another one if its slot does, or in the same slot its cell. -/
def StepBefore : Nat × Nat → Nat × Nat → Prop := Prod.Lex (· < ·) (· < ·)

theorem pairwise_snd_zipIdx (xs : List α) : xs.zipIdx.Pairwise fun x y => x.2 < y.2 := by
  rw [← List.pairwise_map (f := Prod.snd) (R := (· < ·)), List.zipIdx_map_snd]
  exact List.pairwise_lt_range'

/-- The parts are listed in the order of their steps. -/
theorem pairwise_entries (form : Form α) :
    form.entries.Pairwise fun e e' => StepBefore e.1 e'.1 := by
  refine List.pairwise_flatMap.2 ⟨fun slot _ => ?_, ?_⟩
  · refine List.pairwise_filterMap.2 ((pairwise_snd_zipIdx slot.1.cells).imp ?_)
    intro cell cell' hlt e he e' he'
    obtain ⟨a, -, rfl⟩ := Option.map_eq_some_iff.1 he
    obtain ⟨a', -, rfl⟩ := Option.map_eq_some_iff.1 he'
    exact Prod.Lex.right _ hlt
  · refine (pairwise_snd_zipIdx form.slots).imp ?_
    intro slot slot' hlt e he e' he'
    obtain ⟨cell, -, he⟩ := List.mem_filterMap.1 he
    obtain ⟨cell', -, he'⟩ := List.mem_filterMap.1 he'
    obtain ⟨a, -, rfl⟩ := Option.map_eq_some_iff.1 he
    obtain ⟨a', -, rfl⟩ := Option.map_eq_some_iff.1 he'
    exact Prod.Lex.left _ _ hlt

end Form

namespace Node

theorem entries_foldForm {β : Type} (f : Node → Form β → β) (form : Form Node) :
    (foldForm f form).entries = form.entries.map (Prod.map id (fold f)) := by
  rw [Form.entries, Form.entries, slots_foldForm, List.zipIdx_map, List.flatMap_map,
    List.map_flatMap]
  refine congrArg (List.flatMap · form.slots.zipIdx) (funext fun slot => ?_)
  show ((slot.1.map (fold f)).cells.zipIdx.filterMap fun cell => _) = _
  rw [Slot.cells_map, List.zipIdx_map, List.filterMap_map, List.map_filterMap]
  refine congrArg (List.filterMap · slot.1.cells.zipIdx) (funext fun ⟨cell, j⟩ => ?_)
  cases cell <;> rfl

theorem mem_children_of_mem_entries {n : Node} {e : (Nat × Nat) × Node} (he : e ∈ n.form.entries) :
    e.2 ∈ n.children := by
  rw [children, ← Form.map_snd_entries]
  exact List.mem_map_of_mem he

/-! ## Routes -/

/-- How to get to a place of a tree from its root: the steps from node to node. -/
abbrev Route := List (Nat × Nat)

/-- A route comes before those that go on from it, and before those that take a later step where
they part. -/
def Route.Before : Route → Route → Prop := List.Lex Form.StepBefore

/-- The node at the end of a route, if the route leads to one. -/
def at? (n : Node) : Route → Option Node
  | [] => some n
  | step :: route => (n.form.part? step).bind (·.at? route)

/-- The routes through a tree: the one that stays, and then those through each of the parts. -/
def routes (n : Node) : List Route :=
  n.fold fun _ (form : Form (List Route)) =>
    [] :: form.entries.flatMap fun e => e.2.map (e.1 :: ·)

theorem routes_eq (n : Node) :
    n.routes = [] :: n.form.entries.flatMap fun e => e.2.routes.map (e.1 :: ·) := by
  conv => lhs; rw [routes, fold_eq, entries_foldForm, List.flatMap_map]
  rfl

/-- The routes are those that lead to a node. -/
theorem mem_routes {n : Node} {route : Route} : route ∈ n.routes ↔ (n.at? route).isSome := by
  induction route generalizing n with
  | nil =>
    rw [routes_eq]
    exact ⟨fun _ => rfl, fun _ => List.mem_cons_self⟩
  | cons step route ih =>
    have hstep : step :: route ∈ n.routes ↔ ∃ c, (step, c) ∈ n.form.entries ∧ route ∈ c.routes := by
      rw [routes_eq]
      simp only [List.mem_cons, reduceCtorEq, List.mem_flatMap, List.mem_map, List.cons.injEq,
        false_or]
      constructor
      · rintro ⟨e, he, route', hroute, rfl, rfl⟩
        exact ⟨e.2, he, hroute⟩
      · rintro ⟨c, hc, hroute⟩
        exact ⟨(step, c), hc, route, hroute, rfl, rfl⟩
    rw [hstep, at?]
    simp only [Form.mem_entries, ih]
    cases n.form.part? step <;> simp

/-- The walk goes through the places of the routes. -/
theorem map_at?_routes (n : Node) : n.routes.map n.at? = n.walk.map some := by
  induction n using induction_children with
  | step n ih =>
    have hpart (e : (Nat × Nat) × Node) (he : e ∈ n.form.entries) :
        (e.2.routes.map (e.1 :: ·)).map n.at? = e.2.walk.map some := by
      have hat (route : Route) : n.at? (e.1 :: route) = e.2.at? route := by
        rw [at?, Form.mem_entries.1 he, Option.bind_some]
      rw [← ih e.2 (mem_children_of_mem_entries he), List.map_map]
      exact List.map_congr_left fun route _ => hat route
    rw [routes_eq, walk_eq_cons, List.map_cons, List.map_cons, List.map_flatMap, children,
      ← Form.map_snd_entries, List.flatMap_map, List.map_flatMap, List.flatMap_congr hpart]
    rfl

/-- The nodes of the walk are those at any place. -/
theorem mem_walk_iff_exists_at? {n m : Node} : m ∈ n.walk ↔ ∃ route, n.at? route = some m := by
  have hsome : m ∈ n.walk ↔ some m ∈ n.routes.map n.at? := by
    rw [map_at?_routes, List.mem_map_of_injective (Option.some_injective _)]
  rw [hsome, List.mem_map]
  constructor
  · rintro ⟨route, -, hroute⟩
    exact ⟨route, hroute⟩
  · rintro ⟨route, hroute⟩
    exact ⟨route, mem_routes.2 (by rw [hroute]; rfl), hroute⟩

theorem pairwise_routes (n : Node) : n.routes.Pairwise Route.Before := by
  induction n using induction_children with
  | step n ih =>
    rw [routes_eq]
    refine List.pairwise_cons.2 ⟨fun route hroute => ?_, List.pairwise_flatMap.2 ⟨fun e he => ?_, ?_⟩⟩
    · obtain ⟨e, -, hroute⟩ := List.mem_flatMap.1 hroute
      obtain ⟨route', -, rfl⟩ := List.mem_map.1 hroute
      exact List.Lex.nil
    · exact List.pairwise_map.2 ((ih e.2 (mem_children_of_mem_entries he)).imp List.Lex.cons)
    · refine n.form.pairwise_entries.imp ?_
      intro e e' hbefore route hroute route' hroute'
      obtain ⟨rest, -, rfl⟩ := List.mem_map.1 hroute
      obtain ⟨rest', -, rfl⟩ := List.mem_map.1 hroute'
      exact List.Lex.rel hbefore

theorem Route.Before.ne {route route' : Route} (h : Before route route') : route ≠ route' := by
  refine List.Lex.to_ne (List.Lex.imp ?_ route route' h)
  rintro step _ hbefore rfl
  cases hbefore with
  | left _ _ hlt => exact Nat.lt_irrefl _ hlt
  | right _ hlt => exact Nat.lt_irrefl _ hlt

/-! ## The stack -/

/-- Where a walk with a stack stands: the nodes still to see, the next one last, and those seen. -/
structure Walking where
  todo : List Node
  seen : List Node

namespace Walking

def start (n : Node) : Walking := ⟨[n], []⟩

/-- The last node of the stack is seen, and its children are put in its place, the first one last.
With nothing left to see the walk is over. -/
def next? (w : Walking) : Option Walking :=
  w.todo.getLast?.map fun n => ⟨w.todo.dropLast ++ n.children.reverse, w.seen ++ [n]⟩

theorem next?_concat (todo : List Node) (n : Node) (seen : List Node) :
    next? ⟨todo ++ [n], seen⟩ = some ⟨todo ++ n.children.reverse, seen ++ [n]⟩ := by
  rw [next?, List.getLast?_concat, List.dropLast_concat]
  rfl

/-- Nodes on top of the stack are seen with all that is below them, before anything else. -/
theorem reaches_reverse {cs : List Node}
    (h : ∀ c ∈ cs, ∀ todo seen, StateTransition.Reaches next? ⟨todo ++ [c], seen⟩
      ⟨todo, seen ++ c.walk⟩) (todo seen : List Node) :
    StateTransition.Reaches next? ⟨todo ++ cs.reverse, seen⟩ ⟨todo, seen ++ cs.flatMap walk⟩ := by
  induction cs generalizing seen with
  | nil =>
    rw [List.reverse_nil, List.flatMap_nil, List.append_nil, List.append_nil]
    exact Relation.ReflTransGen.refl
  | cons c cs ih =>
    obtain ⟨hfirst, hrest⟩ := List.forall_mem_cons.1 h
    rw [List.reverse_cons, ← List.append_assoc, List.flatMap_cons, ← List.append_assoc]
    exact (hfirst (todo ++ cs.reverse) seen).trans (ih hrest (seen ++ c.walk))

/-- A node on top of the stack is seen with all that is below it, before anything else. -/
theorem reaches_concat (n : Node) (todo seen : List Node) :
    StateTransition.Reaches next? ⟨todo ++ [n], seen⟩ ⟨todo, seen ++ n.walk⟩ := by
  induction n using induction_children generalizing todo seen with
  | step n ih =>
    have hbelow := reaches_reverse ih todo (seen ++ [n])
    rw [List.append_assoc, List.singleton_append, ← walk_eq_cons] at hbelow
    exact hbelow.head (next?_concat todo n seen)

/-- A walk from the root comes to its end with the stack empty. -/
theorem mem_eval_start (n : Node) : ⟨[], n.walk⟩ ∈ StateTransition.eval next? (start n) :=
  StateTransition.mem_eval.2 ⟨reaches_concat n [] [], rfl⟩

end Walking

/-! ## The laws -/

theorem name?_eq_some_iff {n : Node} {x : Text} : n.name? = some x ↔ n.form = .identifier x := by
  unfold name?
  split
  case h_1 name hform => rw [hform, Option.some.injEq, Form.identifier.injEq]
  case h_2 hother => exact ⟨nofun, fun h => absurd h (hother x)⟩

/-- What is taken at the start are the names of the identifiers at any place. -/
theorem mem_taken_ofProgram {n : Node} {x : Text} : x ∈ (Names.ofProgram n).taken ↔
    ∃ route m, n.at? route = some m ∧ m.form = .identifier x := by
  show x ∈ n.walk.filterMap name? ↔ _
  rw [List.mem_filterMap]
  constructor
  · rintro ⟨m, hm, hx⟩
    obtain ⟨route, hroute⟩ := mem_walk_iff_exists_at?.1 hm
    exact ⟨route, m, hroute, name?_eq_some_iff.1 hx⟩
  · rintro ⟨route, m, hroute, hx⟩
    exact ⟨m, mem_walk_iff_exists_at?.2 ⟨route, hroute⟩, name?_eq_some_iff.2 hx⟩

/-- The laws of the walk of a tree. -/
structure WalkLaws (n : Node) : Prop where
  /-- The walk with a stack comes to an end, having seen the nodes of the walk. -/
  ends : ⟨[], n.walk⟩ ∈ StateTransition.eval Walking.next? (Walking.start n)
  /-- A recursive visit that goes on below every node sees the same nodes in the same order. -/
  visited : n.walk = n.visited fun _ => false
  /-- The nodes are those at the places of the routes, which are in order. -/
  places : n.walk.map some = n.routes.map n.at?
  ordered : n.routes.Pairwise Route.Before
  /-- Each route that leads to a node is taken, and once. -/
  every : ∀ route, route ∈ n.routes ↔ (n.at? route).isSome
  once : n.routes.Nodup
  /-- The names that are taken at the start are those of the identifiers at any place. -/
  names : ∀ x, x ∈ (Names.ofProgram n).taken ↔
    ∃ route m, n.at? route = some m ∧ m.form = .identifier x

/-- The walk of every tree keeps these laws. -/
theorem walkLaws (n : Node) : WalkLaws n where
  ends := Walking.mem_eval_start n
  visited := n.walk_eq_visited
  places := n.map_at?_routes.symm
  ordered := n.pairwise_routes
  every := fun _ => mem_routes
  once := n.pairwise_routes.imp Route.Before.ne
  names := fun _ => mem_taken_ofProgram

/-- An array with a hole between two elements, the first of which is an array as well. -/
example :
    let x := made (.identifier "x")
    let array := made (.arrayExpression [some (made (.arrayExpression [some x])), none, some x])
    routes (made (.program [array])) =
      [[], [(0, 0)], [(0, 0), (0, 0)], [(0, 0), (0, 0), (0, 0)], [(0, 0), (0, 2)]] := by
  decide

end Node

end ModuleLowering
