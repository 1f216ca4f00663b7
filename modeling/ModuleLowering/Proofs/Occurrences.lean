import Mathlib.Data.List.Basic
import ModuleLowering.Proofs.Traversal

/-!
# Occurrences of names

Every identifier of a tree stands before the dot of a member, behind it, or apart from any member.
An identifier behind a dot refers to no binding. The names that a statement declares are names of
identifiers that stand apart, since no pattern that binds anything is a member.
-/

set_option autoImplicit false

namespace ModuleLowering

namespace Form

variable {α : Type}

/-- The name of an identifier. -/
def identifier? : Form α → Option Text
  | .identifier name => some name
  | _ => none

/-- Whether a form is a member that is named and not computed. -/
def isStaticMember : Form α → Bool
  | .memberExpression _ _ false _ => true
  | _ => false

/-- A named member that is not computed has this form. -/
theorem staticMember_iff {form : Form α} : form.isStaticMember = true ↔
    ∃ object member optional, form = .memberExpression object member false optional := by
  constructor
  · intro h
    unfold isStaticMember at h
    split at h
    case h_1 object member optional => exact ⟨object, member, optional, rfl⟩
    case h_2 => exact absurd h (by simp)
  · rintro ⟨object, member, optional, rfl⟩
    rfl

end Form

/-- How an identifier stands in a tree. -/
inductive Standing where
  /-- Apart from any member. -/
  | alone
  /-- Before the dot of a member. -/
  | object
  /-- Behind the dot of a member. -/
  | member
deriving DecidableEq

namespace Node

/-! ## Occurrences -/

/-- What occurs in a part that stands as `standing` if it is an identifier. -/
def occurrencesAs (standing : Standing) (part : Option Node)
    (below : Option (List (Standing × Text))) : List (Standing × Text) :=
  match part.bind name? with
  | some name => [(standing, name)]
  | none => below.getD []

/-- The names of the identifiers of a tree, each with how it stands. -/
def occurrences (n : Node) : List (Standing × Text) :=
  n.fold fun n below =>
    match n.form, below with
    | .memberExpression object member false _, .memberExpression inObject inMember _ _ =>
      occurrencesAs .object object inObject ++ occurrencesAs .member member inMember
    | _, _ => n.name?.toList.map (Prod.mk .alone) ++ below.parts.flatten

/-- The names that a tree refers to: those of its identifiers that stand behind no dot. -/
def references (n : Node) : List Text :=
  (n.occurrences.filter fun o => o.1 ≠ .member).map Prod.snd

/-- What occurs in a part of a member. -/
def partOccurrences (standing : Standing) (part : Option Node) : List (Standing × Text) :=
  occurrencesAs standing part (part.map occurrences)

theorem occurrences_staticMember {n : Node} {object member : Option Node} {optional : Bool}
    (h : n.form = .memberExpression object member false optional) :
    n.occurrences = partOccurrences .object object ++ partOccurrences .member member := by
  unfold occurrences
  rw [fold_eq, h]
  simp only [foldForm, foldPart_eq_map]
  rfl

/-- What occurs in anything else is its own name, standing alone, and what occurs in its
children. -/
theorem occurrences_of_not_staticMember {n : Node} (h : n.form.isStaticMember = false) :
    n.occurrences = n.name?.toList.map (Prod.mk .alone) ++ n.children.flatMap occurrences := by
  unfold occurrences
  rw [fold_eq, parts_foldForm]
  split
  case h_1 hform _ =>
    rw [hform] at h
    exact absurd h (by simp [Form.isStaticMember])
  case h_2 => rfl

theorem name?_eq_identifier? (n : Node) : n.name? = n.form.identifier? := by
  obtain ⟨loc, form⟩ := n
  cases form <;> rfl

theorem occurrences_of_name? {n : Node} {x : Text} (h : n.name? = some x) :
    n.occurrences = [(.alone, x)] := by
  obtain ⟨loc, form⟩ := n
  cases form <;> simp only [name?, form] at h
  case identifier name =>
    cases h
    rfl
  all_goals exact absurd h (by simp)

theorem occurrences_made {form : Form Node} (h : form.isStaticMember = false) :
    (made form).occurrences =
      form.identifier?.toList.map (Prod.mk .alone) ++ form.parts.flatMap occurrences := by
  have hform : (made form).form.isStaticMember = false := h
  rw [occurrences_of_not_staticMember hform, name?_eq_identifier?]
  rfl

theorem occurrences_withForm (n : Node) {form : Form Node} (h : form.isStaticMember = false) :
    (n.withForm form).occurrences =
      form.identifier?.toList.map (Prod.mk .alone) ++ form.parts.flatMap occurrences := by
  have hform : (n.withForm form).form.isStaticMember = false := h
  rw [occurrences_of_not_staticMember hform, name?_eq_identifier?]
  rfl

/-- The names in a part of a member, whatever they stand as. -/
theorem map_snd_partOccurrences (standing : Standing) (part : Option Node) :
    (partOccurrences standing part).map Prod.snd =
      part.toList.flatMap fun n => n.occurrences.map Prod.snd := by
  unfold partOccurrences occurrencesAs
  cases part with
  | none => rfl
  | some n =>
    cases h : n.name? with
    | none => simp [h]
    | some x => simp [h, occurrences_of_name? h]

/-- The names of a tree are the names that occur in it. -/
theorem names_eq_occurrences (n : Node) : n.names = n.occurrences.map Prod.snd := by
  induction n using induction_children with
  | step n ih =>
    rw [names_eq, List.flatMap_congr ih]
    cases h : n.form.isStaticMember with
    | false =>
      rw [occurrences_of_not_staticMember h, List.map_append, List.map_flatMap, List.map_map]
      cases n.name? <;> rfl
    | true =>
      obtain ⟨object, member, optional, hmember⟩ := Form.staticMember_iff.1 h
      rw [occurrences_staticMember hmember, List.map_append, map_snd_partOccurrences,
        map_snd_partOccurrences, name?, children, hmember]
      simp [Form.parts, Form.slots, Slot.parts]

theorem mem_names_iff {n : Node} {x : Text} : x ∈ n.names ↔ ∃ s, (s, x) ∈ n.occurrences := by
  rw [names_eq_occurrences]
  simp

/-- A tree refers to a name that stands before a dot or apart. -/
theorem mem_references_iff {n : Node} {x : Text} :
    x ∈ n.references ↔ (.alone, x) ∈ n.occurrences ∨ (.object, x) ∈ n.occurrences := by
  unfold references
  constructor
  · intro h
    obtain ⟨⟨s, y⟩, hmem, rfl⟩ := List.mem_map.1 h
    obtain ⟨hocc, hs⟩ := List.mem_filter.1 hmem
    cases s with
    | alone => exact Or.inl hocc
    | object => exact Or.inr hocc
    | member => simp at hs
  · rintro (h | h) <;> exact List.mem_map.2 ⟨_, List.mem_filter.2 ⟨h, by simp⟩, rfl⟩

theorem mem_names_of_mem_references {n : Node} {x : Text} (h : x ∈ n.references) :
    x ∈ n.names :=
  mem_names_iff.2 ((mem_references_iff.1 h).elim (fun h => ⟨_, h⟩) fun h => ⟨_, h⟩)

/-- What occurs in a part of a member occurs in the node there, or is its name. -/
theorem mem_partOccurrences {standing : Standing} {part : Option Node} {o : Standing × Text}
    (h : o ∈ partOccurrences standing part) :
    ∃ c ∈ part.toList, o ∈ c.occurrences ∨ c.name? = some o.2 := by
  cases part with
  | none => exact absurd h List.not_mem_nil
  | some c =>
    refine ⟨c, by simp, ?_⟩
    unfold partOccurrences occurrencesAs at h
    cases hname : c.name? with
    | none =>
      simp only [Option.bind_some, hname] at h
      exact Or.inl h
    | some x =>
      simp only [Option.bind_some, hname] at h
      rw [List.mem_singleton.1 h]
      exact Or.inr rfl

/-- What occurs in a tree is its own name, or occurs in a child or is the name of one. -/
theorem mem_occurrences_cases {n : Node} {o : Standing × Text} (h : o ∈ n.occurrences) :
    n.name? = some o.2 ∨ ∃ c ∈ n.children, o ∈ c.occurrences ∨ c.name? = some o.2 := by
  cases hform : n.form.isStaticMember with
  | false =>
    rw [occurrences_of_not_staticMember hform] at h
    rcases List.mem_append.1 h with hown | hchild
    · obtain ⟨x, hx, rfl⟩ := List.mem_map.1 hown
      exact Or.inl (Option.mem_toList.1 hx)
    · obtain ⟨c, hc, ho⟩ := List.mem_flatMap.1 hchild
      exact Or.inr ⟨c, hc, Or.inl ho⟩
  | true =>
    obtain ⟨object, member, optional, hmember⟩ := Form.staticMember_iff.1 hform
    rw [occurrences_staticMember hmember] at h
    have hchildren : n.children = object.toList ++ member.toList := by
      rw [children, hmember]
      simp [Form.parts, Form.slots, Slot.parts]
    rw [hchildren]
    rcases List.mem_append.1 h with hobject | hbehind
    · obtain ⟨c, hc, ho⟩ := mem_partOccurrences hobject
      exact Or.inr ⟨c, List.mem_append_left _ hc, ho⟩
    · obtain ⟨c, hc, ho⟩ := mem_partOccurrences hbehind
      exact Or.inr ⟨c, List.mem_append_right _ hc, ho⟩

/-! ## Declarations -/

/-- The names that a pattern binds. -/
def boundNames (n : Node) : List Text :=
  n.fold fun _ below =>
    match below with
    | .identifier name => [name]
    | .property _ value .. => value.getD []
    | .assignmentPattern left _ => left.getD []
    | .arrayPattern elements => (elements.filterMap id).flatten
    | .objectPattern properties => properties.flatten
    | .restElement argument => argument.getD []
    | _ => []

/-- The names that the parts of a declaration bind. -/
def bindingNames (part : Option Node) : List Text := (part.map boundNames).getD []

/-- The name that a part of a variable declaration or an import gives. -/
def localNames (n : Node) : List Text :=
  match n.form with
  | .variableDeclarator id _ => bindingNames id
  | .importSpecifier name _ | .importDefaultSpecifier name | .importNamespaceSpecifier name =>
    bindingNames name
  | _ => []

/-- The names that a declaration declares. -/
def ownNames (n : Node) : List Text :=
  match n.form with
  | .variableDeclaration _ declarations => declarations.flatMap localNames
  | .functionDeclaration id .. | .classDeclaration id .. => bindingNames id
  | .importDeclaration specifiers _ => specifiers.flatMap localNames
  | _ => []

/-- The names that a statement declares, itself or by the declaration that it exports. -/
def declaredNames (n : Node) : List Text :=
  match n.form with
  | .exportNamedDeclaration (some d) .. | .exportDefaultDeclaration (some d) => d.ownNames
  | _ => n.ownNames

/-- A pattern binds its own name or what a child of it binds, and is no member. -/
theorem mem_boundNames {n : Node} {x : Text} (h : x ∈ n.boundNames) :
    n.name? = some x ∨ n.form.isStaticMember = false ∧ ∃ c ∈ n.children, x ∈ c.boundNames := by
  unfold boundNames at h
  rw [fold_eq] at h
  change _ ∨ _ ∧ ∃ c ∈ n.children, x ∈ c.fold _
  obtain ⟨loc, form⟩ := n
  cases form <;>
    simp only [form, foldForm, foldPart_eq_map, foldList_eq_map, foldSparse_eq_map,
      List.not_mem_nil] at h
  case identifier name => exact Or.inl (congrArg some (List.mem_singleton.1 h).symm)
  case property key value computed shorthand method kind =>
    cases value with
    | none => simp at h
    | some v =>
      exact Or.inr ⟨rfl, v, by simp [children, form, Form.parts, Form.slots, Slot.parts], h⟩
  case assignmentPattern left right =>
    cases left with
    | none => simp at h
    | some l =>
      exact Or.inr ⟨rfl, l, by simp [children, form, Form.parts, Form.slots, Slot.parts], h⟩
  case arrayPattern elements =>
    rw [filterMap_id_map_map] at h
    obtain ⟨c, hc, hx⟩ := List.mem_flatMap.1 h
    exact Or.inr ⟨rfl, c, by simpa [children, form, Form.parts, Form.slots, Slot.parts] using hc,
      hx⟩
  case objectPattern properties =>
    obtain ⟨c, hc, hx⟩ := List.mem_flatMap.1 h
    exact Or.inr ⟨rfl, c, by simpa [children, form, Form.parts, Form.slots, Slot.parts] using hc,
      hx⟩
  case restElement argument =>
    cases argument with
    | none => simp at h
    | some a =>
      exact Or.inr ⟨rfl, a, by simp [children, form, Form.parts, Form.slots, Slot.parts], h⟩

theorem mem_occurrences_of_mem_children {n c : Node} {o : Standing × Text}
    (h : n.form.isStaticMember = false) (hc : c ∈ n.children) (ho : o ∈ c.occurrences) :
    o ∈ n.occurrences := by
  rw [occurrences_of_not_staticMember h]
  exact List.mem_append_right _ (List.mem_flatMap.2 ⟨c, hc, ho⟩)

theorem alone_of_mem_boundNames {n : Node} {x : Text} (hx : x ∈ n.boundNames) :
    (.alone, x) ∈ n.occurrences := by
  induction n using induction_children with
  | step n ih =>
    rcases mem_boundNames hx with hname | ⟨hform, c, hc, hxc⟩
    · rw [occurrences_of_name? hname]
      exact List.mem_singleton.2 rfl
    · exact mem_occurrences_of_mem_children hform hc (ih c hc hxc)

theorem mem_occurrences_of_mem_parts {n c : Node} {form : Form Node} {o : Standing × Text}
    (hform : n.form = form) (h : form.isStaticMember = false) (hc : c ∈ form.parts)
    (ho : o ∈ c.occurrences) : o ∈ n.occurrences := by
  subst hform
  exact mem_occurrences_of_mem_children h hc ho

theorem mem_bindingNames {part : Option Node} {x : Text} (h : x ∈ bindingNames part) :
    ∃ c, part = some c ∧ x ∈ c.boundNames := by
  cases part with
  | none => exact absurd h List.not_mem_nil
  | some c => exact ⟨c, rfl, h⟩

/-- The names that a declarator or specifier gives stand alone in it. -/
theorem alone_of_mem_localNames {n : Node} {x : Text} (hx : x ∈ n.localNames) :
    (.alone, x) ∈ n.occurrences := by
  unfold localNames at hx
  split at hx
  case h_5 => exact absurd hx List.not_mem_nil
  all_goals
    rename_i hform
    obtain ⟨c, rfl, hxc⟩ := mem_bindingNames hx
    exact mem_occurrences_of_mem_parts hform rfl (by simp [Form.parts, Form.slots, Slot.parts])
      (alone_of_mem_boundNames hxc)

/-- The names that a declaration declares stand alone in it. -/
theorem alone_of_mem_ownNames {n : Node} {x : Text} (hx : x ∈ n.ownNames) :
    (.alone, x) ∈ n.occurrences := by
  unfold ownNames at hx
  split at hx
  case h_5 => exact absurd hx List.not_mem_nil
  case h_1 hform =>
    obtain ⟨d, hd, hxd⟩ := List.mem_flatMap.1 hx
    exact mem_occurrences_of_mem_parts hform rfl
      (by simpa [Form.parts, Form.slots, Slot.parts] using hd) (alone_of_mem_localNames hxd)
  case h_4 hform =>
    obtain ⟨d, hd, hxd⟩ := List.mem_flatMap.1 hx
    exact mem_occurrences_of_mem_parts hform rfl
      (by simp [Form.parts, Form.slots, Slot.parts, hd]) (alone_of_mem_localNames hxd)
  all_goals
    rename_i hform
    obtain ⟨c, rfl, hxc⟩ := mem_bindingNames hx
    exact mem_occurrences_of_mem_parts hform rfl (by simp [Form.parts, Form.slots, Slot.parts])
      (alone_of_mem_boundNames hxc)

/-- The names that a statement declares stand alone in it. -/
theorem alone_of_mem_declaredNames {n : Node} {x : Text} (hx : x ∈ n.declaredNames) :
    (.alone, x) ∈ n.occurrences := by
  unfold declaredNames at hx
  split at hx
  case h_3 => exact alone_of_mem_ownNames hx
  all_goals
    rename_i hform
    exact mem_occurrences_of_mem_parts hform rfl (by simp [Form.parts, Form.slots, Slot.parts])
      (alone_of_mem_ownNames hx)

theorem mem_references_of_mem_declaredNames {n : Node} {x : Text} (hx : x ∈ n.declaredNames) :
    x ∈ n.references :=
  mem_references_iff.2 (Or.inl (alone_of_mem_declaredNames hx))

end Node

end ModuleLowering
