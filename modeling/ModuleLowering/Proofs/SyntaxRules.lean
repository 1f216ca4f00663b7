import ModuleLowering.Proofs.BuildingModules
import ModuleLowering.Proofs.LoweredForms
import ModuleLowering.Proofs.Publishing

/-!
# What holds at every node of a module that was read

The grammar reads patterns as expressions first and turns them into patterns where it finds out that
something is bound. What can be relied on afterwards is said here of a single node and the nodes
directly below it, whatever the place in which the node stands.
-/

set_option autoImplicit false

namespace ModuleLowering

namespace Node

/-! ## Places where something is bound -/

/-- Whether a node may stand where something is bound: a target of an assignment, a pattern, or one
of these with a default or as the rest. -/
def isBinding (n : Node) : Bool :=
  match n.form with
  | .identifier _ | .memberExpression .. | .arrayPattern _ | .objectPattern _
  | .assignmentPattern .. | .restElement _ => true
  | _ => false

/-- What a member of an object pattern binds: the value of a property, and the rest as it is. -/
def memberBinding (n : Node) : Option Node :=
  match n.form with
  | .property _ value .. => value
  | _ => some n

/-- The places directly below a node where something is bound; a hole in an array pattern is one
with nothing in it. -/
def bindingPlaces (n : Node) : List (Option Node) :=
  match n.form with
  | .variableDeclarator id _ => [id]
  | .functionExpression _ params .. | .functionDeclaration _ params ..
  | .arrowFunctionExpression params .. => params.map some
  | .catchClause param _ => [param]
  | .arrayPattern elements => elements
  | .objectPattern properties => properties.map memberBinding
  | .assignmentPattern left _ => [left]
  | .restElement argument => [argument]
  | _ => []

/-- Whether a node is a name or a literal. -/
def isPlainKey (n : Node) : Bool :=
  match n.form with
  | .identifier _ | .literal .. => true
  | _ => false

/-- Whether a node is a member of an object pattern: the rest, or a property with a value, where
the key is a name or a literal unless it is computed. -/
def isPatternMember (n : Node) : Bool :=
  match n.form with
  | .restElement (some _) => true
  | .property (some key) (some _) computed _ false kind =>
    kind = "init" && (computed || key.isPlainKey)
  | _ => false

/-- Whether a node is the name `x`, or has it as the name of a default. -/
def isShorthandFor (x : Text) (n : Node) : Bool :=
  match n.form with
  | .identifier y => y = x
  | .assignmentPattern (some left) _ => left.name? = some x
  | _ => false

/-- Whether a node is a function without a name of its own. -/
def isNamelessFunction (n : Node) : Bool :=
  match n.form with
  | .functionExpression none .. => true
  | _ => false

/-! ## Rules for one node -/

/-- What a node and the nodes directly below it have to be like. -/
structure FollowsRules (n : Node) : Prop where
  valid : n.isInvalid = false
  assigns : ∀ {operator left right}, n.form = .assignmentExpression operator left right →
    ∃ target, left = some target ∧ target.isAssignable operator = true
  updates : ∀ {operator argument before}, n.form = .updateExpression operator argument before →
    ∃ target, argument = some target ∧ target.isTarget = true
  binds : ∀ place ∈ n.bindingPlaces, ∀ b ∈ place, b.isBinding = true
  members : ∀ {properties}, n.form = .objectPattern properties →
    ∀ p ∈ properties, p.isPatternMember = true
  shorthands : ∀ {key value computed method kind},
    n.form = .property key value computed true method kind →
      ∃ k v x, key = some k ∧ value = some v ∧ k.name? = some x ∧ v.isShorthandFor x = true
  methods : ∀ {key value computed shorthand method kind},
    n.form = .property key value computed shorthand method kind → method = true ∨ kind ≠ "init" →
      ∃ v, value = some v ∧ v.isNamelessFunction = true
  definitions : ∀ {key value kind isStatic computed},
    n.form = .methodDefinition key value kind isStatic computed →
      ∃ v, value = some v ∧ v.isNamelessFunction = true
  sequences : ∀ {expressions}, n.form = .sequenceExpression expressions → 2 ≤ expressions.length
  guards : ∀ {block handler finalizer}, n.form = .tryStatement block handler finalizer →
    handler.isSome = true ∨ finalizer.isSome = true

variable {n : Node} {r : Role}

/-! ## Parts of patterns -/

theorem Fits.isBinding (h : n.Fits .pattern) : n.isBinding = true := by
  obtain ⟨loc, form⟩ := n
  cases h with
  | target _ htarget => cases form <;> first | rfl | cases htarget
  | arrayPattern | objectPattern | assignmentPattern | restElement => rfl

theorem Fits.isShorthandFor {x : Text} (h : n.Fits (.shorthand x)) :
    n.isShorthandFor x = true := by
  cases h with
  | shorthandName h =>
    cases h
    simp [Node.isShorthandFor, form]
  | shorthandDefault h =>
    cases h
    simp [Node.isShorthandFor, form, name?]

theorem Fits.isNamelessFunction (h : n.Fits .method) : n.isNamelessFunction = true := by
  cases h
  rfl

theorem Fits.isPlainKey (h : n.Fits (.key false)) : n.isPlainKey = true := by
  cases h with
  | nameKey h => cases h with | name h => cases h; rfl
  | literalKey h => cases h; rfl

theorem Fits.isPatternMember (h : n.Fits .patternProperty) : n.isPatternMember = true := by
  cases h with
  | @patternProperty loc key value computed hkey hvalue =>
    cases computed with
    | true => simp [Node.isPatternMember, form]
    | false => simp [Node.isPatternMember, form, hkey.isPlainKey]
  | @shorthandPattern loc key value x hkey hvalue =>
    have hplain : key.isPlainKey = true := (nameKey (.name hkey)).isPlainKey
    simp [Node.isPatternMember, form, hplain]
  | restProperty => rfl

theorem isBinding_of_isShorthandFor {x : Text} (h : n.isShorthandFor x = true) :
    n.isBinding = true := by
  obtain ⟨loc, form⟩ := n
  cases form <;> first | rfl | cases h

/-- What a member of an object pattern binds is a pattern. -/
theorem Fits.memberBinding (h : n.Fits .patternProperty) :
    ∀ b ∈ n.memberBinding, b.isBinding = true := by
  intro b hb
  cases h with
  | patternProperty hkey hvalue =>
    cases hb
    exact hvalue.isBinding
  | shorthandPattern hkey hvalue =>
    cases hb
    exact isBinding_of_isShorthandFor hvalue.isShorthandFor
  | restProperty =>
    cases hb
    rfl

/-! ## Each rule -/

theorem Fits.assigns {operator left right} (h : n.Fits r) :
    n.form = .assignmentExpression operator left right →
      ∃ target, left = some target ∧ target.isAssignable operator = true := by
  induction h
  case assignmentExpression hassignable _ _ _ =>
    rintro ⟨⟩
    exact ⟨_, rfl, hassignable⟩
  all_goals first | assumption | nofun

theorem Fits.updates {operator argument before} (h : n.Fits r) :
    n.form = .updateExpression operator argument before →
      ∃ target, argument = some target ∧ target.isTarget = true := by
  induction h
  case updateExpression htarget _ =>
    rintro ⟨⟩
    exact ⟨_, rfl, htarget⟩
  all_goals first | assumption | nofun

theorem Fits.binds (h : n.Fits r) : ∀ place ∈ n.bindingPlaces, ∀ b ∈ place, b.isBinding = true := by
  have hone : ∀ {p : Node}, p.Fits .pattern → ∀ place ∈ [some p], ∀ b ∈ place,
      b.isBinding = true := by
    intro p hp
    simpa using hp.isBinding
  have hmany : ∀ {params : List Node}, (∀ p ∈ params, p.Fits .pattern) →
      ∀ place ∈ params.map some, ∀ b ∈ place, b.isBinding = true := by
    intro params hparams
    simpa using fun p hp => (hparams p hp).isBinding
  induction h
  case functionExpression h _ _ _ _ | arrowFunction h _ _ _ | method h _ _ _
    | functionDefinition h _ _ _ _ => exact hmany h
  case variableDeclarator h _ _ _ => exact hone h
  case assignmentPattern h _ _ _ => exact hone h
  case restElement h _ | restProperty h _ => exact hone h
  case shorthandDefault hkey _ _ _ =>
    cases hkey
    exact hone (.target (.nameExpression (.name .named)) rfl)
  case arrayPattern h _ =>
    intro place hplace b hb
    exact (h place hplace b hb).isBinding
  case objectPattern h _ =>
    intro place hplace
    obtain ⟨p, hp, rfl⟩ := List.mem_map.1 hplace
    exact (h p hp).memberBinding
  case catchClause param _ h _ _ _ =>
    cases param with
    | none => simp [bindingPlaces, form]
    | some p => exact hone (h p rfl)
  all_goals first | assumption | exact List.forall_mem_nil _

theorem Fits.members {properties : List Node} (h : n.Fits r) :
    n.form = .objectPattern properties → ∀ p ∈ properties, p.isPatternMember = true := by
  induction h
  case objectPattern h _ =>
    rintro ⟨⟩ p hp
    exact (h p hp).isPatternMember
  all_goals first | assumption | nofun

theorem Fits.shorthands {key value computed method kind} (h : n.Fits r) :
    n.form = .property key value computed true method kind →
      ∃ k v x, key = some k ∧ value = some v ∧ k.name? = some x ∧ v.isShorthandFor x = true := by
  induction h
  case shorthandProperty hkey hvalue _ _ | shorthandPattern hkey hvalue _ _ =>
    rintro ⟨⟩
    cases hkey
    exact ⟨_, _, _, rfl, rfl, rfl, hvalue.isShorthandFor⟩
  all_goals first | assumption | nofun

theorem Fits.methods {key value computed shorthand method kind} (h : n.Fits r) :
    n.form = .property key value computed shorthand method kind → method = true ∨ kind ≠ "init" →
      ∃ v, value = some v ∧ v.isNamelessFunction = true := by
  induction h
  case methodProperty hvalue _ _ | accessor hvalue _ _ =>
    rintro ⟨⟩ -
    exact ⟨_, rfl, hvalue.isNamelessFunction⟩
  case property | shorthandProperty | patternProperty | shorthandPattern =>
    rintro ⟨⟩ hmethod
    simp at hmethod
  all_goals first | assumption | nofun

theorem Fits.definitions {key value kind isStatic computed} (h : n.Fits r) :
    n.form = .methodDefinition key value kind isStatic computed →
      ∃ v, value = some v ∧ v.isNamelessFunction = true := by
  induction h
  case methodDefinition hvalue _ _ =>
    rintro ⟨⟩
    exact ⟨_, rfl, hvalue.isNamelessFunction⟩
  all_goals first | assumption | nofun

theorem Fits.sequences {expressions : List Node} (h : n.Fits r) :
    n.form = .sequenceExpression expressions → 2 ≤ expressions.length := by
  induction h
  case sequenceExpression hlength _ _ =>
    rintro ⟨⟩
    exact hlength
  all_goals first | assumption | nofun

theorem Fits.guards {block handler finalizer} (h : n.Fits r) :
    n.form = .tryStatement block handler finalizer →
      handler.isSome = true ∨ finalizer.isSome = true := by
  induction h
  case tryStatement hguarded _ _ _ =>
    rintro ⟨⟩
    exact Bool.or_eq_true _ _ ▸ hguarded
  all_goals first | assumption | nofun

/-- A node that fits somewhere follows the rules. -/
theorem Fits.followsRules (h : n.Fits r) : n.FollowsRules where
  valid := h.isInvalid_eq_false
  assigns := h.assigns
  updates := h.updates
  binds := h.binds
  members := h.members
  shorthands := h.shorthands
  methods := h.methods
  definitions := h.definitions
  sequences := h.sequences
  guards := h.guards

/-! ## Whole modules -/

/-- Nothing below the top of a module is an import or export. -/
theorem Fits.walk_isModuleForm (h : n.Fits r) (hmodule : r ≠ .module) (hitem : r ≠ .item) :
    ∀ m ∈ n.walk, m.isModuleForm = false := by
  induction n using induction_children generalizing r with
  | step n ih =>
    intro m hm
    rw [walk_eq_cons] at hm
    rcases List.mem_cons.1 hm with rfl | hm
    · exact h.isModuleForm_eq_false hitem
    · obtain ⟨c, hc, hmc⟩ := List.mem_flatMap.1 hm
      obtain ⟨r', hmodule', hitem', hc'⟩ := h.exists_of_mem_children_below hmodule hc
      exact ih c hc hc' hmodule' hitem' m hmc

/-- In a module that was read, imports and exports stand at the top only, and every node follows
the rules. -/
theorem followsRules_ofSource {source : Text} {program : Node}
    (h : ofSource source = .ok program) :
    ∃ body, program.form = .program body ∧
      (∀ s ∈ body, ∀ n ∈ s.children.flatMap walk, n.isModuleForm = false) ∧
      ∀ n ∈ program.walk, n.FollowsRules := by
  have hfits : program.Fits .module := fits_ofSource h
  have hrules : ∀ n ∈ program.walk, n.FollowsRules := by
    intro n hn
    obtain ⟨r, hn'⟩ := hfits.exists_of_mem_walk hn
    exact hn'.followsRules
  cases hfits with
  | @program loc body hbody =>
    refine ⟨body, rfl, ?_, hrules⟩
    intro s hs n hn
    obtain ⟨c, hc, hnc⟩ := List.mem_flatMap.1 hn
    obtain ⟨r, hmodule, hitem, hc'⟩ := (hbody s hs).exists_of_mem_children_below nofun hc
    exact hc'.walk_isModuleForm hmodule hitem n hnc

theorem followsRules_destructuring : ∃ program body,
    ofSource "export let [a, \x7bb = 1\x7d] = f(); try \x7b [a.x] = b, a++ \x7d catch \x7b\x7d" =
      .ok program ∧ program.form = .program body ∧ body.length = 2 ∧
      (∀ s ∈ body, ∀ n ∈ s.children.flatMap walk, n.isModuleForm = false) ∧
      ∀ n ∈ program.walk, n.FollowsRules := by
  have htest : parsesTo
      "export let [a, \x7bb = 1\x7d] = f(); try \x7b [a.x] = b, a++ \x7d catch \x7b\x7d"
      (fun program => program.children.length = 2) = true := by decide +kernel
  obtain ⟨program, -, hprogram, -, hlength⟩ := exists_of_parsesTo htest
  obtain ⟨body, hform, htop, hrules⟩ := followsRules_ofSource hprogram
  have hchildren : program.children = body := by
    simp [children, hform, Form.parts, Form.slots, Slot.parts]
  rw [hchildren] at hlength
  exact ⟨program, body, hprogram, hform, of_decide_eq_true hlength, htop, hrules⟩

end Node

end ModuleLowering
