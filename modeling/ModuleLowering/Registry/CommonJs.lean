import ModuleLowering.Registry.Call
import ModuleLowering.Registry.Resolver

/-!
# CommonJS modules

A module that publishes nothing by an export form may assign to export slots instead. What it
assigns is published as well, through an object that the registry keeps for the module: each
assignment to a slot goes by way of the same slot of that object. On the registry, calls that
require a module by a literal go to the registry. Placeholders of expressions that a pass took away
are cut out on the way.
-/

set_option autoImplicit false

namespace ModuleLowering

/-! ## Export slots -/

namespace Node

/-- The object and the name of a member that is named by an identifier and always read. -/
def staticMember? (n : Node) : Option (Node × Text) :=
  match n.form with
  | .memberExpression (some object) (some member) false false =>
    member.name?.map fun name => (object, name)
  | _ => none

/-- The name that an assignment to an expression publishes, if that is an export slot: `exports.n`
and `module.exports.n` publish `n`, and `module.exports` publishes the default. -/
def exportSlot? (n : Node) : Option Text :=
  match n.staticMember? with
  | none => none
  | some (object, name) =>
    if object.isNamed "exports" then some name
    else if object.isNamed "module" && name = "exports" then some "default"
    else
      match object.staticMember? with
      | some (outer, inner) =>
        if outer.isNamed "module" && inner = "exports" then some name else none
      | none => none

/-- The export slot that an assignment sets. -/
def assignedSlot? (n : Node) : Option Text :=
  match n.form with
  | .assignmentExpression operator (some left) _ =>
    if operator = "=" then left.exportSlot? else none
  | _ => none

/-- The specifier of a call that requires a module by a literal. -/
def requiredLiteral? (n : Node) : Option Text :=
  match n.form with
  | .callExpression (some callee) [argument] false =>
    match argument.form with
    | .literal (.text specifier) _ => if callee.isNamed "require" then some specifier else none
    | _ => none
  | _ => none

/-- Whether a node is a placeholder of an expression that a pass took away. -/
def isInvalid (n : Node) : Bool :=
  match n.form with
  | .invalid => true
  | _ => false

end Node

/-! ## Rewriting -/

/-- A change to a module. -/
inductive Redirect where
  /-- An assignment to an export slot also publishes this name. -/
  | published (name : Text)
  /-- A module is required by its path from the registry. -/
  | required (specifier path : Text)
deriving DecidableEq

namespace Redirect

/-- Whether a change publishes a name. -/
def isPublished : Redirect → Bool
  | published _ => true
  | required .. => false

/-- What is noted about a change. -/
def message : Redirect → Text
  | published name => "export assignment publishes " ++ name
  | required specifier path =>
    "require(" ++ specifier.shown ++ ") -> registry " ++ path.shown

/-- A change as a note. -/
def event (r : Redirect) : Event := ⟨.debug, .commonJs, r.message⟩

end Redirect

/-- How far a module has been rewritten. -/
structure Rewriting where
  names : Names
  /-- The name of the object that the registry keeps for the module, once there is need for it. -/
  boundary : Option Text := none
  /-- The changes so far. -/
  redirects : List Redirect := []

namespace Rewriting

/-- How many assignments publish a name. -/
def exported (r : Rewriting) : Nat := r.redirects.countP Redirect.isPublished

/-- How many calls go to the registry. -/
def requires (r : Rewriting) : Nat := r.redirects.countP fun redirect => !redirect.isPublished

/-- Notes a change. -/
def add (redirect : Redirect) : StateM Rewriting Unit :=
  modify fun r => { r with redirects := r.redirects ++ [redirect] }

/-- The name of the object that the registry keeps for the module. -/
def boundaryName : StateM Rewriting Text := do
  let r ← get
  match r.boundary with
  | some name => return name
  | none =>
    let (name, names) := r.names.fresh "__cjs"
    set { r with names, boundary := some name }
    return name

/-- What stays of expressions joined by commas without placeholders. -/
def prunedSequence (n : Node) (expressions : List Node) : Node.Outcome :=
  let kept := expressions.filter fun e => !e.isInvalid
  if kept.length = expressions.length then .same
  else
    match kept with
    | [] => .replaced (.mk n.loc .invalid)
    | [e] => .replaced e
    | kept => .replaced (n.withForm (.sequenceExpression kept))

/-- An assignment to an export slot, by way of the slot of the object named `boundary`. -/
def mirrored (n : Node) (boundary name : Text) (left right : Option Node) : Node :=
  let slot := (Node.identifier boundary).memberPath ["exports", name]
  let mirror := Node.made (.assignmentExpression "=" (some slot) right)
  n.withForm (.assignmentExpression "=" left (some mirror))

/-- Rewrites a node whose parts have been rewritten. -/
def rewriteNode (runtimeModule : Bool) (resolution : Resolution) (n : Node) :
    StateM Rewriting Node.Outcome := do
  match n.form with
  | .expressionStatement (some e) => return if e.isInvalid then .removed else .same
  | .sequenceExpression expressions => return prunedSequence n expressions
  | .assignmentExpression _ left right =>
    match n.assignedSlot? with
    | none => return .same
    | some name =>
      add (.published name)
      let boundary ← boundaryName
      return .replaced (mirrored n boundary name left right)
  | .callExpression .. =>
    match if runtimeModule then n.requiredLiteral? else none with
    | none => return .same
    | some specifier =>
      let path := resolution.actualPath specifier
      add (.required specifier path)
      return .replaced (.mk n.loc (Registry.require path).form)
  | _ => return .same

/-- Rewrites a node after its parts. -/
def rule (runtimeModule : Bool) (resolution : Resolution) (n : Node)
    (descend : StateM Rewriting Node.Outcome) : StateM Rewriting Node.Outcome := do
  let outcome ← descend
  match outcome.item? n with
  | none => return outcome
  | some rebuilt =>
    match ← rewriteNode runtimeModule resolution rebuilt with
    | .same => return outcome
    | changed => return changed

end Rewriting

/-- A rewritten module. -/
structure Rewritten where
  outcome : Node.Outcome
  rewriting : Rewriting

namespace Rewritten

/-- The module with the declaration of its object in front. -/
def withBoundary (moduleId : Text) (rewriting : Rewriting) (outcome : Node.Outcome) :
    Node.Outcome :=
  match rewriting.boundary, outcome with
  | some name, .replaced n =>
    match n.form with
    | .program body => .replaced (n.withForm (.program (Registry.boundary name moduleId :: body)))
    | _ => outcome
  | _, _ => outcome

def ofProgram (moduleId : Text) (runtimeModule : Bool) (resolution : Resolution) (names : Names)
    (program : Node) : Rewritten :=
  let (outcome, rewriting) := (program.rewriteM (Rewriting.rule runtimeModule resolution)).run { names }
  ⟨withBoundary moduleId rewriting outcome, rewriting⟩

/-- What is noted about rewriting a module. -/
def events (moduleId : Text) (r : Rewritten) : List Event :=
  r.rewriting.redirects.map Redirect.event ++
    [⟨.debug, .commonJs,
      "commonjs rewrite of " ++ moduleId ++ ": " ++ Text.ofNat r.rewriting.exported ++
        " export assignment(s), " ++ Text.ofNat r.rewriting.requires ++ " require call(s)"⟩]

end Rewritten

end ModuleLowering
