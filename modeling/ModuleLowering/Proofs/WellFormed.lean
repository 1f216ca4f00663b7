import ModuleLowering.Proofs.Traversal
import ModuleLowering.Syntax.Print
import ModuleLowering.Syntax.Shape

/-!
# Well-formed trees

A form has room for any node in each of its places. Here it is said which nodes the grammar puts
where, once for the places of a kind, so that a pass can be shown to leave a tree that could have
been read.
-/

set_option autoImplicit false

namespace ModuleLowering

/-- What a place in a tree is for. -/
inductive Role where
  /-- The name `x`. -/
  | named (x : Text)
  | name
  | literal
  | template
  /-- The name of a property or member. -/
  | key (computed : Bool)
  /-- The name of an import or export. -/
  | moduleName
  | expression
  /-- An element of an array or an argument. -/
  | argument
  /-- A property of an object. -/
  | property
  /-- The value of a property that is named like it. -/
  | shorthand (x : Text)
  /-- What a value is bound or assigned to. -/
  | pattern
  | patternProperty
  | block
  | arrowBody
  /-- The function that a method is. -/
  | method
  | classMember
  /-- A function or class. -/
  | definition (nameless : Bool)
  | declarator
  | variables
  /-- What declares names. -/
  | declared
  | forInit
  | handler
  | case
  | statement
  | importSpecifier
  | exportSpecifier
  | defaultExport
  /-- What stands at the top of a module. -/
  | item
  | module

namespace Node

/-- Whether a node takes a value apart. -/
def isDestructuring (n : Node) : Bool :=
  match n.form with
  | .arrayPattern _ | .objectPattern _ => true
  | _ => false

/-- Whether a node may stand on the left of an assignment. -/
def isAssignable (operator : Text) (n : Node) : Bool :=
  n.isTarget || (operator = "=" && n.isDestructuring)

/-- The operators between two operands. -/
def IsOperator (operator : Text) : Prop := ∃ level ∈ Precedence.binaryLevels, operator ∈ level

instance : DecidablePred IsOperator := fun operator =>
  inferInstanceAs (Decidable (∃ level ∈ Precedence.binaryLevels, operator ∈ level))

/-- A node that may stand in a place of this kind, and so may each part in its own. -/
inductive Fits : Role → Node → Prop where
  -- Names and literals
  | named {loc x} : Fits (.named x) (.mk loc (.identifier x))
  | name {x n} : Fits (.named x) n → Fits .name n
  | literal {loc value raw} : Fits .literal (.mk loc (.literal value raw))
  | template {loc raw} : Fits .template (.mk loc (.templateLiteral raw))
  | nameKey {n} : Fits .name n → Fits (.key false) n
  | literalKey {n} : Fits .literal n → Fits (.key false) n
  | computedKey {n} : Fits .expression n → Fits (.key true) n
  | nameOfModule {n} : Fits .name n → Fits .moduleName n
  | literalOfModule {n} : Fits .literal n → Fits .moduleName n
  -- Expressions
  | nameExpression {n} : Fits .name n → Fits .expression n
  | literalExpression {n} : Fits .literal n → Fits .expression n
  | templateExpression {n} : Fits .template n → Fits .expression n
  | regExpLiteral {loc raw} : Fits .expression (.mk loc (.regExpLiteral raw))
  | thisExpression {loc} : Fits .expression (.mk loc .thisExpression)
  | superExpression {loc} : Fits .expression (.mk loc .superExpression)
  | taggedTemplate {loc tag quasi} : Fits .expression tag → Fits .template quasi →
      Fits .expression (.mk loc (.taggedTemplateExpression (some tag) (some quasi)))
  | arrayExpression {loc} {elements : List (Option Node)} :
      (∀ p ∈ elements, ∀ e ∈ p, Fits .argument e) →
      Fits .expression (.mk loc (.arrayExpression elements))
  | objectExpression {loc} {properties : List Node} : (∀ p ∈ properties, Fits .property p) →
      Fits .expression (.mk loc (.objectExpression properties))
  | functionExpression {loc} {id : Option Node} {params : List Node} {body isAsync generator} :
      (∀ x ∈ id, Fits .name x) → (∀ p ∈ params, Fits .pattern p) → Fits .block body →
      Fits .expression (.mk loc (.functionExpression id params (some body) isAsync generator))
  | arrowFunction {loc} {params : List Node} {body isAsync} :
      (∀ p ∈ params, Fits .pattern p) → Fits .arrowBody body →
      Fits .expression (.mk loc (.arrowFunctionExpression params (some body) isAsync))
  | blockBody {n} : Fits .block n → Fits .arrowBody n
  | expressionBody {n} : Fits .expression n → Fits .arrowBody n
  | classExpression {loc} {id superclass : Option Node} {body : List Node} :
      (∀ x ∈ id, Fits .name x) → (∀ e ∈ superclass, Fits .expression e) →
      (∀ m ∈ body, Fits .classMember m) →
      Fits .expression (.mk loc (.classExpression id superclass body))
  | unaryExpression {loc operator argument} : Fits .expression argument →
      Fits .expression (.mk loc (.unaryExpression operator (some argument)))
  | awaitExpression {loc argument} : Fits .expression argument →
      Fits .expression (.mk loc (.awaitExpression (some argument)))
  | updateExpression {loc operator argument before} : Fits .expression argument →
      argument.isTarget = true →
      Fits .expression (.mk loc (.updateExpression operator (some argument) before))
  | binaryExpression {loc operator left right} : IsOperator operator → Fits .expression left →
      Fits .expression right →
      Fits .expression (.mk loc (.binaryExpression operator (some left) (some right)))
  | logicalExpression {loc operator left right} : IsOperator operator → Fits .expression left →
      Fits .expression right →
      Fits .expression (.mk loc (.logicalExpression operator (some left) (some right)))
  | assignmentExpression {loc operator left right} : Fits .pattern left →
      left.isAssignable operator = true → Fits .expression right →
      Fits .expression (.mk loc (.assignmentExpression operator (some left) (some right)))
  | conditionalExpression {loc test consequent alternate} : Fits .expression test →
      Fits .expression consequent → Fits .expression alternate →
      Fits .expression
        (.mk loc (.conditionalExpression (some test) (some consequent) (some alternate)))
  | callExpression {loc callee} {arguments : List Node} {optional} : Fits .expression callee →
      (∀ a ∈ arguments, Fits .argument a) →
      Fits .expression (.mk loc (.callExpression (some callee) arguments optional))
  | newExpression {loc callee} {arguments : List Node} : Fits .expression callee →
      (∀ a ∈ arguments, Fits .argument a) →
      Fits .expression (.mk loc (.newExpression (some callee) arguments))
  | member {loc object member optional} : Fits .expression object → Fits .name member →
      Fits .expression (.mk loc (.memberExpression (some object) (some member) false optional))
  | index {loc object member optional} : Fits .expression object → Fits .expression member →
      Fits .expression (.mk loc (.memberExpression (some object) (some member) true optional))
  | importExpression {loc source} : Fits .expression source →
      Fits .expression (.mk loc (.importExpression (some source)))
  | metaProperty {loc object member} : Fits .name object → Fits .name member →
      Fits .expression (.mk loc (.metaProperty (some object) (some member)))
  | sequenceExpression {loc} {expressions : List Node} : 2 ≤ expressions.length →
      (∀ e ∈ expressions, Fits .expression e) →
      Fits .expression (.mk loc (.sequenceExpression expressions))
  | yieldExpression {loc} {argument : Option Node} {delegate : Bool} :
      (∀ e ∈ argument, Fits .expression e) → (delegate = true → argument.isSome = true) →
      Fits .expression (.mk loc (.yieldExpression argument delegate))
  | expressionArgument {n} : Fits .expression n → Fits .argument n
  | spreadArgument {loc argument} : Fits .expression argument →
      Fits .argument (.mk loc (.spreadElement (some argument)))
  -- Properties of objects
  | property {loc key value computed} : Fits (.key computed) key → Fits .expression value →
      Fits .property (.mk loc (.property (some key) (some value) computed false false "init"))
  | shorthandProperty {loc key value x} : Fits (.named x) key → Fits (.shorthand x) value →
      Fits .property (.mk loc (.property (some key) (some value) false true false "init"))
  | methodProperty {loc key value computed} : Fits (.key computed) key → Fits .method value →
      Fits .property (.mk loc (.property (some key) (some value) computed false true "init"))
  | accessor {loc key value computed kind} : Print.isAccessor kind = true →
      Fits (.key computed) key → Fits .method value →
      Fits .property (.mk loc (.property (some key) (some value) computed false false kind))
  | spreadProperty {loc argument} : Fits .expression argument →
      Fits .property (.mk loc (.spreadElement (some argument)))
  | shorthandName {n x} : Fits (.named x) n → Fits (.shorthand x) n
  | shorthandDefault {loc key value x} : Fits (.named x) key → Fits .expression value →
      Fits (.shorthand x) (.mk loc (.assignmentPattern (some key) (some value)))
  -- Patterns
  | target {n} : Fits .expression n → n.isTarget = true → Fits .pattern n
  | arrayPattern {loc} {elements : List (Option Node)} :
      (∀ p ∈ elements, ∀ e ∈ p, Fits .pattern e) →
      Fits .pattern (.mk loc (.arrayPattern elements))
  | objectPattern {loc} {properties : List Node} : (∀ p ∈ properties, Fits .patternProperty p) →
      Fits .pattern (.mk loc (.objectPattern properties))
  | assignmentPattern {loc left right} : Fits .pattern left → Fits .expression right →
      Fits .pattern (.mk loc (.assignmentPattern (some left) (some right)))
  | restElement {loc argument} : Fits .pattern argument →
      Fits .pattern (.mk loc (.restElement (some argument)))
  | patternProperty {loc key value computed} : Fits (.key computed) key → Fits .pattern value →
      Fits .patternProperty
        (.mk loc (.property (some key) (some value) computed false false "init"))
  | shorthandPattern {loc key value x} : Fits (.named x) key → Fits (.shorthand x) value →
      Fits .patternProperty (.mk loc (.property (some key) (some value) false true false "init"))
  | restProperty {loc argument} : Fits .pattern argument →
      Fits .patternProperty (.mk loc (.restElement (some argument)))
  -- Functions and classes
  | block {loc} {body : List Node} : (∀ s ∈ body, Fits .statement s) →
      Fits .block (.mk loc (.blockStatement body))
  | method {loc} {params : List Node} {body isAsync generator} :
      (∀ p ∈ params, Fits .pattern p) → Fits .block body →
      Fits .method (.mk loc (.functionExpression none params (some body) isAsync generator))
  | methodDefinition {loc key value kind isStatic computed} : Fits (.key computed) key →
      Fits .method value →
      Fits .classMember
        (.mk loc (.methodDefinition (some key) (some value) kind isStatic computed))
  | propertyDefinition {loc key} {value : Option Node} {isStatic computed} :
      Fits (.key computed) key →
      (∀ e ∈ value, Fits .expression e) →
      Fits .classMember (.mk loc (.propertyDefinition (some key) value isStatic computed))
  | functionDefinition {loc} {nameless : Bool} {id : Option Node} {params : List Node}
      {body isAsync generator} :
      (nameless = false → id.isSome = true) → (∀ x ∈ id, Fits .name x) →
      (∀ p ∈ params, Fits .pattern p) → Fits .block body →
      Fits (.definition nameless)
        (.mk loc (.functionDeclaration id params (some body) isAsync generator))
  | classDefinition {loc} {nameless : Bool} {id superclass : Option Node} {body : List Node} :
      (nameless = false → id.isSome = true) → (∀ x ∈ id, Fits .name x) →
      (∀ e ∈ superclass, Fits .expression e) → (∀ m ∈ body, Fits .classMember m) →
      Fits (.definition nameless) (.mk loc (.classDeclaration id superclass body))
  -- Statements
  | variableDeclarator {loc id} {init : Option Node} : Fits .pattern id →
      (∀ e ∈ init, Fits .expression e) →
      Fits .declarator (.mk loc (.variableDeclarator (some id) init))
  | variableDeclaration {loc kind} {declarators : List Node} :
      (∀ d ∈ declarators, Fits .declarator d) →
      Fits .variables (.mk loc (.variableDeclaration kind declarators))
  | declaredDefinition {n} : Fits (.definition false) n → Fits .declared n
  | declaredVariables {n} : Fits .variables n → Fits .declared n
  | declaredStatement {n} : Fits .declared n → Fits .statement n
  | blockStatement {n} : Fits .block n → Fits .statement n
  | expressionStatement {loc expression} : Fits .expression expression →
      Fits .statement (.mk loc (.expressionStatement (some expression)))
  | emptyStatement {loc} : Fits .statement (.mk loc .emptyStatement)
  | returnStatement {loc} {argument : Option Node} : (∀ e ∈ argument, Fits .expression e) →
      Fits .statement (.mk loc (.returnStatement argument))
  | ifStatement {loc test consequent} {alternate : Option Node} : Fits .expression test →
      Fits .statement consequent → (∀ s ∈ alternate, Fits .statement s) →
      Fits .statement (.mk loc (.ifStatement (some test) (some consequent) alternate))
  | forStatement {loc} {init test update : Option Node} {body} : (∀ n ∈ init, Fits .forInit n) →
      (∀ e ∈ test, Fits .expression e) → (∀ e ∈ update, Fits .expression e) →
      Fits .statement body →
      Fits .statement (.mk loc (.forStatement init test update (some body)))
  | variablesInit {n} : Fits .variables n → Fits .forInit n
  | expressionInit {n} : Fits .expression n → Fits .forInit n
  | forInStatement {loc left right body} : Fits .variables left → Fits .expression right →
      Fits .statement body →
      Fits .statement (.mk loc (.forInStatement (some left) (some right) (some body)))
  | forOfStatement {loc left right body isAwait} : Fits .variables left → Fits .expression right →
      Fits .statement body →
      Fits .statement (.mk loc (.forOfStatement (some left) (some right) (some body) isAwait))
  | whileStatement {loc test body} : Fits .expression test → Fits .statement body →
      Fits .statement (.mk loc (.whileStatement (some test) (some body)))
  | doWhileStatement {loc body test} : Fits .statement body → Fits .expression test →
      Fits .statement (.mk loc (.doWhileStatement (some body) (some test)))
  | throwStatement {loc argument} : Fits .expression argument →
      Fits .statement (.mk loc (.throwStatement (some argument)))
  | tryStatement {loc block} {handler finalizer : Option Node} : Fits .block block →
      (∀ n ∈ handler, Fits .handler n) → (∀ n ∈ finalizer, Fits .block n) →
      (handler.isSome || finalizer.isSome) = true →
      Fits .statement (.mk loc (.tryStatement (some block) handler finalizer))
  | catchClause {loc} {param : Option Node} {body} : (∀ p ∈ param, Fits .pattern p) →
      Fits .block body → Fits .handler (.mk loc (.catchClause param (some body)))
  | switchStatement {loc discriminant} {cases : List Node} : Fits .expression discriminant →
      (∀ n ∈ cases, Fits .case n) →
      Fits .statement (.mk loc (.switchStatement (some discriminant) cases))
  | switchCase {loc} {test : Option Node} {consequent : List Node} :
      (∀ e ∈ test, Fits .expression e) → (∀ s ∈ consequent, Fits .statement s) →
      Fits .case (.mk loc (.switchCase test consequent))
  | breakStatement {loc} : Fits .statement (.mk loc .breakStatement)
  | continueStatement {loc} : Fits .statement (.mk loc .continueStatement)
  -- Imports, exports and the module
  | importSpecifier {loc name imported} : Fits .name name → Fits .moduleName imported →
      Fits .importSpecifier (.mk loc (.importSpecifier (some name) (some imported)))
  | importDefaultSpecifier {loc name} : Fits .name name →
      Fits .importSpecifier (.mk loc (.importDefaultSpecifier (some name)))
  | importNamespaceSpecifier {loc name} : Fits .name name →
      Fits .importSpecifier (.mk loc (.importNamespaceSpecifier (some name)))
  | importDeclaration {loc} {specifiers : List Node} {source} :
      (∀ s ∈ specifiers, Fits .importSpecifier s) → Fits .literal source →
      Fits .item (.mk loc (.importDeclaration specifiers (some source)))
  | exportSpecifier {loc name exported} : Fits .moduleName name → Fits .moduleName exported →
      Fits .exportSpecifier (.mk loc (.exportSpecifier (some name) (some exported)))
  | exportNames {loc} {specifiers : List Node} {source : Option Node} :
      (∀ s ∈ specifiers, Fits .exportSpecifier s) → (∀ n ∈ source, Fits .literal n) →
      Fits .item (.mk loc (.exportNamedDeclaration none specifiers source))
  | exportDeclared {loc declaration} : Fits .declared declaration →
      Fits .item (.mk loc (.exportNamedDeclaration (some declaration) [] none))
  | exportDefault {loc declaration} : Fits .defaultExport declaration →
      Fits .item (.mk loc (.exportDefaultDeclaration (some declaration)))
  | defaultDefinition {n} : Fits (.definition true) n → Fits .defaultExport n
  | defaultExpression {n} : Fits .expression n → Fits .defaultExport n
  | exportAll {loc source} {exported : Option Node} : Fits .literal source →
      (∀ n ∈ exported, Fits .moduleName n) →
      Fits .item (.mk loc (.exportAllDeclaration (some source) exported))
  | statementItem {n} : Fits .statement n → Fits .item n
  | program {loc} {body : List Node} : (∀ s ∈ body, Fits .item s) →
      Fits .module (.mk loc (.program body))

/-! ## Parts -/

variable {n : Node} {r : Role}

theorem Fits.exists_named (h : n.Fits .name) : ∃ x, n.Fits (.named x) := by
  cases h with
  | name h => exact ⟨_, h⟩

/-- Each part of a node below the module may stand where it does, and imports and exports may not
stand there. -/
theorem Fits.exists_of_mem_children_below {c : Node} (h : n.Fits r) (hr : r ≠ .module)
    (hc : c ∈ n.children) : ∃ r', r' ≠ .module ∧ r' ≠ .item ∧ c.Fits r' := by
  induction h
  case name ih | nameKey ih | literalKey ih | computedKey ih | nameOfModule ih | literalOfModule ih
    | nameExpression ih | literalExpression ih | templateExpression ih | blockBody ih
    | expressionBody ih | expressionArgument ih | shorthandName ih | target ih
    | declaredDefinition ih | declaredVariables ih | declaredStatement ih | blockStatement ih
    | variablesInit ih | expressionInit ih | defaultDefinition ih | defaultExpression ih
    | statementItem ih => exact ih nofun hc
  case program => exact absurd rfl hr
  all_goals
    simp only [children, form, Form.parts, Form.slots, List.flatMap_cons, List.flatMap_nil,
      Slot.parts, List.append_nil, Option.toList_some, Option.toList_none, List.mem_append,
      List.nil_append, List.cons_append, List.mem_filterMap, id,
      Option.mem_toList, ← Option.mem_def, List.mem_cons, List.not_mem_nil] at hc <;>
    grind

/-- Each part of a module may stand at its top. -/
theorem Fits.item_of_mem_children {c : Node} (h : n.Fits .module) (hc : c ∈ n.children) :
    c.Fits .item := by
  cases h with
  | program hbody =>
    apply hbody
    simpa [children, Form.parts, form, Form.slots, Slot.parts] using hc

/-- Each part of a node that may stand somewhere may stand where it does. -/
theorem Fits.exists_of_mem_children {c : Node} (h : n.Fits r) (hc : c ∈ n.children) :
    ∃ r', c.Fits r' := by
  by_cases hr : r = .module
  · subst hr
    exact ⟨.item, h.item_of_mem_children hc⟩
  · obtain ⟨r', -, -, hc'⟩ := h.exists_of_mem_children_below hr hc
    exact ⟨r', hc'⟩

end Node

/-! ## Trees that are built -/

/-- If something can be built, it passes the test. -/
def Shaped.Builds {α : Type} (s : Shaped α) (P : α → Prop) : Prop := ∀ a, s = .ok a → P a

namespace Shaped.Builds

variable {α β : Type} {s : Shaped α} {f : α → Shaped β} {P P' : α → Prop} {Q : β → Prop}

theorem pure {a : α} (h : P a) : Builds (pure a) P := by
  rintro b ⟨⟩
  exact h

theorem error {fault : ShapeFault} : Builds (.error fault) P := nofun

theorem bind (h : Builds s P) (hf : ∀ a, P a → Builds (f a) Q) : Builds (s >>= f) Q := by
  intro b hb
  cases s with
  | error fault => cases hb
  | ok a => exact hf a (h a rfl) b hb

theorem map {g : α → β} (h : Builds s P) (hg : ∀ a, P a → Q (g a)) : Builds (s.map g) Q := by
  intro b hb
  cases s with
  | error fault => cases hb
  | ok a =>
    cases hb
    exact hg a (h a rfl)

theorem mono (h : Builds s P) (hP : ∀ a, P a → P' a) : Builds s P' := fun a ha => hP a (h a ha)

theorem ite {c : Prop} [Decidable c] {t : Shaped α} (h : c → Builds s P) (h' : ¬c → Builds t P) :
    Builds (if c then s else t) P := by
  split
  · exact h ‹_›
  · exact h' ‹_›

/-- What is built of each element of a list passes the test. -/
theorem mapM {as : List α} (h : ∀ a ∈ as, Builds (f a) Q) :
    Builds (as.mapM f) fun bs => bs.length = as.length ∧ ∀ b ∈ bs, Q b := by
  induction as with
  | nil => exact pure ⟨rfl, nofun⟩
  | cons a as ih =>
    rw [List.mapM_cons]
    refine bind (h a List.mem_cons_self) fun b hb => ?_
    refine bind (ih fun c hc => h c (List.mem_cons_of_mem a hc)) fun bs hbs => pure ⟨?_, ?_⟩
    · rw [List.length_cons, List.length_cons, hbs.1]
    · exact List.forall_mem_cons.2 ⟨hb, hbs.2⟩

theorem optionMapM {o : Option α} (h : ∀ a ∈ o, Builds (f a) Q) :
    Builds (o.mapM f) fun b => b.isSome = o.isSome ∧ ∀ x ∈ b, Q x := by
  cases o with
  | none => exact pure ⟨rfl, nofun⟩
  | some a =>
    refine bind (h a rfl) fun b hb => pure ⟨rfl, ?_⟩
    rintro x ⟨⟩
    exact hb

end Shaped.Builds

namespace Node

open Shaped (Builds)

variable {n : Node} {r r' : Role}

/-- A node with the pattern that it stands for. -/
theorem fold_patternOf (n : Node) :
    (n.fold fun n form => (n, patternOf n form)) = (n, n.asPattern) := by
  rw [asPattern, fold_eq]

theorem map_fst_foldPart (p : Option Node) :
    (foldPart (fun n form => (n, patternOf n form)) p).map (·.1) = p := by
  cases p with
  | none => rfl
  | some n =>
    rw [foldPart, fold_patternOf]
    rfl

theorem partPattern_foldPart (p : Option Node) :
    partPattern (foldPart (fun n form => (n, patternOf n form)) p) = p.mapM asPattern := by
  cases p with
  | none => rfl
  | some n =>
    rw [foldPart, fold_patternOf]
    rfl

theorem asPattern_eq (n : Node) :
    n.asPattern = patternOf n (foldForm (fun n form => (n, patternOf n form)) n.form) := by
  rw [asPattern, fold_eq]

/-- The pattern of a part that is there. -/
theorem builds_partPattern {n : Node} {P : Node → Prop} (h : Builds n.asPattern P) :
    Builds (partPattern (foldPart (fun n form => (n, patternOf n form)) (some n)))
      fun p => ∃ e, p = some e ∧ P e := by
  rw [partPattern_foldPart]
  exact .map h fun e he => ⟨e, rfl, he⟩

end Node

/-- What an expression in a place of this kind is read as where names are bound. -/
def Role.asPattern? : Role → Option Role
  | named _ | name | literal | template | expression | argument | pattern => some pattern
  | property => some patternProperty
  | _ => none

namespace Node

open Shaped (Builds)

variable {n : Node} {r r' : Role}

/-- What is read as a pattern is well formed as one. -/
theorem builds_asPattern (h : n.Fits r) (hr : r.asPattern? = some r') :
    Builds n.asPattern (Fits r') := by
  induction h generalizing r'
  -- Names and members are patterns already.
  case named =>
    cases hr
    rw [asPattern_eq]
    exact .pure (.target (.nameExpression (.name .named)) rfl)
  case member hobject hmember _ _ =>
    cases hr
    rw [asPattern_eq]
    exact .pure (.target (.member hobject hmember) rfl)
  case index hobject hmember _ _ =>
    cases hr
    rw [asPattern_eq]
    exact .pure (.target (.index hobject hmember) rfl)
  case assignmentPattern hleft hright _ _ =>
    cases hr
    rw [asPattern_eq]
    exact .pure (.assignmentPattern hleft hright)
  case assignmentExpression hright ihleft _ =>
    cases hr
    rw [asPattern_eq]
    refine .ite (fun _ => ?_) fun _ => .error
    rw [map_fst_foldPart]
    refine .bind (builds_partPattern (ihleft rfl)) fun left hleft => ?_
    obtain ⟨left, rfl, hleft⟩ := hleft
    exact .pure (.assignmentPattern hleft hright)
  case arrayExpression elements _ ih =>
    cases hr
    rw [asPattern_eq, form, foldForm, foldSparse_eq_map]
    refine .bind (.mapM (Q := fun q => ∀ e ∈ q, Fits .pattern e) fun p hp => ?_)
      fun parts hparts => .pure (.arrayPattern hparts.2)
    obtain ⟨element, helement, rfl⟩ := List.mem_map.1 hp
    rw [← foldPart_eq_map, partPattern_foldPart]
    exact (Builds.optionMapM fun e he => ih element helement e he rfl).mono fun _ h => h.2
  case objectExpression properties _ ih =>
    cases hr
    rw [asPattern_eq, form, foldForm, foldList_eq_map]
    refine .bind (.mapM (Q := Fits .patternProperty) fun p hp => ?_)
      fun parts hparts => .pure (.objectPattern hparts.2)
    obtain ⟨property, hproperty, rfl⟩ := List.mem_map.1 hp
    rw [fold_patternOf]
    exact ih property hproperty rfl
  case spreadArgument ih =>
    cases hr
    rw [asPattern_eq]
    refine .bind (builds_partPattern (ih rfl)) fun argument hargument => ?_
    obtain ⟨argument, rfl, hargument⟩ := hargument
    exact .pure (.restElement hargument)
  case spreadProperty ih =>
    cases hr
    rw [asPattern_eq]
    refine .bind (builds_partPattern (ih rfl)) fun argument hargument => ?_
    obtain ⟨argument, rfl, hargument⟩ := hargument
    exact .pure (.restProperty hargument)
  case property hkey _ _ ih =>
    cases hr
    rw [asPattern_eq, form, foldForm, patternOf, map_fst_foldPart]
    refine .ite (fun _ => ?_) fun _ => .error
    refine .bind (builds_partPattern (ih rfl)) fun value hvalue => ?_
    obtain ⟨value, rfl, hvalue⟩ := hvalue
    exact .pure (.patternProperty hkey hvalue)
  case shorthandProperty key value x hkey hvalue _ _ =>
    cases hr
    have hself : value.asPattern = .ok value := by
      rw [asPattern_eq]
      cases hvalue with
      | shorthandName h =>
        cases h
        rfl
      | shorthandDefault => rfl
    rw [asPattern_eq, form, foldForm, patternOf, map_fst_foldPart, partPattern_foldPart]
    refine .ite (fun _ => ?_) fun _ => .error
    rw [show (some value).mapM asPattern = some <$> value.asPattern from rfl, hself]
    exact .pure (.shorthandPattern hkey hvalue)
  case methodProperty =>
    cases hr
    rw [asPattern_eq, form, foldForm, patternOf]
    exact .ite (fun h => by simp at h) fun _ => .error
  case accessor kind hkind _ _ _ _ =>
    cases hr
    rw [asPattern_eq, form, foldForm, patternOf]
    refine .ite (fun h => ?_) fun _ => .error
    have hinit : kind = "init" := by simpa using h
    rw [hinit] at hkind
    cases hkind
  case name ih | nameExpression ih | literalExpression ih | templateExpression ih
    | expressionArgument ih | target ih =>
    cases hr
    exact ih rfl
  -- The others are no patterns.
  all_goals first
    | cases hr; done
    | cases hr; rw [asPattern_eq]; exact .error

/-! ## Targets and parameters -/

variable {loc : Option Position}

/-- An array or an object that is read as a pattern takes a value apart. -/
theorem builds_isDestructuring (h : (∃ elements, n.form = .arrayExpression elements) ∨
    ∃ properties, n.form = .objectExpression properties) :
    Builds n.asPattern fun p => p.isDestructuring = true := by
  obtain ⟨loc, form⟩ := n
  rw [asPattern_eq]
  obtain ⟨elements, rfl⟩ | ⟨properties, rfl⟩ := h
  · exact .bind (P := fun _ => True) (fun _ _ => trivial) fun _ _ => .pure rfl
  · exact .bind (P := fun _ => True) (fun _ _ => trivial) fun _ _ => .pure rfl

theorem builds_asTarget (operator : Text) (h : n.Fits .expression) :
    Builds (n.asTarget operator loc) fun t => t.Fits .pattern ∧ t.isAssignable operator = true := by
  have hpattern (hform : (∃ elements, n.form = .arrayExpression elements) ∨
      ∃ properties, n.form = .objectExpression properties) (hoperator : operator = "=") :
      Builds n.asPattern fun t => t.Fits .pattern ∧ t.isAssignable operator = true := by
    intro t ht
    refine ⟨builds_asPattern h rfl t ht, ?_⟩
    rw [isAssignable, builds_isDestructuring hform t ht, decide_eq_true hoperator]
    exact Bool.or_true _
  unfold asTarget
  split
  case h_1 elements hform => exact .ite (hpattern (.inl ⟨elements, hform⟩)) fun _ => .error
  case h_2 properties hform => exact .ite (hpattern (.inr ⟨properties, hform⟩)) fun _ => .error
  case h_3 =>
    refine .ite (fun htarget => .pure ⟨.target h htarget, ?_⟩) fun _ => .error
    rw [isAssignable, htarget]
    rfl

/-- The expressions that a comma joins. -/
theorem Fits.commaParts (h : n.Fits .expression) :
    n.commaParts ≠ [] ∧ ∀ e ∈ n.commaParts, e.Fits .expression := by
  unfold Node.commaParts
  split
  case h_1 expressions hform =>
    obtain ⟨loc, form⟩ := n
    subst hform
    cases h with
    | sequenceExpression hlength hexpressions =>
      exact ⟨List.ne_nil_of_length_pos (Nat.lt_of_lt_of_le Nat.two_pos hlength), hexpressions⟩
    | nameExpression h => cases h with | name h => cases h
    | literalExpression h => cases h
    | templateExpression h => cases h
  case h_2 => exact ⟨List.cons_ne_nil _ _, fun e he => List.mem_singleton.1 he ▸ h⟩

theorem builds_asParameters (h : n.Fits .expression) :
    Builds n.asParameters fun ps => ∀ p ∈ ps, p.Fits .pattern :=
  (Builds.mapM fun e he => builds_asPattern (h.commaParts.2 e he) rfl).mono fun _ h => h.2

end Node

end ModuleLowering
