import ModuleLowering.Proofs.ComposedTexts

/-!
# The head of a `for`

In what is printed before the first semicolon of a `for`, an `in` outside brackets would make
another kind of loop of it. The printer puts every expression with that operator in parentheses
there, wherever the expression stands. Blocks of functions are no part of the head: they are printed
as everywhere, and so are the test, the update and the body of the loop.
-/

set_option autoImplicit false

namespace ModuleLowering

open Print

open Printing

namespace Node

/-! ## Words and blocks of a tree -/

/-- The words that a node itself is printed with. -/
def ownTexts (n : Node) : List Text :=
  match n.form with
  | .identifier x => [x]
  | .literal value raw => [raw.getD (valueText value)]
  | .regExpLiteral raw | .templateLiteral raw => [raw]
  | .unaryExpression operator _ | .updateExpression operator _ _ | .binaryExpression operator _ _
  | .logicalExpression operator _ _ | .assignmentExpression operator _ _ => [operator]
  | .variableDeclaration kind _ => [kind]
  | _ => []

end Node

/-- The parts of a form that are no names of members or properties. -/
def Form.operands {α : Type} : Form α → List α
  | .memberExpression object name computed _ =>
    object.toList ++ if computed then name.toList else []
  | .property name value computed _ _ _ | .propertyDefinition name value _ computed
  | .methodDefinition name value _ _ computed =>
    (if computed then name.toList else []) ++ value.toList
  | .metaProperty object _ => object.toList
  | form => form.parts

namespace Node

/-- Whether `in` is a word of a tree other than as the operator between two operands and as the name
of a member or property. -/
def spellsIn (n : Node) : Bool :=
  n.fold fun n form =>
    (!isIn n && n.ownTexts.contains "in") || form.operands.any id

def isTemplate (n : Node) : Bool :=
  match n.form with
  | .templateLiteral raw => raw.head? = some (CodePoint.ofChar (Char.ofNat 96))
  | _ => false

def isFunction (n : Node) : Bool :=
  match n.form with
  | .functionExpression .. => true
  | _ => false

/-- Whether an operator before or behind its operand is a word or a sign, what follows a tag is a
template, a property without a key is named, and a method is a function. -/
def isRegular (n : Node) : Bool :=
  match n.form with
  | .unaryExpression operator _ =>
    operator.all CodePoint.isLetter || !operator.any Scanner.isNamePart
  | .updateExpression operator _ _ => !operator.any Scanner.isNamePart
  | .taggedTemplateExpression _ quasi => quasi.all isTemplate
  | .property name value _ shorthand method kind =>
    (!(isAccessor kind || method) || value.all isFunction) &&
      (!shorthand || name.all fun name => name.name?.isSome)
  | .methodDefinition _ value _ _ _ => value.all isFunction
  | _ => true

/-- The blocks of the functions in an expression, in the order of the text; what is inside them is
not looked at. -/
def blocks (n : Node) : List Node :=
  n.fold fun n form =>
    match n.form, form with
    | .functionExpression _ _ (some body) _ _, .functionExpression _ params _ _ _ =>
      params.flatten ++ [body]
    | .arrowFunctionExpression _ (some body) _, .arrowFunctionExpression params inner _ =>
      params.flatten ++
        match body.form with
        | .blockStatement _ => [body]
        | _ => inner.getD []
    | _, form => form.parts.flatten

/-! ## Equations -/

section

variable {loc : Option Position} {form : Form Node} {id : Option Node} {params : List Node}
  {body : Node} {isAsync generator : Bool} {n : Node}

end

/-! ## Expressions -/

/-- A node whose text, where `in` would be taken for that of the loop, is composed of words and
blocks of the tree, and has `in` only in brackets unless the node has that operator itself. -/
structure Composes (own : Text → Prop) (n : Node) : Prop where
  writes : ∀ x ∈ n.ownTexts, own x
  regular : n.isRegular = true
  bare : ∀ (depth : Nat) (t : Text) (free : Bool), n.printed.bare ⟨depth, true⟩ = .ok t →
    (free = false → isIn n = false ∧ n.spellsIn = false) → Composed own free t n.blocks

/-- The same for an expression in its place. -/
structure Stands (own : Text → Prop) (free : Bool) (n : Node) : Prop where
  composes : n.Composes own
  spellsIn : free = false → n.spellsIn = false

section

variable {own : Text → Prop} {free : Bool} {depth depth' least : Nat} {t : Text} {n : Node}
  {part part' part'' : Option Node} {ns : List Node} {f : Printed → Printing Text}

theorem Composes.stands (h : n.Composes own) : n.Stands own true := ⟨h, nofun⟩

theorem Stands.expression (h : n.Stands own free)
    (ht : expression ⟨depth, true⟩ least (some n.printed) = .ok t) :
    Composed own free t n.blocks := by
  obtain ⟨u, hu, ht⟩ := bind_eq_ok.1 ht
  obtain ⟨level, -, ht⟩ := bind_eq_ok.1 ht
  rw [node_printed] at ht
  split at ht
  next =>
    cases ht
    exact (h.composes.bare _ _ true hu nofun).parenthesized
  next hbinds =>
    cases ht
    refine h.composes.bare _ _ free hu fun hfree => ⟨?_, h.spellsIn hfree⟩
    rw [Bool.or_eq_true, not_or] at hbinds
    simpa using hbinds.2

/-- A node that composes whenever all those below it do. -/
def AllCompose (own : Text → Prop) (n : Node) : Prop := ∀ m ∈ n.walk, m.Composes own

theorem AllCompose.child {c : Node} (h : n.AllCompose own) (hc : c ∈ n.children) :
    c.AllCompose own := fun m hm => h m (mem_walk_of_mem_children hc hm)

section

variable {loc : Option Position} {name value : Option Node}
  {computed shorthand isMethod isStatic : Bool} {kind : Text}

end

/-! ## Operators, members and calls -/

end

end Node

end ModuleLowering
