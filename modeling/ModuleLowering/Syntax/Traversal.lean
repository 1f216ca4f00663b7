import ModuleLowering.Syntax.Node

/-!
# Traversals

Ways through a tree: the nodes in the order in which they start, by a list of nodes still to see or
by recursion; equality up to places; and rewriting, which tells a changed tree from an unchanged
one.
-/

set_option autoImplicit false

namespace ModuleLowering.Node

/-! ## Seeing every node -/

/-- How many nodes a tree has. -/
def size (n : Node) : Nat := n.fold fun _ form => 1 + form.parts.foldr (· + ·) 0

/-- The first `fuel` nodes below and among `todo`, each node coming before its parts. -/
def walkFrom : Nat → List Node → List Node
  | 0, _ => []
  | _, [] => []
  | fuel + 1, n :: todo => n :: walkFrom fuel (n.children ++ todo)

/-- The nodes of a tree, each before its parts. -/
def walk (n : Node) : List Node := walkFrom n.size [n]

/-- The nodes of a tree that a recursive visit meets, each before its parts, where the parts of a
node for which `stop` holds are not visited. -/
def visited (stop : Node → Bool) (n : Node) : List Node :=
  n.fold fun n form => n :: if stop n then [] else form.parts.flatten

def name? (n : Node) : Option Text :=
  match n.form with
  | .identifier name => some name
  | _ => none

/-- Whether a node is the identifier `name`. -/
def isNamed (n : Node) (name : Text) : Bool := n.name? = some name

/-- The names of the identifiers of a tree. -/
def names (n : Node) : List Text := n.walk.filterMap name?

/-! ## Equality -/

/-- The form of a node without its parts. -/
def shape (n : Node) : Form Unit := n.form.map fun _ => ()

/-- Equality of trees; places do not count. -/
def same (n : Node) : Node → Bool :=
  n.fold fun n form other =>
    n.shape == other.shape && (form.parts.zip other.children).all fun part => part.1 part.2

/-! ## Rewriting -/

def isStatement (n : Node) : Bool :=
  match n.form with
  | .expressionStatement .. | .blockStatement .. | .emptyStatement | .variableDeclaration ..
  | .functionDeclaration .. | .classDeclaration .. | .returnStatement .. | .ifStatement ..
  | .forStatement .. | .forInStatement .. | .forOfStatement .. | .whileStatement ..
  | .doWhileStatement .. | .throwStatement .. | .tryStatement .. | .switchStatement ..
  | .breakStatement | .continueStatement | .importDeclaration .. | .exportNamedDeclaration ..
  | .exportDefaultDeclaration .. | .exportAllDeclaration .. => true
  | _ => false

/-- What a pass made of a node. -/
inductive Outcome where
  | same
  | replaced (n : Node)
  | removed

namespace Outcome

/-- What stands in a list of parts after a pass. -/
def item? (before : Node) : Outcome → Option Node
  | same => some before
  | replaced n => some n
  | removed => none

/-- What stands in the place of a single part after a pass: a removed statement leaves an empty one
behind. -/
def part? (before : Node) : Outcome → Option Node
  | removed => if before.isStatement then some (mk before.loc .emptyStatement) else none
  | outcome => outcome.item? before

/-- Whether a pass left a node as it was. -/
def isSame : Outcome → Bool
  | same => true
  | _ => false

end Outcome

variable {m : Type → Type} [Monad m]

/-- Runs a pass on the parts of a node, in order. The node is the same if each of its parts is. -/
def descend (n : Node) (form : Form (Node × m Outcome)) : m Outcome := do
  let run (pick : Node → Outcome → Option Node) (part : Node × m Outcome) :
      StateT Bool m (Option Node) := do
    let outcome ← StateT.lift part.2
    modify (· || !outcome.isSame)
    return pick part.1 outcome
  let (rebuilt, changed) ← (form.editM (run Outcome.part?) (run Outcome.item?)).run false
  return if changed then .replaced (n.withForm rebuilt) else .same

/-- Rewrites a tree. The rule is given each node with the action that rewrites its parts, and
decides whether and when to run it. -/
def rewriteM (rule : Node → m Outcome → m Outcome) (n : Node) : m Outcome :=
  (n.fold fun n (form : Form (Node × m Outcome)) => (n, rule n (descend n form))).2

end ModuleLowering.Node
