import ModuleLowering.Proofs.Situating
import ModuleLowering.Syntax.Parse.Function

/-!
# Where functions and classes are built

One lemma for each rule of the grammar. A method that is built from a place on lies where that place
comes first.
-/

set_option autoImplicit false

namespace ModuleLowering

open Sited

/-! ## What the rules answer -/

section

variable {K K' : Region} {s : Option Position}

theorem Sited.InRegion.inOrder {xs : List (Shaped Node)} (h : InRegion K xs) :
    InRegion K (Parser.inOrder xs) := mapM h

instance : Sited Parser.Key :=
  ⟨fun K key => InRegion K key.node, fun h hK => Sited.mono h hK⟩

instance : Sited Parser.FunctionRest :=
  ⟨fun K rest => InRegion K rest.parameters ∧ InRegion K rest.body, fun h hK =>
    ⟨Sited.mono h.1 hK, Sited.mono h.2 hK⟩⟩

instance : Sited Parser.Method :=
  ⟨fun K method => InRegion K method.key ∧ InRegion K method.function, fun h hK =>
    ⟨Sited.mono h.1 hK, Sited.mono h.2 hK⟩⟩

instance : Sited Parser.ClassRest :=
  ⟨fun K rest => InRegion K rest.superclass ∧ InRegion K rest.body, fun h hK =>
    ⟨Sited.mono h.1 hK, Sited.mono h.2 hK⟩⟩

instance : Sited Operand :=
  ⟨fun K o => InRegion K o.node ∧ InRegion K o.parameters, fun h hK =>
    ⟨Sited.mono h.1 hK, Sited.mono h.2 hK⟩⟩

instance : Sited Construction :=
  ⟨fun K made => InRegion K made.node, fun h hK => Sited.mono h hK⟩

theorem Sited.InRegion.plain {x : Shaped Node} (h : InRegion K x) :
    InRegion K (Operand.plain x) := ⟨h, .none⟩

end

/-- The parsers for what lies deeper build in the region where their tokens are. A statement may
start with a terminator. -/
structure Deeper.Situates (k : Deeper) : Prop where
  assignment : ∀ {K every}, Parser.Situates K every true k.assignment (InRegion K)
  exponent : ∀ {K every}, Parser.Situates K every true k.exponent (InRegion K)
  unary : ∀ {K every}, Parser.Situates K every true k.unary (InRegion K)
  leftHandSide : ∀ {K every}, Parser.Situates K every true k.leftHandSide (InRegion K)
  construction : ∀ {K every}, Parser.Situates K every true k.construction (InRegion K)
  binding : ∀ {K every}, Parser.Situates K every true k.binding (InRegion K)
  statement : ∀ {K}, Parser.Situates K true true k.statement (InRegion K)

namespace Parser.Situates

variable {K : Region} {every : Bool} {s : Option Position}

/-! ## Names and literals -/

/-- A token alone is the place of a node without parts. -/
theorem inRegion_leaf {p : Position} {form : Form Node} (hp : K p) (hform : form.slots = []) :
    InRegion K (Node.mk (some p) form) :=
  Sited.mono (.node (Region.startsAt_since hp) (by rw [hform]; exact .nil)) fun _ hq => hq.1

theorem identifier : Situates K every true identifier (InRegion K) :=
  bind (takeIf rfl) fun _ => pure fun ht => inRegion_leaf ht rfl

theorem stringLiteral : Situates K every true stringLiteral (InRegion K) := by
  refine bind (takeIf rfl) fun t => pure fun ht => ?_
  unfold stringOf
  split
  · exact .ok (inRegion_leaf ht rfl)
  · exact .error

theorem numberLiteral : Situates K every true numberLiteral (InRegion K) := by
  refine bind (takeIf rfl) fun t => pure fun ht => ?_
  unfold numberOf
  split
  · exact .ok (inRegion_leaf ht rfl)
  · exact .error

section

variable {k : Deeper} (h : k.Situates)
include h

theorem key : Situates K every true (key k) (InRegion K) := by
  refine look fun t => ?_
  split
  · exact bind stringLiteral fun _ => pure fun hx => .map hx fun _ hn => hn
  · exact bind numberLiteral fun _ => pure fun hx => .map hx fun _ hn => hn
  · refine next (punctuator _) fun _ => (bind h.assignment fun _ => ?_).loose
    exact (next (punctuator _) fun _ => pure fun hx => .map hx fun _ hn => hn).loose
  · exact bind identifier fun _ => pure fun hn => .ok hn

/-! ## Parameters and bodies -/

theorem block : Situates K every true (block k) (InRegion K) := by
  refine place fun K s => next (punctuator _) fun _ => ?_
  refine bind (itemsUntil nofun h.statement) fun body => pure fun hbody hs => ?_
  exact .bind (.inOrder hbody) fun _ hbody => .ok (.node hs (.many hbody .nil))

theorem parameter : Situates K every true (parameter k) (InRegion K) := by
  refine place fun K s => ifTaken nofun (bind h.binding.loose fun target => ?_)
    (bind h.binding fun target => ?_)
  · refine pure fun htarget hs => ?_
    exact .bind htarget fun _ htarget => .ok (.node hs (.one (.some htarget) .nil))
  · refine ifTaken nofun (bind h.assignment.loose fun value => ?_) (pure fun htarget _ => htarget)
    refine pure fun hvalue htarget hs => .bind htarget fun _ htarget => .bind hvalue fun _ hvalue => ?_
    exact .ok (.node hs (.one (.some htarget) (.one (.some hvalue) .nil)))

theorem parameters : Situates K every true (parameters k) (InRegion K) :=
  next (punctuator _) fun _ => bind (items (parameter h)) fun _ => pure fun hxs => .inOrder hxs

theorem functionRest : Situates K every true (functionRest k) (InRegion K) := by
  refine bind (parameters h) fun params => bind (block h).loose fun body => ?_
  refine pure fun hbody hparams => .bind hparams fun _ hparams => .bind hbody fun _ hbody => ?_
  exact .ok ⟨hparams, hbody⟩

theorem functionExpression : Situates K every true (functionExpression k) (InRegion K) := by
  refine place fun K s => mark nofun fun isAsync => next (word _) fun _ => ?_
  refine mark nofun fun generator => look fun t => ?_
  dsimp only
  refine perhapsNot identifier fun name => (bind (functionRest h) fun rest => ?_).loose
  refine pure fun hrest hname hs => ?_
  refine .bind hrest fun rest hrest => .ok (.node hs ?_)
  exact .one hname (.many hrest.1 (.one (.some hrest.2) .nil))

theorem functionDeclaration (nameless : Bool) :
    Situates K every true (functionDeclaration k nameless) (InRegion K) := by
  refine place fun K s => mark nofun fun isAsync => next (take nofun) fun _ => ?_
  refine mark nofun fun generator => look fun t => ?_
  dsimp only
  refine perhapsNot identifier fun name => (bind (functionRest h) fun rest => ?_).loose
  refine pure fun hrest hname hs => ?_
  refine .bind hrest fun rest hrest => .ok (.node hs ?_)
  exact .one hname (.many hrest.1 (.one (.some hrest.2) .nil))

/-! ## Methods -/

omit h in
theorem methodMarks {β : Type} {opens : Bool} {S : β → Prop} {f : MethodMarks → Parser β}
    (hf : ∀ marks, Situates K every opens (f marks) S) :
    Situates K every opens (methodMarks >>= f) S := by
  unfold Parser.methodMarks
  rw [bind_assoc]
  refine lookFurther fun u => ?_
  dsimp only
  rw [bind_assoc]
  refine look fun t => ?_
  have hnone (marks : MethodMarks) : Situates K every opens (Pure.pure marks >>= f) S :=
    pureBind (hf marks)
  split
  · simp only [bind_assoc, pure_bind]
    exact past (word _) fun _ => mark nofun fun generator => hf _
  · rw [bind_assoc]
    exact past (punctuator _) fun _ => hnone _
  · split
    · rw [bind_assoc]
      exact past (word _) fun _ => hnone _
    · exact hnone _
  · split
    · rw [bind_assoc]
      exact past (word _) fun _ => hnone _
    · exact hnone _
  · exact hnone _

theorem methodRest (marks : MethodMarks) (key : Shaped Key) :
    Situates K every true (methodRest k s marks key)
      fun method => K.StartsAt s → InRegion K key → InRegion K method := by
  refine bind (functionRest h) fun rest => pure fun hrest hs hkey => ?_
  refine .bind hkey fun key hkey => .bind hrest fun rest hrest => .ok ⟨hkey, .node hs ?_⟩
  exact .one .none (.many hrest.1 (.one (.some hrest.2) .nil))

/-! ## Classes -/

omit h in
theorem inRegion_memberOf {method : Method} (hs : K.StartsAt s) (hmethod : InRegion K method)
    (isStatic : Bool) : InRegion K (memberOf s isStatic method) :=
  .node hs (.one (.some hmethod.1) (.one (.some hmethod.2) .nil))

theorem fieldRest (isStatic : Bool) (key : Shaped Key) :
    Situates K every false (fieldRest k s isStatic key) fun field => ∀ K' : Region,
      (∀ q, K q → K' q) → K'.StartsAt s → InRegion K key → InRegion K' field := by
  refine mark nofun fun _ => ?_
  dsimp only
  refine perhaps h.assignment fun value => next terminator.loose fun _ => ?_
  refine pure fun hvalue K' hK hs hkey => .bind (Sited.mono hkey hK) fun key hkey => ?_
  refine .bind (Sited.mono (InRegion.part hvalue) hK) fun value hvalue => ?_
  exact .ok (.node hs (.one (.some hkey) (.one hvalue .nil)))

theorem classMember : Situates K every false (classMember k) (InRegion K) := by
  refine ifTaken nofun (pure .none) (place fun K s => look fun t => lookFurther fun u => ?_).loose
  dsimp only
  refine ite (fun _ => past (word _) fun _ => pureBind ?_) fun _ => pureBind ?_
  all_goals
    refine placed fun s' => methodMarks fun marks => bind (key h) fun x => look fun u => ?_
    refine ite (fun _ => ?_) fun _ => ?_
    · refine (bind (methodRest h marks x) fun method => pure fun hmethod hx hK hs' hs => ?_).loose
      refine .some (.map (Sited.mono (hmethod hs' hx) hK) fun m hm => ?_)
      exact inRegion_memberOf hs hm _
    · refine bind (fieldRest h _ x) fun field => pure fun hfield hx hK hs' hs => ?_
      exact .some (hfield _ hK hs hx)

theorem heritage : Situates K every false (heritage k) (InRegion K) :=
  ifTaken nofun (bind h.leftHandSide.loose fun _ => pure fun hx => .some hx) (pure .none)

theorem classBody : Situates K every true (classBody k) (InRegion K) := by
  refine next (punctuator _) fun _ => bind (itemsUntil nofun (classMember h)) fun members => ?_
  refine pure fun hmembers => .inOrder fun x hx => ?_
  obtain ⟨member, hmember, rfl⟩ := List.mem_filterMap.1 hx
  exact hmembers _ hmember x rfl

theorem classRest : Situates K every false (classRest k) (InRegion K) := by
  refine bind (heritage h) fun superclass => bind (classBody h).loose fun body => ?_
  refine pure fun hbody hsuperclass => .bind hbody fun _ hbody => ?_
  exact .bind (.part hsuperclass) fun _ hsuperclass => .ok ⟨hsuperclass, hbody⟩

theorem classExpression : Situates K every true (classExpression k) (InRegion K) := by
  refine place fun K s => next (word _) fun _ => look fun t => ?_
  dsimp only
  refine perhaps identifier fun name => bind (classRest h) fun rest => ?_
  refine pure fun hrest hname hs => .bind hrest fun _ hrest => .ok (.node hs ?_)
  exact .one hname (.one hrest.1 (.many hrest.2 .nil))

theorem classDeclaration (nameless : Bool) :
    Situates K every true (classDeclaration k nameless) (InRegion K) := by
  refine place fun K s => next (take nofun) fun _ => look fun t => ?_
  dsimp only
  refine perhaps identifier fun name => bind (classRest h) fun rest => ?_
  refine pure fun hrest hname hs => .bind hrest fun _ hrest => .ok (.node hs ?_)
  exact .one hname (.one hrest.1 (.many hrest.2 .nil))

end

end Parser.Situates

end ModuleLowering
