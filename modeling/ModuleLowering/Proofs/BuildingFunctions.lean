import ModuleLowering.Proofs.Building

/-!
# What the rules for functions and classes build

Every rule answers with a tree that is well formed for its place, if those for what lies deeper do:
one lemma for each rule of the grammar.
-/

set_option autoImplicit false

namespace ModuleLowering

open Node (Fits)
open Shaped (Builds)

namespace Parser

/-- Answers with a node that may stand in a place of this kind. -/
abbrev GivesNode (p : Parser (Shaped Node)) (r : Role) : Prop := Gives p (Builds · (Fits r))

/-- A name of a property with the place that it may stand in. -/
def Key.Fits (key : Key) : Prop := key.node.Fits (.key key.computed)

/-- A function with a head and a body. -/
structure FunctionRest.Fits (rest : FunctionRest) : Prop where
  parameters : ∀ p ∈ rest.parameters, p.Fits .pattern
  body : rest.body.Fits .block

/-- What may stand before a method's name. -/
def IsMethodKind (kind : Text) : Prop := kind = "method" ∨ Print.isAccessor kind = true

structure Method.Fits (method : Method) : Prop where
  key : method.key.Fits
  function : method.function.Fits .method
  kind : IsMethodKind method.kind

structure ClassRest.Fits (rest : ClassRest) : Prop where
  superclass : ∀ e ∈ rest.superclass, e.Fits .expression
  body : ∀ m ∈ rest.body, m.Fits .classMember

end Parser

/-- An expression, with parameters if it stands for any. -/
structure Operand.Fits (operand : Operand) : Prop where
  node : Builds operand.node (Node.Fits .expression)
  parameters : ∀ params ∈ operand.parameters, Builds params fun ps => ∀ p ∈ ps, p.Fits .pattern

theorem Operand.Fits.plain {node : Shaped Node} (h : Builds node (Node.Fits .expression)) :
    (Operand.plain node).Fits := ⟨h, nofun⟩

/-- The parsers for what lies deeper build well-formed trees. -/
structure Deeper.Gives (k : Deeper) : Prop where
  assignment : Parser.GivesNode k.assignment .expression
  exponent : Parser.GivesNode k.exponent .expression
  unary : Parser.GivesNode k.unary .expression
  leftHandSide : Parser.GivesNode k.leftHandSide .expression
  construction : Parser.Gives k.construction fun made => Builds made.node (Fits .expression)
  binding : Parser.GivesNode k.binding .pattern
  statement : Parser.GivesNode k.statement .statement

namespace Parser.Gives

/-! ## Names and literals -/

theorem identifier : Gives identifier (Fits .name) := bind takeIf fun _ _ => pure (.name .named)

theorem builds_stringOf (t : Token) : Builds (stringOf t) (Fits .literal) := by
  unfold stringOf
  split
  · exact .pure .literal
  · exact .error

theorem builds_numberOf (t : Token) : Builds (numberOf t) (Fits .literal) := by
  unfold numberOf
  split
  · exact .pure .literal
  · exact .error

theorem stringLiteral : GivesNode stringLiteral .literal :=
  bind take fun t _ => pure (builds_stringOf t)

theorem numberLiteral : GivesNode numberLiteral .literal :=
  bind take fun t _ => pure (builds_numberOf t)

/-- Nodes that are built one after the other. -/
theorem builds_inOrder {nodes : List (Shaped Node)} {r : Role}
    (h : ∀ s ∈ nodes, Builds s (Fits r)) : Builds (inOrder nodes) fun ns => ∀ n ∈ ns, n.Fits r :=
  (Builds.mapM h).mono fun _ hns => hns.2

/-- A part that is built if it is there. -/
theorem builds_part {s? : Option (Shaped Node)} {r : Role} (h : ∀ s ∈ s?, Builds s (Fits r)) :
    Builds (s?.mapM id) fun n? => n?.isSome = s?.isSome ∧ ∀ n ∈ n?, n.Fits r :=
  Builds.optionMapM h

section

variable {k : Deeper} (h : k.Gives)
include h

theorem key : Gives (key k) (Builds · Key.Fits) := by
  refine bind look fun t _ => ?_
  split
  · exact bind stringLiteral fun s hs => pure (hs.map fun _ hn => .literalKey hn)
  · exact bind numberLiteral fun s hs => pure (hs.map fun _ hn => .literalKey hn)
  · refine bind punctuator fun _ _ => bind h.assignment fun s hs => bind punctuator fun _ _ => ?_
    exact pure (hs.map fun _ hn => .computedKey hn)
  · exact bind identifier fun n hn => pure (.pure (.nameKey hn))

/-- Whether a name comes next is asked before the name of a property is read. -/
theorem lookKey {β : Type} {S : β → Prop} {f : Option Terminal → Shaped Key → Parser β}
    (hf : ∀ t name, Builds name Key.Fits →
      ((t.map Terminal.isName).getD false = true →
        Builds name fun key => key.node.Fits .name) → Gives (f t name) S) :
    Gives (Parser.look >>= fun t => Parser.key k >>= f t) S where
  run {ts b rest} hts hp := by
    obtain ⟨t, mid, ht, hp⟩ := run_bind_ok.1 hp
    cases ht
    obtain ⟨name, mid, hname, hp⟩ := run_bind_ok.1 hp
    obtain ⟨hkey, hmid⟩ := (key h).run hts hname
    refine (hf _ name hkey fun hisName => ?_).run hmid hp
    obtain ⟨t, ts', ht, hname⟩ := run_bind_ok.1 hname
    cases ht
    generalize (ts.head?.map Token.terminal) = t at hisName hname
    split at hname
    · cases hisName
    · cases hisName
    · cases hisName
    · obtain ⟨n, mid, hn, hname⟩ := run_bind_ok.1 hname
      obtain ⟨rfl, -⟩ := run_pure_ok.1 hname
      exact .pure (identifier.run hts hn).1

/-! ## Parameters and bodies -/

theorem block : GivesNode (block k) .block :=
  bind place fun _ _ => bind punctuator fun _ _ => bind (itemsUntil h.statement) fun _ hbody =>
    pure ((builds_inOrder hbody).bind fun _ hbody => .pure (.block hbody))

theorem parameter : GivesNode (parameter k) .pattern := by
  refine bind place fun _ _ => ifTaken ?_ (bind h.binding fun target htarget => ifTaken ?_ ?_)
  · exact bind h.binding fun s hs => pure (hs.bind fun _ hn => .pure (.restElement hn))
  · refine bind h.assignment fun value hvalue => pure (htarget.bind fun _ htarget => ?_)
    exact hvalue.bind fun _ hvalue => .pure (.assignmentPattern htarget hvalue)
  · exact pure htarget

theorem parameters :
    Gives (parameters k) (Builds · fun params => ∀ p ∈ params, p.Fits .pattern) :=
  bind punctuator fun _ _ => bind (items (parameter h)) fun _ hparams =>
    pure (builds_inOrder hparams)

theorem functionRest : Gives (functionRest k) (Builds · FunctionRest.Fits) := by
  refine bind (parameters h) fun params hparams => bind (block h) fun body hbody => pure ?_
  exact hparams.bind fun _ hparams => hbody.bind fun _ hbody => .pure ⟨hparams, hbody⟩

theorem functionExpression : GivesNode (functionExpression k) .expression := by
  refine bind place fun _ _ => bind taken fun _ _ => bind word fun _ _ => bind taken fun _ _ => ?_
  refine bind look fun _ _ => ?_
  dsimp only
  refine bindIte (Q := fun name => ∀ x ∈ name, x.Fits .name) (fun _ => pure nofun)
    (fun _ => identifier.map fun _ => by simp) fun name hname => ?_
  refine bind (functionRest h) fun rest hrest => pure (hrest.bind fun rest hrest => ?_)
  exact .pure (.functionExpression hname hrest.parameters hrest.body)

theorem functionDeclaration (nameless : Bool) :
    GivesNode (functionDeclaration k nameless) (.definition nameless) := by
  refine bind place fun _ _ => bind taken fun _ _ => bind take.discard fun _ _ => ?_
  refine bind taken fun _ _ => bind look fun _ _ => ?_
  dsimp only
  refine bindIte (Q := fun name =>
      (nameless = false → name.isSome = true) ∧ ∀ x ∈ name, x.Fits .name)
    (fun hnameless => pure ⟨by simp_all, nofun⟩)
    (fun _ => identifier.map fun _ => by simp) fun name hname => ?_
  refine bind (functionRest h) fun rest hrest => pure (hrest.bind fun rest hrest => ?_)
  exact .pure (.functionDefinition hname.1 hname.2 hrest.parameters hrest.body)

/-! ## Methods -/

omit h in
theorem methodMarks : Gives methodMarks fun marks => IsMethodKind marks.kind := by
  refine bind lookFurther fun _ _ => bind look fun t _ => ?_
  split
  · exact bind word fun _ _ => bind taken fun _ _ => pure (.inl rfl)
  · exact bind punctuator fun _ _ => pure (.inl rfl)
  · exact ite (fun _ => bind word fun _ _ => pure (.inr rfl)) fun _ => pure (.inl rfl)
  · exact ite (fun _ => bind word fun _ _ => pure (.inr rfl)) fun _ => pure (.inl rfl)
  · exact pure (.inl rfl)

theorem methodRest {start : Option Position} {marks : MethodMarks} {key : Shaped Key}
    (hmarks : IsMethodKind marks.kind) (hkey : Builds key Key.Fits) :
    Gives (methodRest k start marks key) (Builds · Method.Fits) := by
  refine bind (functionRest h) fun rest hrest => pure (hkey.bind fun key hkey => ?_)
  exact hrest.bind fun rest hrest => .pure ⟨hkey, .method hrest.parameters hrest.body, hmarks⟩

/-! ## Classes -/

omit h in
theorem fits_memberOf (start : Option Position) (isStatic : Bool) {method : Method}
    (hmethod : method.Fits) : (memberOf start isStatic method).Fits .classMember :=
  .methodDefinition hmethod.key hmethod.function

theorem fieldRest {start : Option Position} {isStatic : Bool} {key : Shaped Key}
    (hkey : Builds key Key.Fits) : GivesNode (fieldRest k start isStatic key) .classMember := by
  refine bind taken fun _ _ => ?_
  dsimp only
  refine bindIte (Q := fun value => ∀ s ∈ value, Builds s (Fits .expression))
    (fun _ => h.assignment.map fun _ => by simp) (fun _ => pure nofun) fun value hvalue => ?_
  refine bind terminator fun _ _ => pure (hkey.bind fun key hkey => ?_)
  exact (builds_part hvalue).bind fun _ hvalue => .pure (.propertyDefinition hkey hvalue.2)

theorem classMember : Gives (classMember k) fun member =>
    ∀ s ∈ member, Builds s (Fits .classMember) := by
  refine ifTaken (pure nofun) (bind place fun start _ => bind look fun _ _ => ?_)
  refine bind lookFurther fun _ _ => ?_
  dsimp only
  have hmark (isStatic : Bool) : Gives (Pure.pure isStatic : Parser Bool) fun _ => True :=
    pure trivial
  refine ite (fun _ => bind word fun _ _ => bind (hmark true) fun isStatic _ => ?_)
    fun _ => bind (hmark false) fun isStatic _ => ?_
  all_goals
    refine bind place fun _ _ => bind methodMarks fun marks hmarks => ?_
    refine bind (key h) fun name hname => bind look fun _ _ => ite (fun _ => ?_) fun _ => ?_
    · refine bind (methodRest h hmarks hname) fun method hmethod => pure ?_
      rintro s ⟨⟩
      exact hmethod.map fun _ hmethod => fits_memberOf _ _ hmethod
    · refine bind (fieldRest h hname) fun field hfield => pure ?_
      rintro s ⟨⟩
      exact hfield

theorem heritage : Gives (heritage k) fun superclass =>
    ∀ s ∈ superclass, Builds s (Fits .expression) := by
  refine ifTaken (bind h.leftHandSide fun superclass hsuperclass => pure ?_) (pure nofun)
  rintro s ⟨⟩
  exact hsuperclass

theorem classBody : Gives (classBody k) (Builds · fun body => ∀ m ∈ body, m.Fits .classMember) := by
  refine bind punctuator fun _ _ => bind (itemsUntil (classMember h)) fun members hmembers => ?_
  refine pure (builds_inOrder fun s hs => ?_)
  obtain ⟨member, hmember, hs⟩ := List.mem_filterMap.1 hs
  exact hmembers member hmember s hs

theorem classRest : Gives (classRest k) (Builds · ClassRest.Fits) := by
  refine bind (heritage h) fun superclass hsuperclass => ?_
  refine bind (classBody h) fun members hmembers => ?_
  refine pure (hmembers.bind fun members hmembers => ?_)
  exact (builds_part hsuperclass).bind fun _ hsuperclass => .pure ⟨hsuperclass.2, hmembers⟩

theorem classExpression : GivesNode (classExpression k) .expression := by
  refine bind place fun _ _ => bind word fun _ _ => bind look fun _ _ => ?_
  dsimp only
  refine bindIte (Q := fun name => ∀ x ∈ name, x.Fits .name)
    (fun _ => identifier.map fun _ => by simp) (fun _ => pure nofun) fun name hname => ?_
  refine bind (classRest h) fun rest hrest => pure (hrest.bind fun rest hrest => ?_)
  exact .pure (.classExpression hname hrest.superclass hrest.body)

theorem classDeclaration (nameless : Bool) :
    GivesNode (classDeclaration k nameless) (.definition nameless) := by
  refine bind place fun _ _ => bind take.discard fun _ _ => bind look fun _ _ => ?_
  dsimp only
  refine bindIte (Q := fun name =>
      (nameless = false → name.isSome = true) ∧ ∀ x ∈ name, x.Fits .name)
    (fun _ => identifier.map fun _ => by simp) (fun hnameless => pure ⟨by simp_all, nofun⟩)
    fun name hname => ?_
  refine bind (classRest h) fun rest hrest => pure (hrest.bind fun rest hrest => ?_)
  exact .pure (.classDefinition hname.1 hname.2 hrest.superclass hrest.body)

end

end Parser.Gives

end ModuleLowering
