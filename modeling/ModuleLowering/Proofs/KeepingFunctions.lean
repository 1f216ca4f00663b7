import ModuleLowering.Proofs.Keeping

set_option autoImplicit false

namespace ModuleLowering

open Terminators (Opens opens_announce opens_of_unannounced behind_after behind_after_closer
  mid_announce)

/-- The parsers for what lies deeper keep the frame that they start in. Where a body is announced
they may not read a brace of their own. -/
structure Deeper.Keeps (k : Deeper) : Prop where
  assignment : ∀ {f : Frame}, f.Unannounced →
    Parser.Keeps (·.In f) k.assignment fun _ s => s.Mid f
  exponent : ∀ {f : Frame}, f.Sound → Parser.Keeps (·.In f) k.exponent fun _ s => s.Mid f
  unary : ∀ {f : Frame}, f.Sound → Parser.Keeps (·.In f) k.unary fun _ s => s.Mid f
  leftHandSide : ∀ {f : Frame}, f.Sound → Parser.Keeps (·.In f) k.leftHandSide fun _ s => s.Mid f
  construction : ∀ {f : Frame}, f.Sound → Parser.Keeps (·.In f) k.construction fun _ s => s.Mid f
  binding : ∀ {f : Frame}, f.Sound → Parser.Keeps (·.In f) k.binding fun _ s => s.Mid f
  statement : ∀ {f : Frame}, f.Unannounced →
    Parser.Keeps (·.Calm f) k.statement fun _ s => s.Done f

namespace Parser.Keeps

/-! ## Names and literals -/

theorem isName_plain (t : Terminal) (ht : t.isName = true) :
    Terminators.isPlain t = true ∧ Terminators.divides t = false ∧ t ≠ .terminator := by
  cases t
  case name => exact ⟨rfl, rfl, nofun⟩
  case word w => cases w <;> first | exact ⟨rfl, rfl, nofun⟩ | cases ht
  all_goals cases ht

variable {g : Frame}

theorem identifier : Keeps (·.In g) identifier fun _ s => s.Mid g :=
  bind (plain isName_plain) fun _ => pure fun _ hs => hs

theorem token {t : Terminal} (ht : Terminators.isPlain t = true)
    (hdivides : Terminators.divides t = false) (hterminator : t ≠ .terminator) :
    Keeps (·.In g) (Parser.take t) fun _ s => s.Mid g :=
  plain fun u hu => by
    rw [of_decide_eq_true hu]
    exact ⟨ht, hdivides, hterminator⟩

theorem stringLiteral : Keeps (·.In g) stringLiteral fun _ s => s.Mid g :=
  bind (token rfl rfl nofun) fun _ => pure fun _ hs => hs

theorem numberLiteral : Keeps (·.In g) numberLiteral fun _ s => s.Mid g :=
  bind (token rfl rfl nofun) fun _ => pure fun _ hs => hs

variable {f : Frame} {k : Deeper} (h : k.Keeps)
include h

theorem key (hg : g.Unannounced) : Keeps (·.In g) (key k) fun _ s => s.Mid g := by
  refine bind look fun t => ?_
  split
  · exact bind stringLiteral fun _ => pure fun _ hs => hs
  · exact bind numberLiteral fun _ => pure fun _ hs => hs
  · refine openBracket (next (h.assignment (hg.push _)) fun _ => bind (close rfl) fun _ => ?_)
    exact pure fun _ hs => hs.mid nofun
  · exact bind identifier fun _ => pure fun _ hs => hs

/-! ## Parameters and bodies -/

/-- Where no `do` waits, statements stand one after the other. -/
theorem statements (hg : g.Unannounced) (hquiet : g.Quiet) :
    Keeps (·.In g) k.statement fun _ s => s.In g :=
  (h.statement hg).weaken (fun _ hs => hs.calm hquiet) fun _ _ hs => hs.toIn

/-- A brace opens the block, so what is known of its scope is known behind it. -/
theorem block {P : Terminators → Prop} {C : Scope → Prop}
    (hopens : Opens P .leftBrace .rightBrace g C) (hg : g.Sound) :
    Keeps P (block k) fun _ s => s.Past g .rightBrace C := by
  refine bind place fun _ => openBrace hopens fun scope hC hscope => ?_
  refine bind (itemsUntil hscope hC (statements h (hg.push scope) (hg.quiet_push scope))) fun _ => ?_
  exact pure fun _ hs => hs

theorem parameter (hg : g.Unannounced) : Keeps (·.In g) (parameter k) fun _ s => s.Mid g := by
  refine bind place fun _ => ifMarked rfl rfl
    (bind (h.binding hg.toSound) fun _ => pure fun _ hs => hs)
    (bind (h.binding hg.toSound) fun _ => ?_)
  exact ifMarked rfl rfl (bind (h.assignment hg) fun _ => pure fun _ hs => hs)
    (pure fun _ hs => hs)

theorem parameters (hg : g.Sound) :
    Keeps (·.In g) (parameters k) fun _ s => s.Behind g (.punctuator .rightParen) := by
  refine openParen fun scope hscope => ?_
  refine bind (items hscope ((parameter h (hg.push scope)).post fun _ _ hs => hs.toIn)) fun _ => ?_
  exact pure fun _ hs => hs

theorem functionRest {C : Scope → Prop} (hopens : Opens (·.In f) .leftBrace .rightBrace g C)
    (hf : f.Sound) (hg : g.Sound) :
    Keeps (·.In f) (functionRest k) fun _ s => s.Past g .rightBrace C :=
  next (parameters h hf) fun _ => bind (block h hopens hg) fun _ => pure fun _ hs => hs

theorem functionExpression (hg : g.Sound) :
    Keeps (·.In g) (functionExpression k) fun _ s => s.Behind g (.punctuator .rightBrace) := by
  refine bind place fun _ => bind (mark rfl rfl) fun _ => ?_
  refine bind (announced (.word .kwFunction) .kwFunction .expressionBlock rfl fun _ => rfl) fun _ => ?_
  refine bind (mark rfl rfl) fun _ => ?_
  refine bind look fun _ => ?_
  dsimp only
  refine bindIte (fun _ => pure fun _ => id) (fun _ => identifier.map fun _ _ hs => hs.toIn) ?_
  intro name
  exact bind (functionRest h (opens_announce rfl) (hg.announce _) hg) fun _ =>
    pure fun _ hs => hs.toBehind

theorem functionDeclaration (hg : g.Sound) (nameless : Bool) :
    Keeps (·.In g) (functionDeclaration k nameless)
      fun _ s => s.Past g .rightBrace (· = .block) := by
  refine bind place fun _ => bind (mark rfl rfl) fun _ => ?_
  refine bind (announced .functionDeclaration .kwFunction .block rfl fun _ => rfl) fun _ => ?_
  refine bind (mark rfl rfl) fun _ => ?_
  refine bind look fun _ => ?_
  dsimp only
  refine bindIte (fun _ => pure fun _ => id) (fun _ => identifier.map fun _ _ hs => hs.toIn) ?_
  intro name
  exact bind (functionRest h (opens_announce rfl) (hg.announce _) hg) fun _ => pure fun _ hs => hs

/-! ## Methods -/

omit h in
theorem methodMarks : Keeps (·.In g) methodMarks fun _ s => s.In g := by
  refine bind lookFurther fun _ => bind look fun t => ?_
  split
  · refine next (word rfl) fun _ => ?_
    exact bind (mark rfl rfl) fun _ =>
      pure fun _ => id
  · exact bind (punctuator rfl rfl) fun _ => pure fun _ hs => hs.toIn
  · exact ite (fun _ => bind (word rfl) fun _ => pure fun _ hs => hs.toIn) fun _ => pure fun _ => id
  · exact ite (fun _ => bind (word rfl) fun _ => pure fun _ hs => hs.toIn) fun _ => pure fun _ => id
  · exact pure fun _ => id

theorem methodRest (hg : g.Unannounced) (s : Option Position) (marks : MethodMarks)
    (x : Shaped Key) :
    Keeps (·.In g) (methodRest k s marks x) fun _ s => s.Behind g (.punctuator .rightBrace) :=
  bind (functionRest h (opens_of_unannounced hg) hg.toSound hg.toSound) fun _ =>
    pure fun _ hs => hs.toBehind

/-! ## Classes -/

theorem fieldRest (hg : g.Unannounced) (s : Option Position) (isStatic : Bool) (x : Shaped Key) :
    Keeps (·.In g) (fieldRest k s isStatic x) fun _ s => s.In g := by
  refine bind (mark rfl rfl) fun _ => ?_
  dsimp only
  refine bindIte (fun _ => (h.assignment hg).map fun _ _ hs => hs.toIn) (fun _ => pure fun _ => id) ?_
  exact fun _ => bind terminator fun _ => pure fun _ hs => hs.toIn

theorem classMember (hg : g.Unannounced) : Keeps (·.In g) (classMember k) fun _ s => s.In g := by
  refine ifMarked rfl rfl (pure fun _ => id) ?_
  refine bind place fun s => bind look fun t => bind lookFurther fun next => ?_
  dsimp only
  refine ite (fun _ => Keeps.next (word rfl) fun _ => pureBind ?_) fun _ => pureBind ?_
  all_goals
    refine bind place fun s' => bind methodMarks fun marks => Keeps.next (key h hg) fun x => ?_
    refine bind look fun t => ite (fun _ => ?_) fun _ => ?_
    · exact bind (methodRest h hg s' marks x) fun _ => pure fun _ hs => hs.toIn
    · exact bind (fieldRest h hg s _ x) fun _ => pure fun _ => id

theorem heritage (hg : g.Sound) : Keeps (·.In g) (heritage k) fun _ s => s.In g :=
  ifMarked rfl rfl (bind (h.leftHandSide hg) fun _ => pure fun _ hs => hs.toIn) (pure fun _ => id)

theorem classBody {C : Scope → Prop} (hopens : Opens (·.In f) .leftBrace .rightBrace g C)
    (hg : g.Sound) : Keeps (·.In f) (classBody k) fun _ s => s.Past g .rightBrace C := by
  refine openBrace hopens fun scope hC hscope => ?_
  exact bind (itemsUntil hscope hC (classMember h (hg.push scope))) fun _ => pure fun _ => id

theorem classRest {C : Scope → Prop} (hopens : Opens (·.In f) .leftBrace .rightBrace g C)
    (hf : f.Sound) (hg : g.Sound) :
    Keeps (·.In f) (classRest k) fun _ s => s.Past g .rightBrace C :=
  bind (heritage h hf) fun _ => bind (classBody h hopens hg) fun _ => pure fun _ => id

theorem classExpression (hg : g.Sound) :
    Keeps (·.In g) (classExpression k) fun _ s => s.Behind g (.punctuator .rightBrace) := by
  refine bind place fun _ => ?_
  refine bind (announced (.word .kwClass) .kwClass .classExpressionBody rfl fun _ => rfl) fun _ => ?_
  refine bind look fun _ => ?_
  dsimp only
  refine bindIte (fun _ => identifier.map fun _ _ hs => hs.toIn) (fun _ => pure fun _ => id) ?_
  intro name
  exact bind (classRest h (opens_announce rfl) (hg.announce _) hg) fun _ =>
    pure fun _ hs => hs.toBehind

theorem classDeclaration (hg : g.Sound) (nameless : Bool) :
    Keeps (·.In g) (classDeclaration k nameless)
      fun _ s => s.Past g .rightBrace (· = .classBody) := by
  refine bind place fun _ => ?_
  refine bind (announced .classDeclaration .kwClass .classBody rfl fun _ => rfl) fun _ => ?_
  refine bind look fun _ => ?_
  dsimp only
  refine bindIte (fun _ => identifier.map fun _ _ hs => hs.toIn) (fun _ => pure fun _ => id) ?_
  intro name
  exact bind (classRest h (opens_announce rfl) (hg.announce _) hg) fun _ => pure fun _ => id

end Parser.Keeps

end ModuleLowering
