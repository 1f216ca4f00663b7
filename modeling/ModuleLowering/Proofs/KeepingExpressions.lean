import ModuleLowering.Proofs.KeepingFunctions

set_option autoImplicit false

namespace ModuleLowering.Parser.Keeps

open Terminators (opens_of_unannounced behind_after behind_after_closer behind_after_colon isPlain
  divides)

variable {g : Frame} {k : Deeper} (h : k.Keeps)
include h

/-! ## Arrays and objects -/

theorem arrayElement (hg : g.Unannounced) : Keeps (·.In g) (arrayElement k) fun _ s => s.Mid g :=
  bind place fun _ => ifMarked rfl rfl (bind (h.assignment hg) fun _ => pure fun _ => id)
    (h.assignment hg)

theorem arrayElements (hg : g.Sound) (n : Nat) :
    Keeps (·.In (g.push .bracket)) (arrayElements k n)
      fun _ s => s.Behind g (.punctuator .rightBracket) := by
  induction n with
  | zero => exact fail
  | succ n ih =>
    refine ifClosed rfl (pure fun _ => id) (ifMarked rfl rfl (bind ih fun _ => pure fun _ => id) ?_)
    refine next (arrayElement h (hg.push _)) fun _ => ?_
    refine ifMarked rfl rfl (bind ih fun _ => pure fun _ => id) ?_
    exact bind (close rfl) fun _ => pure fun _ => id

theorem array (hg : g.Sound) :
    Keeps (·.In g) (array k) fun _ s => s.Behind g (.punctuator .rightBracket) :=
  bind place fun _ => openBracket <| bind left fun n => bind (arrayElements h hg (n + 1)) fun _ =>
    pure fun _ => id

theorem namedProperty (hg : g.Unannounced) (s : Option Position) (isName : Bool) (x : Shaped Key) :
    Keeps (·.Mid g) (namedProperty k s isName x) fun _ s => s.Mid g := by
  refine ifColon (bind (h.assignment hg) fun _ => pure fun _ => id) (bind look fun t => ?_)
  refine ite (fun _ => ?_) fun _ => ?_
  · exact bind ((methodRest h hg s _ x).pre fun _ hs => hs.toIn) fun _ => pure fun _ hs => hs.mid nofun
  dsimp only
  refine ite (fun _ => failBind) fun _ => ?_
  exact ifMarked rfl rfl (bind (h.assignment hg) fun _ => pure fun _ => id) (pure fun _ => id)

theorem objectProperty (hg : g.Unannounced) :
    Keeps (·.In g) (objectProperty k) fun _ s => s.Mid g := by
  refine bind place fun s => ifMarked rfl rfl (bind (h.assignment hg) fun _ => pure fun _ => id) ?_
  refine bind methodMarks fun marks => bind look fun t => bind (key h hg) fun x => ?_
  refine ite (fun _ => ?_) fun _ => namedProperty h hg s _ x
  exact bind ((methodRest h hg s marks x).pre fun _ hs => hs.toIn) fun _ =>
    pure fun _ hs => hs.mid nofun

theorem object (hg : g.Sound) :
    Keeps (·.In g) (object k) fun _ s => s.Behind g (.punctuator .rightBrace) := by
  refine bind place fun _ => openObject ?_
  exact bind (items rfl ((objectProperty h (hg.push _)).post fun _ _ hs => hs.toIn)) fun _ =>
    pure fun _ => id

theorem binding (hg : g.Sound) : Keeps (·.In g) (binding k) fun _ s => s.Mid g := by
  refine bind look fun t => ?_
  split
  · exact bind (array h hg) fun _ => pure fun _ hs => hs.mid nofun
  · exact bind (object h hg) fun _ => pure fun _ hs => hs.mid nofun
  · exact bind identifier fun _ => pure fun _ => id

/-! ## Primary expressions -/

omit h in
theorem commaExpression {p : Parser (Shaped Node)} (hp : Keeps (·.In g) p fun _ s => s.Mid g) :
    Keeps (·.In g) (commaExpression p) fun _ s => s.Mid g := by
  refine bind place fun _ => bind (parts hp) fun xs => ?_
  cases xs with
  | nil => exact fail
  | cons => exact pure fun _ => id

theorem restParameter (hg : g.Sound) : Keeps (·.In g) (restParameter k) fun _ s => s.Mid g :=
  bind (h.binding hg) fun _ => pure fun _ => id

theorem moreInParentheses (hg : g.Sound) {scope : Scope} (hscope : scope.closer = .rightParen)
    (n : Nat) :
    Keeps (·.In (g.push scope)) (moreInParentheses k n)
      fun _ s => s.Behind g (.punctuator .rightParen) := by
  induction n with
  | zero => exact fail
  | succ n ih =>
    refine ifClosed hscope (pure fun _ => id) (next (punctuator rfl rfl) fun _ => ?_)
    refine ifMarked rfl rfl ?_ ?_
    · refine next (restParameter h (hg.push scope).toSound) fun _ => ?_
      exact bind (close hscope) fun _ => pure fun _ => id
    · exact next (h.assignment (hg.push scope)) fun _ => bind ih fun _ => pure fun _ => id

theorem parenthesized (hg : g.Sound) :
    Keeps (·.In g) (parenthesized k) fun _ s => s.Behind g (.punctuator .rightParen) := by
  refine bind place fun _ => openParen fun scope hscope => ifClosed hscope (pure fun _ => id) ?_
  refine ifMarked rfl rfl ?_ ?_
  · refine next (restParameter h (hg.push scope).toSound) fun _ => ?_
    exact bind (close hscope) fun _ => pure fun _ => id
  · refine bind place fun _ => next (h.assignment (hg.push scope)) fun _ => bind left fun n => ?_
    refine bind (moreInParentheses h hg hscope (n + 1)) fun found => ?_
    dsimp only
    split <;> exact pure fun _ => id

omit h in
theorem memberName : Keeps (·.In g) memberName fun _ s => s.Mid g :=
  bind (token rfl rfl nofun) fun _ => pure fun _ => id

omit h in
theorem metaProperty (s : Option Position) (object expected : Text) :
    Keeps (·.In g) (metaProperty s object expected) fun _ s => s.Mid g :=
  next (punctuator rfl rfl) fun _ => bind memberName fun _ => pure fun _ => id

omit h in
theorem wordLiteral {w : Word} (hw : isPlain (.word w) = true) (value : Value) :
    Keeps (·.In g) (wordLiteral w value) fun _ s => s.Mid g :=
  bind place fun _ => bind (word hw) fun _ => pure fun _ hs => hs.mid nofun

theorem primary (hg : g.Sound) : Keeps (·.In g) (primary k) fun _ s => s.Mid g := by
  refine bind place fun s => bind look fun t => ?_
  split
  · exact bind numberLiteral fun _ => pure fun _ => id
  · exact bind stringLiteral fun _ => pure fun _ => id
  · exact bind (token rfl rfl nofun) fun _ => pure fun _ => id
  · exact bind (token rfl rfl nofun) fun _ => pure fun _ => id
  · exact bind (object h hg) fun _ => pure fun _ hs => hs.mid nofun
  · exact bind (array h hg) fun _ => pure fun _ hs => hs.mid nofun
  · exact (parenthesized h hg).post fun _ _ hs => hs.mid nofun
  · exact wordLiteral rfl _
  · exact wordLiteral rfl _
  · exact wordLiteral rfl _
  · exact bind (word rfl) fun _ => pure fun _ hs => hs.mid nofun
  · exact bind (word rfl) fun _ => pure fun _ hs => hs.mid nofun
  · exact next (word rfl) fun _ => bind (metaProperty s _ _) fun _ => pure fun _ => id
  · exact bind (functionExpression h hg) fun _ => pure fun _ hs => hs.mid nofun
  · exact bind (functionExpression h hg) fun _ => pure fun _ hs => hs.mid nofun
  · exact bind (classExpression h hg) fun _ => pure fun _ hs => hs.mid nofun
  · exact bind identifier fun _ => pure fun _ => id

/-! ## Members and calls -/

theorem arguments (hg : g.Sound) :
    Keeps (·.In g) (arguments k) fun _ s => s.Behind g (.punctuator .rightParen) := by
  refine openParen fun scope hscope => ?_
  exact bind (items hscope ((arrayElement h (hg.push scope)).post fun _ _ hs => hs.toIn)) fun _ =>
    pure fun _ => id

section

variable (hg : g.Sound) (s : Option Position) (x : Shaped Node)

omit h in
theorem memberOfName (isOptional : Bool) :
    Keeps (·.In g) (memberOfName s isOptional x) fun _ s => s.Mid g :=
  bind memberName fun _ => pure fun _ => id

include hg in
theorem memberOfIndex (isOptional : Bool) :
    Keeps (·.In g) (memberOfIndex k s isOptional x) fun _ s => s.Mid g := by
  refine openBracket (next (commaExpression (h.assignment (hg.push _))) fun _ => ?_)
  exact bind (close rfl) fun _ => pure fun _ hs => hs.mid nofun

omit h in
theorem tagged : Keeps (·.In g) (tagged s x) fun _ s => s.Mid g :=
  bind (token rfl rfl nofun) fun _ => pure fun _ => id

include hg in
theorem call (isOptional : Bool) : Keeps (·.In g) (call k s isOptional x) fun _ s => s.Mid g :=
  bind (arguments h hg) fun _ => pure fun _ hs => hs.mid nofun

include hg in
theorem optionalAccess : Keeps (·.In g) (optionalAccess k s x) fun _ s => s.Mid g := by
  refine next (punctuator rfl rfl) fun _ => bind look fun t => ?_
  split
  · exact memberOfIndex h hg s x true
  · exact call h hg s x true
  · exact memberOfName s x true

include hg in
theorem access? (calls : Bool) : Keeps (·.Mid g) (access? k s calls x) fun _ s => s.Mid g := by
  refine bind look fun t => ?_
  have hin : ∀ {p : Parser (Shaped Node)}, Keeps (·.In g) p (fun _ s => s.Mid g) →
      Keeps (·.Mid g) (do return some (← p)) fun _ s => s.Mid g := fun hp =>
    bind (hp.pre fun _ hs => hs.toIn) fun _ => pure fun _ => id
  split
  · refine bind ((punctuator rfl rfl).pre fun _ hs => hs.toIn) fun _ => ?_
    exact bind ((memberOfName s x false).pre fun _ hs => hs.toIn) fun _ => pure fun _ => id
  · exact hin (memberOfIndex h hg s x false)
  · exact hin (tagged s x)
  · exact ite (fun _ => hin (call h hg s x false)) fun _ => pure fun _ => id
  · exact ite (fun _ => hin (optionalAccess h hg s x)) fun _ => pure fun _ => id
  · exact pure fun _ => id

end

theorem accesses (hg : g.Sound) (s : Option Position) (calls : Bool) (n : Nat) (x : Shaped Node) :
    Keeps (·.Mid g) (accesses k s calls n x) fun _ s => s.Mid g := by
  induction n generalizing x with
  | zero => exact fail
  | succ n ih =>
    refine bind (access? h hg s x calls) fun found => ?_
    cases found with
    | none => exact pure fun _ => id
    | some longer => exact ih longer

theorem constructed (hg : g.Sound) : Keeps (·.In g) (constructed k) fun _ s => s.Mid g := by
  refine bind place fun s => bind look fun t => ?_
  dsimp only
  have hrest : ∀ c : Construction, Keeps (·.Mid g)
      (if c.extensible = true then do
        let more ← Parser.accesses k s false ((← Parser.left) + 1) c.node
        return (⟨more, true⟩ : Construction)
      else return c) fun _ s => s.Mid g := fun c =>
    ite (fun _ => bind left fun n => bind (accesses h hg s false (n + 1) c.node) fun _ =>
      pure fun _ => id) fun _ => pure fun _ => id
  refine ite (fun _ => bind (h.construction hg) hrest) fun _ => ?_
  exact bind (primary h hg) fun o => pureBind (hrest ⟨o.node, true⟩)

theorem construction (hg : g.Sound) : Keeps (·.In g) (construction k) fun _ s => s.Mid g := by
  refine bind place fun s => next (word rfl) fun _ => bind look fun t => ite (fun _ => ?_) fun _ => ?_
  · exact bind (metaProperty s _ _) fun _ => pure fun _ => id
  refine bind (constructed h hg) fun c => bind look fun t => ite (fun _ => ?_) fun _ => pure fun _ => id
  exact bind ((arguments h hg).pre fun _ hs => hs.toIn) fun _ => pure fun _ hs => hs.mid nofun

theorem importCall (hg : g.Sound) (s : Option Position) :
    Keeps (·.In g) (importCall k s) fun _ s => s.Mid g := by
  refine next (g := g) (word rfl) fun _ => openParen fun scope hscope => ?_
  refine next (h.assignment (hg.push scope)) fun _ => bind (close hscope) fun _ => ?_
  exact pure fun _ hs => hs.mid nofun

theorem leading (hg : g.Sound) (s : Option Position) :
    Keeps (·.In g) (leading k s) fun _ s => s.Mid g := by
  refine bind look fun t => ?_
  split
  · exact bind (construction h hg) fun _ => pure fun _ => id
  · refine bind lookFurther fun next => ite (fun _ => ?_) fun _ => ?_
    · exact bind (importCall h hg s) fun _ => pure fun _ => id
    · exact bind (primary h hg) fun _ => pureBind (pure fun _ => id)
  · exact bind (primary h hg) fun _ => pure fun _ => id

theorem extended (hg : g.Sound) (s : Option Position) (first : Construction) (alone : Operand) :
    Keeps (·.Mid g) (extended k s first alone) fun _ s => s.Mid g := by
  refine ite (fun _ => pure fun _ => id) fun _ => bind (access? h hg s _ true) fun found => ?_
  cases found with
  | none => exact pure fun _ => id
  | some longer =>
    exact bind left fun n => bind (accesses h hg s true (n + 1) longer) fun _ => pure fun _ => id

theorem leftHandSide (hg : g.Sound) : Keeps (·.In g) (leftHandSide k) fun _ s => s.Mid g :=
  bind place fun s => bind (leading h hg s) fun first => extended h hg s first.1 first.2

/-! ## Operators -/

omit h in
theorem isUpdateOperator_plain (t : Terminal) (ht : t.isUpdateOperator = true) :
    isPlain t = true ∧ divides t = false ∧ t ≠ .terminator := by
  cases t
  case punctuator p => cases p <;> first | exact ⟨rfl, rfl, nofun⟩ | cases ht
  all_goals cases ht

omit h in
theorem isUnaryOperator_plain (t : Terminal) (ht : t.isUnaryOperator = true) :
    isPlain t = true ∧ divides t = false ∧ t ≠ .terminator := by
  cases t
  case punctuator p => cases p <;> first | exact ⟨rfl, rfl, nofun⟩ | cases ht
  case word w => cases w <;> first | exact ⟨rfl, rfl, nofun⟩ | cases ht
  all_goals cases ht

theorem update (hg : g.Sound) : Keeps (·.In g) (update k) fun _ s => s.Mid g := by
  refine bind place fun s => bind look fun t => ite (fun _ => ?_) fun _ => ?_
  · exact next (plain isUpdateOperator_plain) fun t => bind (h.unary hg) fun _ => pure fun _ => id
  refine bind (leftHandSide h hg) fun o => bind look fun t => ite (fun _ => ?_) fun _ => pure fun _ => id
  exact bind ((plain isUpdateOperator_plain).pre fun _ hs => hs.toIn) fun t => pure fun _ => id

theorem prefixed (hg : g.Sound) : Keeps (·.In g) (prefixed k) fun _ s => s.Mid g := by
  refine bind place fun s => ifMarked rfl rfl (bind (h.unary hg) fun _ => pure fun _ => id) ?_
  exact next (plain isUnaryOperator_plain) fun t => bind (h.unary hg) fun _ => pure fun _ => id

theorem unary (hg : g.Sound) : Keeps (·.In g) (unary k) fun _ s => s.Mid g :=
  bind look fun _ => ite (fun _ => bind (prefixed h hg) fun _ => pure fun _ => id) fun _ => update h hg

theorem exponent (hg : g.Sound) : Keeps (·.In g) (exponent k) fun _ s => s.Mid g := by
  refine bind place fun s => bind look fun t => ite (fun _ => ?_) fun _ => ?_
  · exact bind (prefixed h hg) fun _ => pure fun _ => id
  refine bind (update h hg) fun o => bind look fun t => ite (fun _ => ?_) fun _ => pure fun _ => id
  refine next ((token (t := .punctuator .power) rfl rfl nofun).pre fun _ hs => hs.toIn) fun t => ?_
  exact bind (h.exponent hg) fun _ => pure fun _ => id

omit h in
/-- An operator behind an operand: a division sign has no terminator before it. -/
theorem operator {test : Terminal → Bool}
    (htest : ∀ t, test t = true → isPlain t = true ∧ t ≠ .terminator) :
    Keeps (·.Mid g) (Parser.takeIf test) fun _ s => s.Mid g :=
  takeIf (fun _ _ hs _ _ => hs.previous) fun _ _ hs ht =>
    (behind_after hs.toIn (htest _ ht).1).mid (htest _ ht).2

omit h in
theorem levelOperators_plain (n : Nat) (t : Terminal) (ht : (levelOperators n).contains t = true) :
    isPlain t = true ∧ t ≠ .terminator := by
  have hmem := List.contains_iff_mem.1 ht
  unfold levelOperators at hmem
  split at hmem
  all_goals
    simp only [List.mem_cons, List.not_mem_nil, or_false] at hmem
  all_goals
    rcases hmem with rfl | rfl | rfl | rfl | rfl | rfl <;> exact ⟨rfl, nofun⟩

omit h in
theorem moreOperands (n : Nat) (s : Option Position) {p : Parser Operand}
    (hp : Keeps (·.In g) p fun _ s => s.Mid g) (fuel : Nat) (o : Operand) :
    Keeps (·.Mid g) (moreOperands n s p fuel o) fun _ s => s.Mid g := by
  induction fuel generalizing o with
  | zero => exact fail
  | succ fuel ih =>
    refine bind look fun t => ite (fun _ => ?_) fun _ => pure fun _ => id
    exact next (operator (levelOperators_plain n)) fun t => bind hp fun r => ih _

theorem level (hg : g.Sound) (n : Nat) : Keeps (·.In g) (level k n) fun _ s => s.Mid g := by
  induction n with
  | zero => exact exponent h hg
  | succ n ih =>
    exact bind place fun s => bind ih fun o => bind left fun fuel => moreOperands _ s ih _ o

/-! ## Conditions, assignments, arrow functions -/

theorem conditional (hg : g.Unannounced) : Keeps (·.In g) (conditional k) fun _ s => s.Mid g := by
  refine bind place fun s => bind (level h hg.toSound loosestLevel) fun o => ?_
  refine ifMarked rfl rfl ?_ (pure fun _ => id)
  refine next (h.assignment hg) fun _ => bind (colon g.label) fun _ => ?_
  exact bind (h.assignment hg) fun _ => pure fun _ => id

theorem arrowRest (hg : g.Unannounced) (s : Option Position) (isAsync : Bool)
    (x : Shaped (List Node)) : Keeps (·.In g) (arrowRest k s isAsync x) fun _ s => s.Mid g := by
  refine next (punctuator rfl rfl) fun _ => bind look fun t => ?_
  dsimp only
  refine bindIte (fun _ => ?_) (fun _ => h.assignment hg) fun _ => pure fun _ => id
  exact (block h (opens_of_unannounced hg) hg.toSound).post fun _ _ hs => hs.mid nofun

theorem asyncArrow (hg : g.Unannounced) : Keeps (·.In g) (asyncArrow k) fun _ s => s.Mid g := by
  refine bind place fun s => next (word rfl) fun _ => bind look fun t => ?_
  dsimp only
  refine bindIte (fun _ => (parenthesized h hg.toSound).post fun _ _ hs => hs.toIn)
    (fun _ => (primary h hg.toSound).post fun _ _ hs => hs.toIn) fun head => ?_
  split
  · exact arrowRest h hg s true _
  · exact fail

theorem yieldExpression (hg : g.Unannounced) :
    Keeps (·.In g) (yieldExpression k) fun _ s => s.Mid g := by
  refine bind place fun s => bind (word rfl) fun _ => ?_
  refine ifMarked rfl rfl (bind (h.assignment hg) fun _ => pure fun _ => id) (bind look fun t => ite (fun _ => ?_) fun _ => ?_)
  · exact bind ((h.assignment hg).pre fun _ hs => hs.toIn) fun _ => pure fun _ => id
  · exact pure fun _ hs => hs.mid nofun

omit h in
theorem isAssignmentOperator_plain (t : Terminal) (ht : t.isAssignmentOperator = true) :
    isPlain t = true ∧ t ≠ .terminator := by
  cases t
  case punctuator p => cases p <;> first | exact ⟨rfl, nofun⟩ | cases ht
  all_goals cases ht

theorem assignmentRest (hg : g.Unannounced) (s : Option Position) (x : Shaped Node) :
    Keeps (·.Mid g) (assignmentRest k s x) fun _ s => s.Mid g :=
  next (operator isAssignmentOperator_plain) fun _ => bind (h.assignment hg) fun _ => pure fun _ => id

theorem assignment (hg : g.Unannounced) : Keeps (·.In g) (assignment k) fun _ s => s.Mid g := by
  refine bind place fun s => bind look fun t => ite (fun _ => yieldExpression h hg) fun _ => ?_
  refine bind lookFurther fun next => ite (fun _ => asyncArrow h hg) fun _ => ?_
  refine bind (conditional h hg) fun o => bind look fun t => ?_
  split
  · exact (arrowRest h hg s false _).pre fun _ hs => hs.toIn
  · exact ite (fun _ => assignmentRest h hg s _) fun _ => pure fun _ => id
  · exact pure fun _ => id

theorem expression (hg : g.Unannounced) : Keeps (·.In g) (expression k) fun _ s => s.Mid g :=
  commaExpression (assignment h hg)

end ModuleLowering.Parser.Keeps
