import ModuleLowering.Proofs.BuildingFunctions

/-!
# What the rules for expressions build
-/

set_option autoImplicit false

namespace ModuleLowering.Parser.Gives

open Node (Fits)
open Shaped (Builds)

variable {k : Deeper} (h : k.Gives)
include h

/-! ## Arrays and objects -/

theorem arrayElement : GivesNode (arrayElement k) .argument := by
  refine bind place fun _ _ => ifTaken ?_ (h.assignment.mono fun _ hs => ?_)
  · exact bind h.assignment fun _ hs => pure (hs.bind fun _ hn => .pure (.spreadArgument hn))
  · exact hs.mono fun _ hn => .expressionArgument hn

theorem arrayElements (n : Nat) : Gives (arrayElements k n) fun elements =>
    ∀ element ∈ elements, ∀ s ∈ element, Builds s (Fits .argument) := by
  induction n with
  | zero => exact fail
  | succ n ih =>
    refine ifTaken (pure nofun) (ifTaken (bind ih fun rest hrest => ?_) ?_)
    · exact pure (List.forall_mem_cons.2 ⟨nofun, hrest⟩)
    refine bind (arrayElement h) fun element helement => ?_
    have hfirst : ∀ s ∈ some element, Builds s (Fits .argument) := by
      rintro s ⟨⟩
      exact helement
    refine ifTaken (bind ih fun rest hrest => ?_) (bind punctuator fun _ _ => ?_)
    · exact pure (List.forall_mem_cons.2 ⟨hfirst, hrest⟩)
    · exact pure (List.forall_mem_singleton.2 hfirst)

theorem array : GivesNode (array k) .expression := by
  refine bind place fun _ _ => bind punctuator fun _ _ => bind left fun n _ => ?_
  refine bind (arrayElements h (n + 1)) fun elements helements => pure ?_
  refine (Builds.mapM fun element helement => ?_).bind fun _ hparts =>
    .pure (.arrayExpression hparts.2)
  exact (builds_part (helements element helement)).mono fun _ hpart => hpart.2

omit h in
theorem fits_propertyOf (start : Option Position) {method : Method} (hmethod : method.Fits) :
    (propertyOf start method).Fits .property := by
  rcases hmethod.kind with hkind | hkind
  · simp only [propertyOf, hkind, decide_true, if_true]
    exact .methodProperty hmethod.key hmethod.function
  · have hne : ¬method.kind = "method" := by
      intro heq
      rw [heq] at hkind
      cases hkind
    simp only [propertyOf, hne, decide_false, if_false]
    exact .accessor hkind hmethod.key hmethod.function

omit h in
/-- A property with a name and a value of that name. -/
theorem fits_shorthandOf (start : Option Position) {name : Node} {default? : Option Node}
    (hname : name.Fits .name) (hdefault : ∀ e ∈ default?, e.Fits .expression) :
    (shorthandOf start name default?).Fits .property := by
  obtain ⟨x, hname⟩ := hname.exists_named
  cases default? with
  | none => exact .shorthandProperty hname (.shorthandName hname)
  | some e => exact .shorthandProperty hname (.shorthandDefault hname (hdefault e rfl))

theorem namedProperty {start : Option Position} {isName : Bool} {name : Shaped Key}
    (hkey : Builds name Key.Fits)
    (hname : isName = true → Builds name fun key => key.node.Fits .name) :
    GivesNode (namedProperty k start isName name) .property := by
  refine ifTaken ?_ (bind look fun _ _ => ite (fun _ => ?_) fun _ => ?_)
  · refine bind h.assignment fun value hvalue => pure (hkey.bind fun _ hkey => ?_)
    exact hvalue.bind fun _ hvalue => .pure (.property hkey hvalue)
  · refine bind (methodRest h (.inl rfl) hkey) fun method hmethod => pure ?_
    exact hmethod.map fun _ hmethod => fits_propertyOf _ hmethod
  · cases isName with
    | false => exact bind (Q := fun _ => False) fail fun _ => False.elim
    | true =>
      refine ifTaken (bind h.assignment fun value hvalue => pure ?_) (pure ?_)
      · refine (hname rfl).bind fun _ hname => hvalue.bind fun _ hvalue => .pure ?_
        exact fits_shorthandOf _ hname (by rintro e ⟨⟩; exact hvalue)
      · exact (hname rfl).map fun _ hname => fits_shorthandOf _ hname nofun

theorem objectProperty : GivesNode (objectProperty k) .property := by
  refine bind place fun start _ => ifTaken ?_ (bind methodMarks fun marks hmarks => ?_)
  · exact bind h.assignment fun _ hs => pure (hs.bind fun _ hn => .pure (.spreadProperty hn))
  refine lookKey h fun t name hkey hname => ite (fun _ => ?_) fun _ => namedProperty h hkey hname
  refine bind (methodRest h hmarks hkey) fun method hmethod => pure ?_
  exact hmethod.map fun _ hmethod => fits_propertyOf _ hmethod

theorem object : GivesNode (object k) .expression :=
  bind place fun _ _ => bind take.discard fun _ _ => bind (items (objectProperty h)) fun _ hs =>
    pure ((builds_inOrder hs).bind fun _ hproperties => .pure (.objectExpression hproperties))

omit h in
/-- An expression that is read as a pattern. -/
theorem builds_pattern {s : Shaped Node} (hs : Builds s (Fits .expression)) :
    Builds (s >>= Node.asPattern) (Fits .pattern) :=
  hs.bind fun _ hn => Node.builds_asPattern hn rfl

omit h in
/-- A name is a pattern. -/
theorem fits_pattern_of_name {n : Node} (hn : n.Fits .name) : n.Fits .pattern := by
  obtain ⟨x, hx⟩ := hn.exists_named
  refine .target (.nameExpression hn) ?_
  cases hx
  rfl

theorem binding : GivesNode (binding k) .pattern := by
  refine bind look fun t _ => ?_
  split
  · exact bind (array h) fun _ hs => pure (builds_pattern hs)
  · exact bind (object h) fun _ hs => pure (builds_pattern hs)
  · exact bind identifier fun _ hn => pure (.pure (fits_pattern_of_name hn))

/-! ## Primary expressions -/

omit h in
theorem builds_joinByComma {start : Option Position} {s t : Shaped Node}
    (hs : Builds s (Fits .expression)) (ht : Builds t (Fits .expression)) :
    Builds (joinByComma start s t) (Fits .expression) := by
  refine hs.bind fun left hleft => ht.bind fun right hright => .pure ?_
  obtain ⟨hne, hparts⟩ := hleft.commaParts
  refine .sequenceExpression ?_
    (List.forall_mem_append.2 ⟨hparts, List.forall_mem_singleton.2 hright⟩)
  have hpos := List.length_pos_iff.2 hne
  rw [List.length_append, List.length_singleton]
  omega

omit h in
theorem builds_joinAll {start : Option Position} {first : Shaped Node} {rest : List (Shaped Node)}
    (hfirst : Builds first (Fits .expression)) (hrest : ∀ s ∈ rest, Builds s (Fits .expression)) :
    Builds (joinAll start first rest) (Fits .expression) := by
  unfold joinAll
  induction rest generalizing first with
  | nil => exact hfirst
  | cons s rest ih =>
    obtain ⟨hs, hrest⟩ := List.forall_mem_cons.1 hrest
    exact ih (builds_joinByComma hfirst hs) hrest

omit h in
theorem commaExpression {p : Parser (Shaped Node)} (hp : GivesNode p .expression) :
    GivesNode (commaExpression p) .expression := by
  refine bind place fun _ _ => bind (parts hp) fun nodes hnodes => ?_
  cases nodes with
  | nil => exact fail
  | cons first rest =>
    obtain ⟨hfirst, hrest⟩ := List.forall_mem_cons.1 hnodes
    exact pure (builds_joinAll hfirst hrest)

theorem restParameter : GivesNode (restParameter k) .pattern :=
  bind h.binding fun _ hs => pure (hs.map fun _ hn => .restElement hn)

theorem moreInParentheses (n : Nat) : Gives (moreInParentheses k n) fun found =>
    (∀ s ∈ found.more, Builds s (Fits .expression)) ∧
      ∀ s ∈ found.rest, Builds s (Fits .pattern) := by
  induction n with
  | zero => exact fail
  | succ n ih =>
    refine ifTaken (pure ⟨nofun, nofun⟩) (bind punctuator fun _ _ => ifTaken ?_ ?_)
    · refine bind (restParameter h) fun rest hrest => bind punctuator fun _ _ => pure ⟨nofun, ?_⟩
      rintro s ⟨⟩
      exact hrest
    · refine bind h.assignment fun item hitem => bind ih fun found hfound => ?_
      exact pure ⟨List.forall_mem_cons.2 ⟨hitem, hfound.1⟩, hfound.2⟩

omit h in
theorem builds_singleton {s : Shaped Node} {P : Node → Prop} (hs : Builds s P) :
    Builds (do return [← s]) fun ns => ∀ n ∈ ns, P n :=
  hs.bind fun _ hn => .pure (List.forall_mem_singleton.2 hn)

theorem parenthesized : Gives (parenthesized k) Operand.Fits := by
  refine bind place fun _ _ => bind punctuator fun _ _ => ?_
  refine ifTaken (pure ⟨.error, ?_⟩) (ifTaken ?_ ?_)
  · rintro params ⟨⟩
    exact .pure nofun
  · refine bind (restParameter h) fun rest hrest => bind punctuator fun _ _ => pure ⟨.error, ?_⟩
    rintro params ⟨⟩
    exact builds_singleton hrest
  · refine bind place fun inner _ => bind h.assignment fun first hfirst => bind left fun n _ => ?_
    refine bind (moreInParentheses h (n + 1)) fun found hfound => ?_
    have hnode : Builds (joinAll inner first found.more) (Fits .expression) :=
      builds_joinAll hfirst hfound.1
    have hparams := hnode.bind fun _ hn => Node.builds_asParameters hn
    split
    case h_1 =>
      refine pure ⟨hnode, ?_⟩
      rintro params ⟨⟩
      exact hparams
    case h_2 rest hrest =>
      refine pure ⟨.error, ?_⟩
      rintro params ⟨⟩
      refine hparams.bind fun params hparams => (hfound.2 rest hrest).bind fun _ hn => .pure ?_
      exact List.forall_mem_append.2 ⟨hparams, List.forall_mem_singleton.2 hn⟩

omit h in
theorem memberName : Gives memberName (Fits .name) := bind take fun _ _ => pure (.name .named)

omit h in
theorem metaProperty (start : Option Position) (object expected : Text) :
    GivesNode (metaProperty start object expected) .expression := by
  refine bind punctuator fun _ _ => bind memberName fun name hname => pure ?_
  exact .ite (fun _ => .pure (.metaProperty (.name .named) hname)) fun _ => .error

omit h in
theorem wordLiteral (w : Word) (value : Value) : Gives (wordLiteral w value) Operand.Fits :=
  bind place fun _ _ => bind word fun _ _ => pure (.plain (.pure (.literalExpression .literal)))

theorem primary : Gives (primary k) Operand.Fits := by
  refine bind place fun start _ => bind look fun t _ => ?_
  split
  · exact bind numberLiteral fun _ hs => pure (.plain (hs.mono fun _ => .literalExpression))
  · exact bind stringLiteral fun _ hs => pure (.plain (hs.mono fun _ => .literalExpression))
  · exact bind take fun _ _ => pure (.plain (.pure (.templateExpression .template)))
  · exact bind take fun _ _ => pure (.plain (.pure .regExpLiteral))
  · exact bind (object h) fun _ hs => pure (.plain hs)
  · exact bind (array h) fun _ hs => pure (.plain hs)
  · exact parenthesized h
  · exact wordLiteral _ _
  · exact wordLiteral _ _
  · exact wordLiteral _ _
  · exact bind word fun _ _ => pure (.plain (.pure .thisExpression))
  · exact bind word fun _ _ => pure (.plain (.pure .superExpression))
  · exact bind word fun _ _ => bind (metaProperty start _ _) fun _ hs => pure (.plain hs)
  · exact bind (functionExpression h) fun _ hs => pure (.plain hs)
  · exact bind (functionExpression h) fun _ hs => pure (.plain hs)
  · exact bind (classExpression h) fun _ hs => pure (.plain hs)
  · refine bind identifier fun name hname => pure ⟨.pure (.nameExpression hname), ?_⟩
    rintro params ⟨⟩
    exact .pure (List.forall_mem_singleton.2 (fits_pattern_of_name hname))

/-! ## Members and calls -/

theorem arguments : Gives (arguments k) (Builds · fun args => ∀ a ∈ args, a.Fits .argument) :=
  bind punctuator fun _ _ => bind (items (arrayElement h)) fun _ hs => pure (builds_inOrder hs)

section

variable {start : Option Position} {object : Shaped Node}
  (hobject : Builds object (Fits .expression))
include hobject

omit h in
theorem memberOfName (isOptional : Bool) :
    GivesNode (memberOfName start isOptional object) .expression :=
  bind memberName fun _ hname => pure (hobject.map fun _ hobject => .member hobject hname)

theorem memberOfIndex (isOptional : Bool) :
    GivesNode (memberOfIndex k start isOptional object) .expression := by
  refine bind punctuator fun _ _ => bind (commaExpression h.assignment) fun index hindex => ?_
  refine bind punctuator fun _ _ => pure (hobject.bind fun _ hobject => ?_)
  exact hindex.bind fun _ hindex => .pure (.index hobject hindex)

omit h in
theorem tagged : GivesNode (tagged start object) .expression :=
  bind take fun _ _ => pure (hobject.map fun _ htag => .taggedTemplate htag .template)

theorem call (isOptional : Bool) : GivesNode (call k start isOptional object) .expression := by
  refine bind (arguments h) fun args hargs => pure (hobject.bind fun _ hcallee => ?_)
  exact hargs.bind fun _ hargs => .pure (.callExpression hcallee hargs)

theorem optionalAccess : GivesNode (optionalAccess k start object) .expression := by
  refine bind punctuator fun _ _ => bind look fun t _ => ?_
  split
  · exact memberOfIndex h hobject true
  · exact call h hobject true
  · exact memberOfName hobject true

theorem access? (calls : Bool) : Gives (access? k start calls object) fun longer =>
    ∀ s ∈ longer, Builds s (Fits .expression) := by
  have hsome {p : Parser (Shaped Node)} (hp : GivesNode p .expression) :
      Gives (do return some (← p)) fun longer => ∀ s ∈ longer, Builds s (Fits .expression) := by
    refine bind hp fun longer hlonger => pure ?_
    rintro s ⟨⟩
    exact hlonger
  refine bind look fun t _ => ?_
  split
  · exact bind punctuator fun _ _ => hsome (memberOfName hobject false)
  · exact hsome (memberOfIndex h hobject false)
  · exact hsome (tagged hobject)
  · exact ite (fun _ => hsome (call h hobject false)) fun _ => pure nofun
  · exact ite (fun _ => hsome (optionalAccess h hobject)) fun _ => pure nofun
  · exact pure nofun

theorem accesses (calls : Bool) (n : Nat) :
    GivesNode (accesses k start calls n object) .expression := by
  induction n generalizing object with
  | zero => exact fail
  | succ n ih =>
    refine bind (access? h hobject calls) fun longer hlonger => ?_
    cases longer with
    | none => exact pure hobject
    | some longer => exact ih (hlonger longer rfl)

end

theorem constructed : Gives (constructed k) fun made => Builds made.node (Fits .expression) := by
  refine bind place fun start _ => bind look fun t _ => ?_
  dsimp only
  have hrest (first : Construction) (hfirst : Builds first.node (Fits .expression)) :
      Gives (if first.extensible = true then do
          let more ← Parser.accesses k start false ((← Parser.left) + 1) first.node
          return (⟨more, true⟩ : Construction)
        else return first) fun made => Builds made.node (Fits .expression) :=
    ite (fun _ => bind left fun n _ => bind (accesses h hfirst false (n + 1)) fun _ hs => pure hs)
      fun _ => pure hfirst
  refine ite (fun _ => bind h.construction hrest) fun _ => ?_
  refine bind (primary h) fun operand hoperand => ?_
  exact bind (Q := fun made => Builds made.node (Fits .expression)) (pure hoperand.node) hrest

theorem construction : Gives (construction k) fun made => Builds made.node (Fits .expression) := by
  refine bind place fun start _ => bind word fun _ _ => ?_
  refine bind look fun _ _ => ite (fun _ => ?_) fun _ => ?_
  · exact bind (metaProperty start _ _) fun _ hs => pure hs
  refine bind (constructed h) fun callee hcallee => ?_
  refine bind look fun _ _ => ite (fun _ => ?_) fun _ => ?_
  · refine bind (arguments h) fun args hargs => pure (hcallee.bind fun _ hcallee => ?_)
    exact hargs.bind fun _ hargs => .pure (.newExpression hcallee hargs)
  · exact pure (hcallee.bind fun _ hcallee => .pure (.newExpression hcallee nofun))

theorem importCall (start : Option Position) : GivesNode (importCall k start) .expression := by
  refine bind word fun _ _ => bind punctuator fun _ _ => bind h.assignment fun source hsource => ?_
  exact bind punctuator fun _ _ => pure (hsource.bind fun _ hn => .pure (.importExpression hn))

theorem leading (start : Option Position) : Gives (leading k start) fun p =>
    Builds p.1.node (Fits .expression) ∧ p.2.Fits := by
  refine bind look fun t _ => ?_
  split
  · exact bind (construction h) fun _ hmade => pure ⟨hmade, .plain hmade⟩
  · refine bind lookFurther fun _ _ => ite (fun _ => ?_) fun _ => ?_
    · exact bind (importCall h start) fun _ hs => pure ⟨hs, .plain hs⟩
    · refine bind (primary h) fun operand hoperand => ?_
      exact bind (Q := (Builds · (Fits .expression))) (pure hoperand.node) fun _ hs =>
        pure ⟨hs, .plain hs⟩
  · exact bind (primary h) fun _ hoperand => pure ⟨hoperand.node, hoperand⟩

theorem extended {start : Option Position} {first : Construction} {alone : Operand}
    (hfirst : Builds first.node (Fits .expression)) (halone : alone.Fits) :
    Gives (extended k start first alone) Operand.Fits := by
  refine ite (fun _ => pure halone) fun _ => bind (access? h hfirst true) fun longer hlonger => ?_
  cases longer with
  | none => exact pure halone
  | some longer =>
    refine bind left fun n _ => bind (accesses h (hlonger longer rfl) true (n + 1)) fun _ hs => ?_
    exact pure (.plain hs)

theorem leftHandSide : Gives (leftHandSide k) Operand.Fits :=
  bind place fun start _ => bind (leading h start) fun _ hfirst => extended h hfirst.1 hfirst.2

/-! ## Operators -/

omit h in
theorem builds_countingOf {start : Option Position} {operator : Text} {before : Bool}
    {target : Shaped Node} (htarget : Builds target (Fits .expression)) :
    Builds (countingOf start operator before target) (Fits .expression) :=
  htarget.bind fun _ hn => .ite (fun h => .pure (.updateExpression hn h)) fun _ => .error

theorem update : Gives (update k) Operand.Fits := by
  refine bind place fun start _ => bind look fun _ _ => ite (fun _ => ?_) fun _ => ?_
  · exact bind takeIf fun _ _ => bind h.unary fun _ hs => pure (.plain (builds_countingOf hs))
  refine bind (leftHandSide h) fun operand hoperand => ?_
  refine bind look fun _ _ => ite (fun _ => ?_) fun _ => ?_
  · exact bind takeIf fun _ _ => pure (.plain (builds_countingOf hoperand.node))
  · exact pure hoperand

theorem prefixed : GivesNode (prefixed k) .expression := by
  refine bind place fun start _ => ifTaken ?_ (bind takeIf fun _ _ => ?_)
  · exact bind h.unary fun _ hs => pure (hs.bind fun _ hn => .pure (.awaitExpression hn))
  · exact bind h.unary fun _ hs => pure (hs.bind fun _ hn => .pure (.unaryExpression hn))

theorem unary : Gives (unary k) Operand.Fits :=
  bind look fun _ _ =>
    ite (fun _ => bind (prefixed h) fun _ hs => pure (.plain hs)) fun _ => update h

omit h in
theorem builds_binaryOf {start : Option Position} {isLogical : Bool} {operator : Text}
    {s t : Shaped Node} (hoperator : Node.IsOperator operator) (hs : Builds s (Fits .expression))
    (ht : Builds t (Fits .expression)) :
    Builds (binaryOf start isLogical operator s t) (Fits .expression) := by
  refine hs.bind fun left hleft => ht.bind fun right hright => .pure ?_
  cases isLogical with
  | false => exact .binaryExpression hoperator hleft hright
  | true => exact .logicalExpression hoperator hleft hright

theorem exponent : Gives (exponent k) Operand.Fits := by
  refine bind place fun start _ => bind look fun _ _ => ite (fun _ => ?_) fun _ => ?_
  · exact bind (prefixed h) fun _ hs => pure (.plain hs)
  refine bind (update h) fun base hbase => ?_
  refine bind look fun _ _ => ite (fun _ => ?_) fun _ => pure hbase
  refine bind take fun operator hoperator => bind h.exponent fun power hpower => ?_
  refine pure (.plain (builds_binaryOf ?_ hbase.node hpower))
  rw [hoperator.2 Punctuator.power.text (by rw [hoperator.1]; rfl)]
  decide

omit h in
/-- The operators of the levels are those between two operands. -/
theorem isOperator_of_level {n : Nat} {t : Token}
    (ht : (levelOperators n).contains t.terminal = true) (hspelled : t.Spelled) : Node.IsOperator t.text := by
  have hlevel : ∀ u ∈ levelOperators n, ∃ x ∈ u.text?, Node.IsOperator x := by
    unfold levelOperators
    split <;> decide
  obtain ⟨x, hx, hoperator⟩ := hlevel _ (List.contains_iff_mem.1 ht)
  rw [hspelled x hx]
  exact hoperator

omit h in
theorem moreOperands {n : Nat} {start : Option Position} {p : Parser Operand}
    (hp : Gives p Operand.Fits) (fuel : Nat) {first : Operand} (hfirst : first.Fits) :
    Gives (moreOperands n start p fuel first) Operand.Fits := by
  induction fuel generalizing first with
  | zero => exact fail
  | succ fuel ih =>
    refine bind look fun _ _ => ite (fun _ => ?_) fun _ => pure hfirst
    refine bind takeIf fun operator hoperator => bind hp fun right hright => ih (.plain ?_)
    exact builds_binaryOf (isOperator_of_level hoperator.1 hoperator.2) hfirst.node hright.node

theorem level (n : Nat) : Gives (level k n) Operand.Fits := by
  induction n with
  | zero => exact exponent h
  | succ n ih =>
    exact bind place fun _ _ => bind ih fun _ hfirst => bind left fun fuel _ =>
      moreOperands ih (fuel + 1) hfirst

/-! ## Conditions, assignments, arrow functions -/

theorem conditional : Gives (conditional k) Operand.Fits := by
  refine bind place fun _ _ => bind (level h loosestLevel) fun test htest => ifTaken ?_ (pure htest)
  refine bind h.assignment fun consequent hconsequent => bind punctuator fun _ _ => ?_
  refine bind h.assignment fun alternate halternate => pure (.plain ?_)
  refine htest.node.bind fun _ htest => hconsequent.bind fun _ hconsequent => ?_
  exact halternate.bind fun _ halternate =>
    .pure (.conditionalExpression htest hconsequent halternate)

theorem arrowRest {start : Option Position} {isAsync : Bool} {params : Shaped (List Node)}
    (hparams : Builds params fun ps => ∀ p ∈ ps, p.Fits .pattern) :
    GivesNode (arrowRest k start isAsync params) .expression := by
  refine bind punctuator fun _ _ => bind look fun _ _ => ?_
  dsimp only
  refine bindIte (Q := (Builds · (Fits .arrowBody)))
    (fun _ => (block h).mono fun _ hs => hs.mono fun _ => .blockBody)
    (fun _ => h.assignment.mono fun _ hs => hs.mono fun _ => .expressionBody) fun body hbody => ?_
  refine pure (hbody.bind fun _ hbody => hparams.bind fun _ hparams => ?_)
  exact .pure (.arrowFunction hparams hbody)

theorem asyncArrow : GivesNode (asyncArrow k) .expression := by
  refine bind place fun _ _ => bind word fun _ _ => bind look fun _ _ => ?_
  dsimp only
  refine bindIte (fun _ => parenthesized h) (fun _ => primary h) fun head hhead => ?_
  split
  case h_1 params hparams => exact arrowRest h (hhead.parameters params hparams)
  case h_2 => exact fail

theorem yieldExpression : GivesNode (yieldExpression k) .expression := by
  have hoperand {start : Option Position} {delegate : Bool} {s : Shaped Node}
      (hs : Builds s (Fits .expression)) : Builds
        (do return .mk start (.yieldExpression (some (← s)) delegate)) (Fits .expression) :=
    hs.bind fun _ hn => .pure (.yieldExpression (by rintro e ⟨⟩; exact hn) fun _ => rfl)
  refine bind place fun _ _ => bind word fun _ _ => ifTaken ?_ (bind look fun _ _ => ?_)
  · exact bind h.assignment fun _ hs => pure (hoperand hs)
  refine ite (fun _ => bind h.assignment fun _ hs => pure (hoperand hs)) fun _ => pure ?_
  exact .pure (.yieldExpression nofun nofun)

theorem assignmentRest {start : Option Position} {target : Shaped Node}
    (htarget : Builds target (Fits .expression)) :
    GivesNode (assignmentRest k start target) .expression := by
  refine bind takeIf fun operator _ => bind h.assignment fun value hvalue => pure ?_
  refine htarget.bind fun _ hn => (Node.builds_asTarget operator.text hn).bind fun _ htarget => ?_
  exact hvalue.bind fun _ hvalue => .pure (.assignmentExpression htarget.1 htarget.2 hvalue)

theorem assignment : GivesNode (assignment k) .expression := by
  refine bind place fun _ _ => bind look fun _ _ => ite (fun _ => yieldExpression h) fun _ => ?_
  refine bind lookFurther fun _ _ => ite (fun _ => asyncArrow h) fun _ => ?_
  refine bind (conditional h) fun operand hoperand => bind look fun _ _ => ?_
  split
  case h_1 params hparams => exact arrowRest h (hoperand.parameters params hparams)
  case h_2 => exact ite (fun _ => assignmentRest h hoperand.node) fun _ => pure hoperand.node
  case h_3 => exact pure hoperand.node

theorem expression : GivesNode (expression k) .expression := commaExpression (assignment h)

end ModuleLowering.Parser.Gives
