import ModuleLowering.Proofs.BuildingExpressions

/-!
# What the rules for statements and modules build

With the rules for statements, imports and exports, every rule of the grammar is known to build
trees that are well formed for their place. So every module that is read is well formed.
-/

set_option autoImplicit false

namespace ModuleLowering

open Node (Fits)
open Shaped (Builds)

namespace Parser.Gives

section

variable {k : Deeper} (h : k.Gives)
include h

/-! ## Variables -/

omit h in
/-- A part that is read if something comes next. -/
theorem someNode {p : Parser (Shaped Node)} {r : Role} (hp : GivesNode p r) :
    Gives (some <$> p) fun s? => ∀ s ∈ s?, Builds s (Fits r) :=
  hp.map fun _ hs => by simpa using hs

theorem innerExpression : GivesNode (innerExpression k) .expression := commaExpression h.assignment

theorem condition : GivesNode (condition k) .expression :=
  bind punctuator fun _ _ => bind (innerExpression h) fun _ hs => bind punctuator fun _ _ => pure hs

theorem declaratorRest {start : Option Position} {target : Shaped Node}
    (htarget : Builds target (Fits .pattern)) :
    GivesNode (declaratorRest k start target) .declarator := by
  refine bind taken fun _ _ => ?_
  dsimp only
  refine bindIte (Q := fun value => ∀ s ∈ value, Builds s (Fits .expression))
    (fun _ => someNode h.assignment) (fun _ => pure nofun) fun value hvalue => pure ?_
  refine (builds_part hvalue).bind fun _ hvalue => htarget.bind fun _ htarget => ?_
  exact .pure (.variableDeclarator htarget hvalue.2)

theorem declarator : GivesNode (declarator k) .declarator :=
  bind place fun _ _ => bind (binding h) fun _ htarget => declaratorRest h htarget

omit h in
theorem builds_declarationOf (kind : Token) {declarators : List (Shaped Node)}
    (hdeclarators : ∀ s ∈ declarators, Builds s (Fits .declarator)) :
    Builds (declarationOf kind declarators) (Fits .variables) :=
  (builds_inOrder hdeclarators).bind fun _ hns => .pure (.variableDeclaration hns)

theorem declaredVariables : GivesNode (declaredVariables k) .variables :=
  bind takeIf fun kind _ => bind (parts (declarator h)) fun _ hs =>
    pure (builds_declarationOf kind hs)

/-! ## Conditions and loops -/

theorem ifStatement : GivesNode (ifStatement k) .statement := by
  refine bind place fun _ _ => bind word fun _ _ => bind (condition h) fun test htest => ?_
  refine bind h.statement fun consequent hconsequent => bind taken fun _ _ => ?_
  dsimp only
  refine bindIte (Q := fun s? => ∀ s ∈ s?, Builds s (Fits .statement))
    (fun _ => someNode h.statement) (fun _ => pure nofun) fun alternate halternate => pure ?_
  refine (builds_part halternate).bind fun _ halternate => htest.bind fun _ htest => ?_
  exact hconsequent.bind fun _ hconsequent => .pure (.ifStatement htest hconsequent halternate.2)

theorem whileStatement : GivesNode (whileStatement k) .statement := by
  refine bind place fun _ _ => bind word fun _ _ => bind (condition h) fun test htest => ?_
  refine bind h.statement fun body hbody => pure (htest.bind fun _ htest => ?_)
  exact hbody.bind fun _ hbody => .pure (.whileStatement htest hbody)

theorem doStatement : GivesNode (doStatement k) .statement := by
  refine bind place fun _ _ => bind word fun _ _ => bind h.statement fun body hbody => ?_
  refine bind word fun _ _ => bind (condition h) fun test htest => bind terminator fun _ _ => ?_
  exact pure (hbody.bind fun _ hbody =>
    htest.bind fun _ htest => .pure (.doWhileStatement hbody htest))

theorem expressionUnless (stop : Punctuator) : Gives (expressionUnless k stop) fun s? =>
    ∀ s ∈ s?, Builds s (Fits .expression) := by
  refine bind look fun _ _ => ite (fun _ => pure nofun) fun _ => ?_
  refine bind (innerExpression h) fun e he => pure ?_
  rintro s ⟨⟩
  exact he

theorem forRest {start : Option Position} {init : Option (Shaped Node)}
    (hinit : ∀ s ∈ init, Builds s (Fits .forInit)) :
    GivesNode (forRest k start init) .statement := by
  refine bind punctuator fun _ _ => bind (expressionUnless h _) fun test htest => ?_
  refine bind punctuator fun _ _ => bind (expressionUnless h _) fun step hstep => ?_
  refine bind punctuator fun _ _ => bind h.statement fun body hbody => pure ?_
  refine (builds_part hinit).bind fun _ hinit => (builds_part htest).bind fun _ htest => ?_
  refine (builds_part hstep).bind fun _ hstep => hbody.bind fun _ hbody => .pure ?_
  exact .forStatement hinit.2 htest.2 hstep.2 hbody

omit h in
theorem builds_loopVariable (kind : Token) {start : Option Position} {target : Shaped Node}
    (htarget : Builds target (Fits .pattern)) :
    Builds (loopVariable kind start target) (Fits .variables) :=
  htarget.bind fun _ hn => .pure
    (.variableDeclaration (List.forall_mem_singleton.2 (.variableDeclarator hn nofun)))

section

variable {start : Option Position} {declared : Shaped Node}
  (hdeclared : Builds declared (Fits .variables))
include hdeclared

theorem forInRest : GivesNode (forInRest k start declared) .statement := by
  refine bind word fun _ _ => bind (innerExpression h) fun right hright => ?_
  refine bind punctuator fun _ _ => bind h.statement fun body hbody => pure ?_
  refine hdeclared.bind fun _ hleft => hright.bind fun _ hright => hbody.bind fun _ hbody => ?_
  exact .pure (.forInStatement hleft hright hbody)

theorem forOfRest (isAwait : Bool) : GivesNode (forOfRest k start isAwait declared) .statement := by
  refine bind word fun _ _ => bind h.assignment fun right hright => ?_
  refine bind punctuator fun _ _ => bind h.statement fun body hbody => pure ?_
  refine hdeclared.bind fun _ hleft => hright.bind fun _ hright => hbody.bind fun _ hbody => ?_
  exact .pure (.forOfStatement hleft hright hbody)

end

theorem forDeclaring (start : Option Position) (isAwait : Bool) :
    GivesNode (forDeclaring k start isAwait) .statement := by
  refine bind takeIf fun kind _ => bind place fun targetStart _ => ?_
  refine bind (binding h) fun target htarget => ?_
  have hdeclared : Builds (loopVariable kind targetStart target) (Fits .variables) :=
    builds_loopVariable kind htarget
  refine ite (fun _ => forOfRest h hdeclared true) fun _ => bind look fun t _ => ?_
  split
  · exact forInRest h hdeclared
  · exact forOfRest h hdeclared false
  · refine bind (declaratorRest h htarget) fun first hfirst => bind left fun n _ => ?_
    refine bind (moreParts (declarator h)) fun more hmore => forRest h ?_
    rintro s ⟨⟩
    exact (builds_declarationOf kind (List.forall_mem_cons.2 ⟨hfirst, hmore⟩)).mono fun _ =>
      .variablesInit

theorem forStatement : GivesNode (forStatement k) .statement := by
  refine bind place fun start _ => bind word fun _ _ => bind taken fun isAwait _ => ?_
  refine bind punctuator fun _ _ => bind look fun _ _ => ite (fun _ => ?_) fun _ => ?_
  · exact forDeclaring h start isAwait
  · refine bind (expressionUnless h _) fun init hinit => forRest h fun s hs => ?_
    exact (hinit s hs).mono fun _ => .expressionInit

/-! ## Jumps -/

theorem returnStatement : GivesNode (returnStatement k) .statement := by
  refine bind place fun _ _ => bind word fun _ _ => ifTaken ?_ ?_
  · exact pure (.pure (.returnStatement nofun))
  · refine bind (innerExpression h) fun value hvalue => bind terminator fun _ _ => ?_
    exact pure (hvalue.bind fun _ hn => .pure (.returnStatement (by rintro e ⟨⟩; exact hn)))

theorem throwStatement : GivesNode (throwStatement k) .statement := by
  refine bind place fun _ _ => bind word fun _ _ => bind (innerExpression h) fun value hvalue => ?_
  exact bind terminator fun _ _ => pure (hvalue.bind fun _ hn => .pure (.throwStatement hn))

omit h in
theorem wordStatement (w : Word) {form : Form Node}
    (hform : ∀ loc, (Node.mk loc form).Fits .statement) :
    GivesNode (wordStatement w form) .statement :=
  bind place fun start _ => bind word fun _ _ => bind terminator fun _ _ =>
    pure (.pure (hform start))

/-! ## `try` and `switch` -/

theorem catchClause : GivesNode (catchClause k) .handler := by
  refine bind place fun _ _ => bind word fun _ _ => bind taken fun _ _ => ?_
  have hrest {start : Option Position} (param : Option (Shaped Node))
      (hparam : ∀ s ∈ param, Builds s (Fits .pattern)) :
      GivesNode (do
        let body ← Parser.block k
        return do
          let param ← param.mapM id
          return .mk start (.catchClause param (some (← body)))) .handler := by
    refine bind (block h) fun body hbody => pure ((builds_part hparam).bind fun _ hparam => ?_)
    exact hbody.bind fun _ hbody => .pure (.catchClause hparam.2 hbody)
  have hpure {param : Option (Shaped Node)} (hparam : ∀ s ∈ param, Builds s (Fits .pattern)) :
      Gives (Pure.pure param : Parser (Option (Shaped Node))) fun s? =>
        ∀ s ∈ s?, Builds s (Fits .pattern) := pure hparam
  refine ite (fun _ => ?_) fun _ => bind (hpure nofun) hrest
  refine bind (binding h) fun param hparam => bind punctuator fun _ _ => bind (hpure ?_) hrest
  rintro s ⟨⟩
  exact hparam

theorem tryStatement : GivesNode (tryStatement k) .statement := by
  refine bind place fun _ _ => bind word fun _ _ => bind (block h) fun body hbody => ?_
  refine bind look fun _ _ => ?_
  dsimp only
  refine bindIte (Q := fun s? => ∀ s ∈ s?, Builds s (Fits .handler))
    (fun _ => someNode (catchClause h)) (fun _ => pure nofun) fun handler hhandler => ?_
  refine bind taken fun _ _ => ?_
  refine bindIte (Q := fun s? => ∀ s ∈ s?, Builds s (Fits .block))
    (fun _ => someNode (block h)) (fun _ => pure nofun) fun finalizer hfinalizer => pure ?_
  refine .ite (fun _ => .bind (P := fun _ => False) (fun _ ha => by cases ha) fun _ => False.elim)
    fun hsome => ?_
  refine hbody.bind fun _ hbody => (builds_part hhandler).bind fun _ hhandler => ?_
  refine (builds_part hfinalizer).bind fun _ hfinalizer => .pure ?_
  refine .tryStatement hbody hhandler.2 hfinalizer.2 ?_
  rw [hhandler.1, hfinalizer.1]
  cases handler <;> cases finalizer <;> first | rfl | exact absurd rfl hsome

theorem switchCase : GivesNode (switchCase k) .case := by
  have hrest {start : Option Position} (test : Option (Shaped Node))
      (htest : ∀ s ∈ test, Builds s (Fits .expression)) :
      GivesNode (do
        Parser.punctuator .colon
        let body ← Parser.manyUntil k.statement endsCase ((← Parser.left) + 1)
        return do
          let test ← test.mapM id
          return .mk start (.switchCase test (← inOrder body))) .case := by
    refine bind punctuator fun _ _ => bind left fun _ _ => ?_
    refine bind (manyUntil h.statement) fun body hbody => ?_
    refine pure ((builds_part htest).bind fun _ htest => ?_)
    exact (builds_inOrder hbody).bind fun _ hbody => .pure (.switchCase htest.2 hbody)
  have hpure : Gives (Pure.pure none : Parser (Option (Shaped Node))) fun s? =>
      ∀ s ∈ s?, Builds s (Fits .expression) := pure nofun
  refine bind place fun _ _ => bind taken fun _ _ => ite (fun _ => bind hpure hrest) fun _ => ?_
  exact bind word fun _ _ => bind (someNode (innerExpression h)) hrest

theorem switchStatement : GivesNode (switchStatement k) .statement := by
  refine bind place fun _ _ => bind word fun _ _ => bind (condition h) fun value hvalue => ?_
  refine bind punctuator fun _ _ => bind (itemsUntil (switchCase h)) fun cases hcases => pure ?_
  refine (builds_inOrder hcases).bind fun _ hcases => hvalue.bind fun _ hvalue => ?_
  exact .pure (.switchStatement hvalue hcases)

/-! ## Statements -/

theorem expressionStatement : GivesNode (expressionStatement k) .statement := by
  refine bind place fun _ _ => bind (expression h) fun e he => bind terminator fun _ _ => ?_
  exact pure (he.bind fun _ hn => .pure (.expressionStatement hn))

omit h in
theorem definition {p : Parser (Shaped Node)} (hp : GivesNode p (.definition false)) :
    GivesNode p .declared :=
  hp.mono fun _ hs => hs.mono fun _ => .declaredDefinition

omit h in
theorem declared {p : Parser (Shaped Node)} (hp : GivesNode p .declared) :
    GivesNode p .statement :=
  hp.mono fun _ hs => hs.mono fun _ => .declaredStatement

theorem terminatedVariables : GivesNode (do
    let declared ← Parser.declaredVariables k
    Parser.terminator
    return declared) .declared :=
  bind (declaredVariables h) fun _ hs => bind terminator fun _ _ =>
    pure (hs.mono fun _ => .declaredVariables)

theorem statement : GivesNode (statement k) .statement := by
  refine bind place fun _ _ => bind look fun t _ => ?_
  refine bind lookFurther fun _ _ => ite (fun _ => ?_) fun _ => ?_
  · exact declared (definition (functionDeclaration h false))
  split
  · exact declared (definition (classDeclaration h false))
  · exact bind terminator fun _ _ => pure (.pure .emptyStatement)
  · exact (block h).mono fun _ hs => hs.mono fun _ => .blockStatement
  · exact declared (terminatedVariables h)
  · exact declared (terminatedVariables h)
  · exact declared (terminatedVariables h)
  · exact ifStatement h
  · exact forStatement h
  · exact whileStatement h
  · exact doStatement h
  · exact returnStatement h
  · exact throwStatement h
  · exact wordStatement _ fun _ => .breakStatement
  · exact wordStatement _ fun _ => .continueStatement
  · exact tryStatement h
  · exact switchStatement h
  · exact expressionStatement h

/-! ## Imports and exports -/

omit h in
theorem exportName : GivesNode exportName .moduleName := by
  refine bind place fun _ _ => bind look fun t _ => ?_
  split
  · exact stringLiteral.mono fun _ hs => hs.mono fun _ => .literalOfModule
  · exact bind word fun _ _ => pure (.pure (.nameOfModule (.name .named)))
  · exact bind identifier fun _ hn => pure (.pure (.nameOfModule hn))

omit h in
/-- What is imported under its own name is named by an identifier. -/
theorem builds_localNameOf {start : Option Position} {imported : Node}
    (himported : imported.Fits .moduleName) : Builds (localNameOf start imported) (Fits .name) := by
  unfold localNameOf
  split
  case h_1 x hx =>
    refine .ite (fun _ => .error) fun _ => ?_
    cases himported with
    | nameOfModule hname => exact .pure hname
    | literalOfModule hliteral =>
      cases hliteral
      cases hx
  case h_2 => exact .error

omit h in
theorem importSpecifier : GivesNode importSpecifier .importSpecifier := by
  refine bind place fun _ _ => bind exportName fun imported himported => bind taken fun _ _ => ?_
  dsimp only
  refine bindIte (Q := fun renamed => ∀ n ∈ renamed, n.Fits .name)
    (fun _ => identifier.map fun _ => by simp) (fun _ => pure nofun) fun renamed hrenamed => pure ?_
  refine himported.bind fun imported himported => ?_
  cases renamed with
  | none =>
    exact (builds_localNameOf himported).bind fun _ hname =>
      .pure (.importSpecifier hname himported)
  | some name => exact .pure (.importSpecifier (hrenamed name rfl) himported)

omit h in
theorem namespaceImport : Gives namespaceImport (Fits .importSpecifier) :=
  bind place fun _ _ => bind punctuator fun _ _ => bind word fun _ _ => bind identifier fun _ hn =>
    pure (.importNamespaceSpecifier hn)

omit h in
theorem importedNames :
    Gives importedNames (Builds · fun ns => ∀ n ∈ ns, n.Fits .importSpecifier) := by
  refine bind look fun _ _ => ite (fun _ => ?_) fun _ => ?_
  · exact bind namespaceImport fun _ hn => pure (.pure (List.forall_mem_singleton.2 hn))
  · exact bind take.discard fun _ _ =>
      bind (items importSpecifier) fun _ hs => pure (builds_inOrder hs)

omit h in
theorem importClause :
    Gives importClause (Builds · fun ns => ∀ n ∈ ns, n.Fits .importSpecifier) := by
  refine bind place fun _ _ => bind look fun _ _ => ite (fun _ => ?_) fun _ => importedNames
  refine bind identifier fun name hname => ?_
  refine ifTaken (bind importedNames fun names hnames => pure ?_) (pure (.pure ?_))
  · exact hnames.map fun _ hns => List.forall_mem_cons.2 ⟨.importDefaultSpecifier hname, hns⟩
  · exact List.forall_mem_singleton.2 (.importDefaultSpecifier hname)

omit h in
theorem importDeclaration : GivesNode importDeclaration .item := by
  refine bind place fun _ _ => bind word fun _ _ => ?_
  refine bind look fun _ _ => ite (fun _ => ?_) fun _ => ?_
  · refine bind stringLiteral fun source hsource => bind terminator fun _ _ => ?_
    exact pure (hsource.bind fun _ hn => .pure (.importDeclaration nofun hn))
  · refine bind importClause fun clause hclause => bind word fun _ _ => ?_
    refine bind stringLiteral fun source hsource => bind terminator fun _ _ => ?_
    exact pure (hclause.bind fun _ hns =>
      hsource.bind fun _ hn => .pure (.importDeclaration hns hn))

omit h in
theorem exportSpecifier : GivesNode exportSpecifier .exportSpecifier := by
  refine bind place fun _ _ => bind exportName fun name hname => bind taken fun _ _ => ?_
  dsimp only
  refine bindIte (Q := fun s? => ∀ s ∈ s?, Builds s (Fits .moduleName))
    (fun _ => someNode exportName) (fun _ => pure nofun) fun renamed hrenamed => pure ?_
  refine hname.bind fun name hname => ?_
  cases renamed with
  | none => exact .pure (.exportSpecifier hname hname)
  | some s => exact (hrenamed s rfl).bind fun _ hn => .pure (.exportSpecifier hname hn)

omit h in
theorem namedExports (start : Option Position) : GivesNode (namedExports start) .item := by
  refine bind take.discard fun _ _ => bind (items exportSpecifier) fun specifiers hspecifiers => ?_
  refine bind taken fun _ _ => ?_
  dsimp only
  refine bindIte (Q := fun s? => ∀ s ∈ s?, Builds s (Fits .literal))
    (fun _ => someNode stringLiteral) (fun _ => pure nofun) fun source hsource => ?_
  refine bind terminator fun _ _ => pure ((builds_inOrder hspecifiers).bind fun _ hns => ?_)
  exact (builds_part hsource).bind fun _ hsource => .pure (.exportNames hns hsource.2)

omit h in
theorem wholeExport (start : Option Position) : GivesNode (wholeExport start) .item := by
  refine bind punctuator fun _ _ => bind taken fun _ _ => ?_
  dsimp only
  refine bindIte (Q := fun s? => ∀ s ∈ s?, Builds s (Fits .moduleName))
    (fun _ => someNode exportName) (fun _ => pure nofun) fun exported hexported => ?_
  refine bind word fun _ _ => bind stringLiteral fun source hsource => bind terminator fun _ _ => ?_
  refine pure (hsource.bind fun _ hn => (builds_part hexported).bind fun _ hexported => ?_)
  exact .pure (.exportAll hn hexported.2)

theorem defaultExport (start : Option Position) : GivesNode (defaultExport k start) .item := by
  have hrest {p : Parser (Shaped Node)} (hp : GivesNode p .defaultExport) : GivesNode (do
      let declaration ← p
      return do return .mk start (.exportDefaultDeclaration (some (← declaration)))) .item :=
    bind hp fun _ hs => pure (hs.bind fun _ hn => .pure (.exportDefault hn))
  refine bind word fun _ _ => bind look fun _ _ => bind lookFurther fun _ _ => ?_
  dsimp only
  refine ite (fun _ => hrest ?_) fun _ => ite (fun _ => hrest ?_) fun _ => ?_
  · exact (functionDeclaration h true).mono fun _ hs => hs.mono fun _ => .defaultDefinition
  · exact (classDeclaration h true).mono fun _ hs => hs.mono fun _ => .defaultDefinition
  · refine bind (assignment h) fun value hvalue => bind terminator fun _ _ => hrest (pure ?_)
    exact hvalue.mono fun _ => .defaultExpression

theorem exportedDeclaration (start : Option Position) :
    GivesNode (exportedDeclaration k start) .item := by
  have hrest {p : Parser (Shaped Node)} (hp : GivesNode p .declared) : GivesNode (do
      let declaration ← p
      return do return .mk start (.exportNamedDeclaration (some (← declaration)) [] none)) .item :=
    bind hp fun _ hs => pure (hs.bind fun _ hn => .pure (.exportDeclared hn))
  refine bind look fun _ _ => bind look fun _ _ => ?_
  dsimp only
  refine ite (fun _ => ?_) fun _ => ite (fun _ => hrest ?_) fun _ => hrest ?_
  · refine bind (declaredVariables h) fun _ hs => bind terminator fun _ _ => hrest (pure ?_)
    exact hs.mono fun _ => .declaredVariables
  · exact definition (classDeclaration h false)
  · exact definition (functionDeclaration h false)

theorem exportDeclaration : GivesNode (exportDeclaration k) .item := by
  refine bind place fun start _ => bind word fun _ _ => bind look fun t _ => ?_
  split
  · exact defaultExport h start
  · exact namedExports start
  · exact wholeExport start
  · exact exportedDeclaration h start

/-! ## Modules -/

theorem item : GivesNode (item k) .item := by
  have hstatement : GivesNode (Parser.statement k) .item :=
    (statement h).mono fun _ hs => hs.mono fun _ => .statementItem
  refine bind look fun t _ => ?_
  split
  · exact exportDeclaration h
  · exact bind lookFurther fun _ _ => ite (fun _ => hstatement) fun _ => importDeclaration
  · exact hstatement

theorem moduleItems : Gives (moduleItems k) fun ss => ∀ s ∈ ss, Builds s (Fits .item) :=
  bind left fun _ _ => manyUntil (item h)

end

end Parser.Gives

theorem Deeper.gives_within (n : Nat) : (Deeper.within n).Gives := by
  induction n with
  | zero => exact ⟨.fail, .fail, .fail, .fail, .fail, .fail, .fail⟩
  | succ n ih =>
    constructor
    case assignment => exact .assignment ih
    case exponent => exact .bind (.exponent ih) fun _ hoperand => .pure hoperand.node
    case unary => exact .bind (.unary ih) fun _ hoperand => .pure hoperand.node
    case leftHandSide => exact .bind (.leftHandSide ih) fun _ hoperand => .pure hoperand.node
    case construction => exact .construction ih
    case binding => exact .binding ih
    case statement => exact .statement ih

/-- Every module that is read is well formed. -/
theorem Node.fits_ofSource {source : Text} {program : Node} (h : ofSource source = .ok program) :
    program.Fits .module := by
  obtain ⟨ls, ts, items, body, hscan, hts, hrun, hbody, rfl⟩ := ofSource_eq_ok.1 h
  have hspelled : ∀ t ∈ ts, t.Spelled :=
    Terminators.spelled_tokens (Scanner.spelled_of_scans (Scanner.scan_iff.1 hscan)) hts
  obtain ⟨hitems, -⟩ := (Parser.Gives.moduleItems (Deeper.gives_within _)).run hspelled hrun
  exact .program (Parser.Gives.builds_inOrder hitems body hbody)

end ModuleLowering
