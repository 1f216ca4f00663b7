import ModuleLowering.Proofs.KeepingExpressions

set_option autoImplicit false

namespace ModuleLowering

/-- Whether an item exports all of another module as the default of this one. Its `default` is taken
for a label. -/
def Node.exportsAllAsDefault (n : Node) : Bool :=
  match n.form with
  | .exportAllDeclaration _ (some exported) => exported.isNamed "default"
  | _ => false

namespace Parser

/-- Whether an item leaves a label open, as far as it is built. -/
def opensLabel : Shaped Node → Bool
  | .ok n => n.exportsAllAsDefault
  | .error _ => true

namespace Keeps

open Terminators (Opens opens_of_unannounced opens_leftParen opens_head opens_behind_rightParen
  opens_behind_word behind_after behind_after_label behind_after_default behind_after_do
  behind_after_while due_after_while in_after_semicolon finished_after_terminator isPlain divides)

variable {g : Frame} {k : Deeper} (h : k.Keeps) (hg : g.Unannounced)
include h hg

theorem innerExpression : Keeps (·.In g) (innerExpression k) fun _ s => s.Mid g :=
  commaExpression (h.assignment hg)

/-- A parenthesis opens the condition, so what is known of its scope is known behind it. -/
theorem condition {P : Terminators → Prop} {C : Scope → Prop}
    (hopens : Opens P .leftParen .rightParen g C) :
    Keeps P (condition k) fun _ s => s.Past g .rightParen C := by
  refine openHead hopens fun scope hC hscope => ?_
  refine next (innerExpression h (hg.push scope)) fun _ => bind (shut hscope hC) fun _ => ?_
  exact pure fun _ => id

omit h hg in
/-- The head of a statement behind the word that it starts with. -/
theorem opens_headed {w : Word}
    (hw : [Word.kwIf, .kwFor, .kwWhile, .kwSwitch, .kwCatch].contains w = true) :
    Opens (·.Behind g (.word w)) .leftParen .rightParen g (· = .head) := by
  refine opens_head fun s hs => ⟨hs.toIn, ?_⟩
  have hmem : [some (Terminal.word .kwIf), some (.word .kwFor), some (.word .kwWhile),
      some (.word .kwSwitch), some (.word .kwCatch)].contains (some (Terminal.word w)) = true := by
    revert hw
    cases w <;> decide
  simp only [Terminators.afterHeadWord, hs.previous, hmem, Bool.true_or]

/-- A statement behind the head of another one. -/
theorem headed : Keeps (·.Behind g (.punctuator .rightParen)) k.statement fun _ s => s.Done g :=
  (h.statement hg).pre fun _ hs => hs.calm nofun nofun

/-! ## Variables -/

omit h hg in
theorem declaresVariables_plain (t : Terminal) (ht : t.declaresVariables = true) :
    isPlain t = true ∧ divides t = false ∧ t ≠ .terminator := by
  cases t
  case word w => cases w <;> first | exact ⟨rfl, rfl, nofun⟩ | cases ht
  all_goals cases ht

theorem declaratorRest (s : Option Position) (x : Shaped Node) :
    Keeps (·.Mid g) (declaratorRest k s x) fun _ s => s.Mid g := by
  unfold Parser.declaratorRest
  dsimp only
  refine ifMarked rfl rfl ?_ (pureBind (pure fun _ => id))
  exact bind ((h.assignment hg).map (S := fun _ s => s.Mid g) fun _ _ => id) fun _ => pure fun _ => id

theorem declarator : Keeps (·.In g) (declarator k) fun _ s => s.Mid g :=
  bind place fun s => bind (binding h hg.toSound) fun x => declaratorRest h hg s x

theorem declaredVariables : Keeps (·.In g) (declaredVariables k) fun _ s => s.Mid g :=
  next (plain declaresVariables_plain) fun _ => bind (parts (declarator h hg)) fun _ => pure fun _ => id

theorem variableStatement :
    Keeps (·.In g)
      (do
        let declared ← Parser.declaredVariables k
        Parser.terminator
        return declared) fun _ s => s.Finished g :=
  next (declaredVariables h hg) fun _ => bind terminator fun _ => pure fun _ => id

/-! ## Conditions and loops -/

theorem ifStatement : Keeps (·.In g) (ifStatement k) fun _ s => s.Done g := by
  refine bind place fun s => bind (word rfl) fun _ => ?_
  refine bind (condition h hg (opens_headed rfl)) fun x => ?_
  refine bind ((headed h hg).pre fun _ hs => hs.toBehind) fun y => ?_
  dsimp only
  have hcalm : ∀ s : Terminators, s.Done g → (s.after (.word .kwElse)).Calm g := fun _ hs =>
    (behind_after hs.toIn rfl).calm nofun nofun
  refine ifTaken (·.Calm g) rfl hcalm ?_ (pureBind (pure fun _ => id))
  exact bind ((h.statement hg).map (S := fun _ s => s.Done g) fun _ _ => id) fun _ => pure fun _ => id

theorem whileStatement : Keeps (·.Calm g) (whileStatement k) fun _ s => s.Done g := by
  have hwhile : Keeps (·.Calm g) (Parser.word .kwWhile) fun _ s => s.Behind g (.word .kwWhile) :=
    take rfl fun _ hs => behind_after_while hs
  refine bind place fun s => bind hwhile fun _ => ?_
  refine bind (condition h hg (opens_headed rfl)) fun x => ?_
  exact bind ((headed h hg).pre fun _ hs => hs.toBehind) fun y => pure fun _ => id

theorem doStatement : Keeps (·.In g) (doStatement k) fun _ s => s.Finished g := by
  have hdo : Keeps (·.In g) (Parser.word .kwDo) fun _ s => s.Calm g.await :=
    take rfl fun _ hs => (behind_after_do hs).calm nofun nofun
  have hwhile : Keeps (·.Done g.await) (Parser.word .kwWhile) fun _ s => s.Due g :=
    take rfl fun _ hs => due_after_while hs
  refine bind place fun s => bind hdo fun _ => bind (h.statement hg.await) fun x => ?_
  refine bind hwhile fun _ => next (condition h hg opens_leftParen) fun y => ?_
  exact bind terminator fun _ => pure fun _ => id

theorem expressionUnless (stop : Punctuator) :
    Keeps (·.In g) (expressionUnless k stop) fun _ s => s.In g :=
  bind look fun _ => ite (fun _ => pure fun _ => id) fun _ =>
    bind (innerExpression h hg) fun _ => pure fun _ hs => hs.toIn

section

variable {scope : Scope} (hscope : scope.closer = .rightParen)
include hscope

theorem forRest (s : Option Position) (x : Option (Shaped Node)) :
    Keeps (·.In (g.push scope)) (forRest k s x) fun _ s => s.Done g := by
  have hinner := hg.toSound.push scope
  have hsemicolon : Keeps (·.In (g.push scope)) (Parser.punctuator .semicolon)
      fun _ s => s.In (g.push scope) := take rfl fun _ hs => in_after_semicolon hs
  refine bind hsemicolon fun _ => bind (expressionUnless h hinner _) fun _ => ?_
  refine bind hsemicolon fun _ => bind (expressionUnless h hinner _) fun _ => ?_
  exact bind (close hscope) fun _ => bind (headed h hg) fun _ => pure fun _ => id

theorem forInRest (s : Option Position) (x : Shaped Node) :
    Keeps (·.In (g.push scope)) (forInRest k s x) fun _ s => s.Done g := by
  refine next (word rfl) fun _ => next (innerExpression h (hg.toSound.push scope)) fun _ => ?_
  exact bind (close hscope) fun _ => bind (headed h hg) fun _ => pure fun _ => id

theorem forOfRest (s : Option Position) (isAwait : Bool) (x : Shaped Node) :
    Keeps (·.In (g.push scope)) (forOfRest k s isAwait x) fun _ s => s.Done g := by
  refine next (word rfl) fun _ => next (h.assignment (hg.toSound.push scope)) fun _ => ?_
  exact bind (close hscope) fun _ => bind (headed h hg) fun _ => pure fun _ => id

theorem forDeclaring (s : Option Position) (isAwait : Bool) :
    Keeps (·.In (g.push scope)) (forDeclaring k s isAwait) fun _ s => s.Done g := by
  have hinner := hg.toSound.push scope
  refine next (plain declaresVariables_plain) fun kind => bind place fun s' => ?_
  refine bind (binding h hinner.toSound) fun x => ?_
  refine ite (fun _ => (forOfRest h hg hscope s true _).pre fun _ hs => hs.toIn) fun _ => ?_
  refine bind look fun t => ?_
  split
  · exact (forInRest h hg hscope s _).pre fun _ hs => hs.toIn
  · exact (forOfRest h hg hscope s false _).pre fun _ hs => hs.toIn
  · refine bind (declaratorRest h hinner s' x) fun first => bind left fun n => ?_
    exact next (moreParts (declarator h hinner)) fun more => forRest h hg hscope s _

end

theorem forStatement : Keeps (·.In g) (forStatement k) fun _ s => s.Done g := by
  refine bind place fun s => next (word rfl) fun _ => bind (mark rfl rfl) fun isAwait => ?_
  refine openParen fun scope hscope => bind look fun t => ite (fun _ => ?_) fun _ => ?_
  · exact forDeclaring h hg hscope s isAwait
  · exact bind (expressionUnless h (hg.push scope) _) fun x => forRest h hg hscope s x

/-! ## Jumps -/

theorem returnStatement : Keeps (·.In g) (returnStatement k) fun _ s => s.Finished g := by
  refine bind place fun s => next (word rfl) fun _ => ?_
  refine ifTaken (·.Finished g) rfl (fun _ hs => finished_after_terminator hs) (pure fun _ => id) ?_
  exact next (innerExpression h hg) fun _ => bind terminator fun _ => pure fun _ => id

theorem throwStatement : Keeps (·.In g) (throwStatement k) fun _ s => s.Finished g :=
  bind place fun _ => next (word rfl) fun _ => next (innerExpression h hg) fun _ =>
    bind terminator fun _ => pure fun _ => id

omit h hg in
theorem wordStatement {w : Word} (hw : isPlain (.word w) = true) (form : Form Node) :
    Keeps (·.In g) (wordStatement w form) fun _ s => s.Finished g :=
  bind place fun _ => next (word hw) fun _ => bind terminator fun _ => pure fun _ => id

/-! ## `try` and `switch` -/

theorem catchClause :
    Keeps (·.In g) (catchClause k) fun _ s => s.Past g .rightBrace (· = .block) := by
  refine bind place fun s => bind (word rfl) fun _ => ?_
  dsimp only
  refine ifParen (fun scope hscope => ?_) (pureBind ?_)
  · refine next (binding h (hg.push scope).toSound) fun _ => bind (close hscope) fun _ => pureBind ?_
    exact bind (block h (opens_behind_rightParen hg) hg.toSound) fun _ => pure fun _ => id
  · exact bind (block h (opens_behind_word hg rfl) hg.toSound) fun _ => pure fun _ => id

theorem tryStatement : Keeps (·.In g) (tryStatement k) fun _ s => s.Finished g := by
  have hblock {w : Word} (hw : [Word.kwElse, .kwTry, .kwCatch, .kwFinally, .kwDo].contains w = true) :
      Keeps (·.Behind g (.word w)) (Parser.block k) fun _ s => s.Past g .rightBrace (· = .block) :=
    block h (opens_behind_word hg hw) hg.toSound
  have hfinished : ∀ s : Terminators, s.Past g .rightBrace (· = .block) → s.Finished g :=
    fun s hs => hs.finished (by rintro _ rfl; rfl)
  refine bind place fun s => bind (word rfl) fun _ => bind (hblock rfl) fun x => bind look fun t => ?_
  dsimp only
  refine bindIte (fun _ => ((catchClause h hg).pre fun _ hs => hs.toIn).map fun _ _ => id)
    (fun _ => pure fun _ => id) fun handler => ?_
  refine ifTaken (·.Behind g (.word .kwFinally)) rfl (fun _ hs => behind_after hs.toIn rfl) ?_
    (pureBind (pure hfinished))
  exact bind ((hblock rfl).map (S := fun _ s => s.Past g .rightBrace (· = .block)) fun _ _ => id)
    fun _ => pure hfinished

theorem switchCase (hquiet : g.Quiet) : Keeps (·.In g) (switchCase k) fun _ s => s.In g := by
  have hrest : ∀ (s : Option Position) (test : Option (Shaped Node)),
      Keeps (·.In (g.labelled true))
        (do
          Parser.punctuator .colon
          let body ← Parser.manyUntil k.statement endsCase ((← Parser.left) + 1)
          return do
            let test ← test.mapM id
            return Node.mk s (.switchCase test (← inOrder body))) fun _ s => s.In g := fun s test =>
    bind (colon g.label) fun _ => bind left fun n => bind (manyUntil (statements h hg hquiet)) fun _ =>
      pure fun _ => id
  refine bind place fun s => ?_
  dsimp only
  have hdefault : ∀ s : Terminators, s.In g → (s.after (.word .kwDefault)).In (g.labelled true) :=
    fun _ hs => (behind_after_label hs (.inr rfl)).toIn
  refine ifTaken _ rfl hdefault (pureBind (hrest s none)) ?_
  have hcase : Keeps (·.In g) (Parser.word .kwCase) fun _ s => s.In (g.labelled true) :=
    take rfl fun _ hs => (behind_after_label hs (.inl rfl)).toIn
  refine bind hcase fun _ => ?_
  exact bind ((innerExpression h (hg.labelled true)).map
    (S := fun _ s => s.In (g.labelled true)) fun _ _ hs => hs.toIn) (hrest s)

theorem switchStatement : Keeps (·.In g) (switchStatement k) fun _ s => s.Finished g := by
  refine bind place fun s => bind (word rfl) fun _ => ?_
  refine bind ((condition h hg (opens_headed rfl)).post fun _ _ hs => hs.toBehind) fun _ => ?_
  refine openBrace (opens_behind_rightParen hg) fun scope hC hscope => ?_
  have hcase := switchCase h (hg.push scope) (hg.quiet_push scope)
  refine bind (itemsUntil (C := (· = .block)) hscope hC hcase) fun _ => pure fun _ hs => ?_
  exact hs.finished (by rintro _ rfl; rfl)

/-! ## Statements -/

theorem functionDeclaration_finished (nameless : Bool) :
    Keeps (·.In g) (Parser.functionDeclaration k nameless) fun _ s => s.Finished g :=
  (functionDeclaration h hg.toSound nameless).post fun _ _ hs =>
    hs.finished (by rintro _ rfl; rfl)

theorem classDeclaration_finished (nameless : Bool) :
    Keeps (·.In g) (Parser.classDeclaration k nameless) fun _ s => s.Finished g :=
  (classDeclaration h hg.toSound nameless).post fun _ _ hs => hs.finished (by rintro _ rfl; rfl)

theorem expressionStatement : Keeps (·.In g) (expressionStatement k) fun _ s => s.Finished g :=
  bind place fun _ => next (expression h hg) fun _ => bind terminator fun _ => pure fun _ => id

theorem statement : Keeps (·.Calm g) (statement k) fun _ s => s.Done g := by
  have hin : ∀ s : Terminators, s.Calm g → s.In g := fun _ hs => hs.toIn
  have hfinished {p : Parser (Shaped Node)} (hp : Keeps (·.In g) p fun _ s => s.Finished g) :
      Keeps (·.Calm g) p fun _ s => s.Done g := hp.weaken hin fun _ _ hs => hs.toDone
  refine bind place fun s => bind look fun t => bind lookFurther fun u => ite (fun _ => ?_) fun _ => ?_
  · exact hfinished (functionDeclaration_finished h hg false)
  split
  · exact hfinished (classDeclaration_finished h hg false)
  · exact hfinished (bind terminator fun _ => pure fun _ => id)
  · exact (block h (opens_of_unannounced hg) hg.toSound).weaken hin fun _ _ hs => hs.done
  · exact hfinished (variableStatement h hg)
  · exact hfinished (variableStatement h hg)
  · exact hfinished (variableStatement h hg)
  · exact (ifStatement h hg).pre hin
  · exact (forStatement h hg).pre hin
  · exact whileStatement h hg
  · exact hfinished (doStatement h hg)
  · exact hfinished (returnStatement h hg)
  · exact hfinished (throwStatement h hg)
  · exact hfinished (wordStatement rfl _)
  · exact hfinished (wordStatement rfl _)
  · exact hfinished (tryStatement h hg)
  · exact hfinished (switchStatement h hg)
  · exact hfinished (expressionStatement h hg)

/-! ## Names across modules -/

omit h hg

/-- Among specifiers `default` is a name. -/
theorem exportName_specifier : Keeps (·.In (g.push .object)) exportName
    fun _ s => s.Mid (g.push .object) := by
  refine bind place fun s => bind look fun t => ?_
  split
  · exact stringLiteral
  · have hdefault : Keeps (·.In (g.push .object)) (Parser.word .kwDefault)
        fun _ s => s.Mid (g.push .object) := take rfl fun s hs =>
      (behind_after_default hs (.inl (by simp [Terminators.inStatements, hs.scopes, Frame.push,
        Scope.holdsStatements]))).mid nofun
    exact bind hdefault fun _ => pure fun _ => id
  · exact bind identifier fun _ => pure fun _ => id

/-! ## Imports -/

theorem importSpecifier : Keeps (·.In (g.push .object)) importSpecifier
    fun _ s => s.In (g.push .object) := by
  refine bind place fun s => bind exportName_specifier fun x => ?_
  dsimp only
  refine ifMarked rfl rfl ?_ (pureBind (pure fun _ hs => hs.toIn))
  exact bind (identifier.map (S := fun _ s => s.In (g.push .object)) fun _ _ hs => hs.toIn)
    fun _ => pure fun _ => id

theorem namespaceImport : Keeps (·.In g) namespaceImport fun _ s => s.Mid g :=
  bind place fun _ => next (punctuator rfl rfl) fun _ => next (word rfl) fun _ =>
    bind identifier fun _ => pure fun _ => id

theorem importedNames : Keeps (·.In g) importedNames fun _ s => s.In g := by
  refine bind look fun t => ite (fun _ => ?_) fun _ => ?_
  · exact bind namespaceImport fun _ => pure fun _ hs => hs.toIn
  · exact openObject (bind (items rfl importSpecifier) fun _ => pure fun _ hs => hs.toIn)

theorem importClause : Keeps (·.In g) importClause fun _ s => s.In g := by
  refine bind place fun s => bind look fun t => ite (fun _ => ?_) fun _ => importedNames
  refine bind identifier fun name => ?_
  exact ifMarked rfl rfl (bind importedNames fun _ => pure fun _ => id) (pure fun _ hs => hs.toIn)

theorem importDeclaration : Keeps (·.In g) importDeclaration fun _ s => s.Finished g := by
  refine bind place fun s => next (word rfl) fun _ => bind look fun t => ite (fun _ => ?_) fun _ => ?_
  · exact next stringLiteral fun _ => bind terminator fun _ => pure fun _ => id
  · refine bind importClause fun _ => next (g := g) (word rfl) fun _ => ?_
    exact next stringLiteral fun _ => bind terminator fun _ => pure fun _ => id

/-! ## Exports -/

theorem exportSpecifier : Keeps (·.In (g.push .object)) exportSpecifier
    fun _ s => s.In (g.push .object) := by
  refine bind place fun s => bind exportName_specifier fun x => ?_
  dsimp only
  refine ifMarked rfl rfl ?_ (pureBind (pure fun _ hs => hs.toIn))
  exact bind (exportName_specifier.map (S := fun _ s => s.In (g.push .object)) fun _ _ hs => hs.toIn)
    fun _ => pure fun _ => id

theorem namedExports (s : Option Position) :
    Keeps (·.In g) (namedExports s) fun _ s => s.Finished g := by
  refine openObject (next (items rfl exportSpecifier) fun xs => ?_)
  dsimp only
  refine ifMarked rfl rfl ?_ (pureBind (bind terminator fun _ => pure fun _ => id))
  exact next (stringLiteral.map (S := fun _ s => s.Mid g) fun _ _ => id) fun _ =>
    bind terminator fun _ => pure fun _ => id

theorem exportName : Keeps (·.In g) exportName fun x s =>
    s.Mid (g.labelled (g.label || match x with
      | .ok n => n.isNamed "default"
      | .error _ => true)) := by
  refine bind place fun s => bind look fun t => ?_
  split
  · exact stringLiteral.post fun _ _ hs => hs.labelled _
  · have hdefault : Keeps (·.In g) (Parser.word .kwDefault) fun _ s => s.Mid (g.labelled true) :=
      take rfl fun _ hs => (behind_after_label hs (.inr rfl)).mid nofun
    refine bind hdefault fun _ => pure fun s hs => ?_
    simpa [Node.isNamed, Node.name?, Node.form] using hs
  · exact bind identifier fun _ => pure fun _ hs => hs.labelled _

theorem wholeExport (s : Option Position) :
    Keeps (·.In g) (wholeExport s)
      fun x s => s.Finished (g.labelled (g.label || opensLabel x)) := by
  refine next (g := g) (punctuator rfl rfl) fun _ => ?_
  simp only [bind_map_left, pure_bind]
  refine ifMarked rfl rfl (bind exportName fun x => ?_) ?_
  · refine next (g := g.labelled _) ((word rfl).pre fun _ hs => hs.toIn) fun _ => ?_
    refine next (g := g.labelled _) stringLiteral fun source => ?_
    refine bind terminator fun _ => pure fun s hs => ?_
    match source, x with
    | .ok source, .ok n => exact hs
    | .ok source, .error fault => exact hs
    | .error fault, _ => exact hs.relabelled fun _ => by simp [opensLabel, Bind.bind, Except.bind]
  · refine next (g := g) (word rfl) fun _ => next (g := g) stringLiteral fun source => ?_
    exact bind terminator fun _ => pure fun _ hs => hs.labelled _

include h hg

theorem defaultExport (s : Option Position) :
    Keeps (·.Behind g (.word .kwExport)) (defaultExport k s) fun _ s => s.Finished g := by
  have hdefault : Keeps (·.Behind g (.word .kwExport)) (Parser.word .kwDefault) fun _ s => s.In g :=
    take rfl fun _ hs => (behind_after_default hs.toIn (.inr hs.previous)).toIn
  refine bind hdefault fun _ => bind look fun t => bind lookFurther fun u => ?_
  dsimp only
  refine ite (fun _ => ?_) fun _ => ite (fun _ => ?_) fun _ => ?_
  · exact bind (functionDeclaration_finished h hg true) fun _ => pure fun _ => id
  · exact bind (classDeclaration_finished h hg true) fun _ => pure fun _ => id
  · exact next (assignment h hg) fun _ => bind terminator fun _ => pureBind (pure fun _ => id)

theorem exportedDeclaration (s : Option Position) :
    Keeps (·.In g) (exportedDeclaration k s) fun _ s => s.Finished g := by
  refine bind look fun t => bind look fun u => ?_
  dsimp only
  refine ite (fun _ => ?_) fun _ => ite (fun _ => ?_) fun _ => ?_
  · exact next (declaredVariables h hg) fun _ => bind terminator fun _ => pureBind (pure fun _ => id)
  · exact bind (classDeclaration_finished h hg false) fun _ => pure fun _ => id
  · exact bind (functionDeclaration_finished h hg false) fun _ => pure fun _ => id

theorem exportDeclaration : Keeps (·.In g) (exportDeclaration k)
    fun x s => s.Finished (g.labelled (g.label || opensLabel x)) := by
  have hin : ∀ s : Terminators, s.Behind g (.word .kwExport) → s.In g := fun _ hs => hs.toIn
  refine bind place fun s => bind (word rfl) fun _ => bind look fun t => ?_
  split
  · exact (defaultExport h hg s).post fun _ _ hs => hs.labelled _
  · exact (namedExports s).weaken hin fun _ _ hs => hs.labelled _
  · exact (wholeExport s).pre hin
  · exact (exportedDeclaration h hg s).weaken hin fun _ _ hs => hs.labelled _

/-! ## The module -/

theorem item : Keeps (·.Calm g) (item k)
    fun x s => s.Done (g.labelled (g.label || opensLabel x)) := by
  have hin : ∀ s : Terminators, s.Calm g → s.In g := fun _ hs => hs.toIn
  refine bind look fun t => ?_
  split
  · exact (exportDeclaration h hg).weaken hin fun _ _ hs => hs.toDone
  · refine bind lookFurther fun u => ite (fun _ => ?_) fun _ => ?_
    · exact (statement h hg).post fun _ _ hs => hs.labelled _
    · exact importDeclaration.weaken hin fun _ _ hs => hs.toDone.labelled _
  · exact (statement h hg).post fun _ _ hs => hs.labelled _

/-- Items leave the frame as it was, but for the labels that some of them open. -/
theorem manyItems (hquiet : g.Quiet) (n : Nat) (label : Bool) :
    Keeps (·.Settled (g.labelled label)) (Parser.manyUntil (Parser.item k) Option.isNone n)
      fun xs s => s.Settled (g.labelled (label || xs.any opensLabel)) := by
  induction n generalizing label with
  | zero => exact fail
  | succ n ih =>
    refine bind look fun t => ite (fun _ => pure fun s hs => ?_) fun _ => ?_
    · simpa using hs
    have hitem : Keeps (·.Settled (g.labelled label)) (Parser.item k)
        fun x s => s.Settled (g.labelled (label || opensLabel x)) :=
      (item h (hg.labelled label)).weaken (fun _ hs => hs.toIn.calm hquiet) fun _ _ hs => hs.settled
    refine bind hitem fun x => bind (ih (label || opensLabel x)) fun xs => pure fun s hs => ?_
    simpa [Bool.or_assoc] using hs

end Keeps

end Parser

/-- The parsers for what lies deeper keep the frame they start in. -/
theorem Deeper.keeps_within (n : Nat) : (Deeper.within n).Keeps := by
  induction n with
  | zero =>
    exact
      { assignment := fun _ => .fail
        exponent := fun _ => .fail
        unary := fun _ => .fail
        leftHandSide := fun _ => .fail
        construction := fun _ => .fail
        binding := fun _ => .fail
        statement := fun _ => .fail }
  | succ n ih =>
    exact
      { assignment := fun hf => Parser.Keeps.assignment ih hf
        exponent := fun hf => .bind (.exponent ih hf) fun _ => .pure fun _ => id
        unary := fun hf => .bind (.unary ih hf) fun _ => .pure fun _ => id
        leftHandSide := fun hf => .bind (.leftHandSide ih hf) fun _ => .pure fun _ => id
        construction := fun hf => .construction ih hf
        binding := fun hf => .binding ih hf
        statement := fun hf => .statement ih hf }

/-- The items of a module leave nothing open, but for the labels that some of them open. -/
theorem Parser.steps_of_moduleItems {n : Nat} {ts : List Token} {as : List (Shaped Node)}
    (h : (moduleItems (.within n)).run ts = .ok (as, [])) :
    ∃ s', ({} : Terminators).Steps ts s' ∧
      s'.Settled (Frame.outermost.labelled (as.any opensLabel)) := by
  have hstart : ({} : Terminators).Settled (Frame.outermost.labelled false) :=
    ⟨⟨rfl, rfl, rfl, rfl, nofun⟩, .inl rfl⟩
  have hitems := Keeps.manyItems (Deeper.keeps_within n) Frame.unannounced_outermost
    Frame.quiet_outermost (ts.length + 1) false
  obtain ⟨read, s', hread, hsteps, hs'⟩ := hitems.leads hstart h
  rw [List.append_nil] at hread
  rw [hread]
  exact ⟨s', hsteps, hs'⟩

end ModuleLowering
