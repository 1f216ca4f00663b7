import ModuleLowering.Proofs.ReadingAssignments

/-!
# What statements read

The rules for statements read the words of the grammar. A statement that ends with a statement ends
where that one does, and an `else` goes on with the nearest `if`. The words are split where the
statement before an `else` is as long as it can be, as the words of assignments are.
-/

set_option autoImplicit false

namespace ModuleLowering

open Computability

namespace Rule

open Punctuator

/-! ## The words of statements -/

/-- The statements that do not end with a statement. -/
def simpleStmt : List Phrase :=
  [block, varStmt, functionDecl, classDecl, exprStmt, emptyStmt, doWhileStmt, returnStmt, throwStmt,
    breakStmt, continueStmt, tryStmt, switchStmt]

/-- An expression in parentheses. -/
def headCondition : Language Terminal :=
  leftParen.alone * (expression.language * rightParen.alone)

/-- An `if` up to its first branch. -/
def ifHead : Language Terminal := Word.kwIf.alone * headCondition

/-- What comes behind the target of a variable. -/
def declaratorRest : Language Terminal := Punctuator.assign.alone * Rule.assign.language + 1

section

variable (X : Language Terminal)

/-- A `for` with three parts, from its first semicolon on. The statement is a word of `X`, here and
below. -/
def forRestWith : Language Terminal :=
  semicolon.alone * ((expression.language + 1) *
    (semicolon.alone * ((expression.language + 1) * (rightParen.alone * X))))

/-- A `for` over keys, from `in` on. -/
def forInWith : Language Terminal :=
  Word.kwIn.alone * (expression.language * (rightParen.alone * X))

/-- A `for` over items, from `of` on. -/
def forOfWith : Language Terminal :=
  Word.kwOf.alone * (Rule.assign.language * (rightParen.alone * X))

/-- A `for` that declares a variable, from behind its target on. -/
def forDeclaredWith : Language Terminal :=
  forInWith X + (forOfWith X +
    declaratorRest * ((comma.alone * varDeclarator.language)∗ * forRestWith X))

/-- A `for` from its parenthesis on, if `await` does not stand before that. -/
def forPartsWith : Language Terminal :=
  varKind.language * (binding.language * forDeclaredWith X) +
    (expression.language + 1) * forRestWith X

/-- A `for` in each of its forms. -/
def forWith : Language Terminal :=
  Word.kwFor.alone *
    (Word.kwAwait.alone *
        (leftParen.alone * (varKind.language * (binding.language * forOfWith X))) +
      leftParen.alone * forPartsWith X)

/-- The words of loops that end with a statement. -/
def loopWith : Language Terminal := Word.kwWhile.alone * (headCondition * X) + forWith X

/-- The words of statements, the last part of which is a word of `X`; an `if` has two branches. -/
def stmtWith : Language Terminal :=
  (Phrase.choice simpleStmt).language +
    (ifHead * (closedStmt * (Word.kwElse.alone * X)) + loopWith X)

end

theorem language_varDeclarator : varDeclarator.language = binding.language * declaratorRest := by
  simp [language_only (r := varDeclarator) rfl, declaratorRest]

theorem language_varDecl :
    varDecl.language = varKind.language * partsOf varDeclarator.language := by
  simp [language_only (r := varDecl) rfl]

theorem language_forStmt : forStmt.language + (forInStmt.language + forOfStmt.language) =
    forWith stmt.language := by
  have hinit : forInit.language = varDecl.language + expression.language := by
    simp [language_eq forInit, -add_eq_sup]
  simp [language_only (r := forStmt) rfl, language_only (r := forInStmt) rfl,
    language_only (r := forOfStmt) rfl, language_only (r := forTest) rfl,
    language_only (r := forUpdate) rfl, language_only (r := awaitMark) rfl, hinit, language_varDecl,
    partsOf, language_varDeclarator, forWith, forPartsWith, forDeclaredWith, forInWith, forOfWith,
    forRestWith, mul_add, add_mul, mul_assoc, -add_eq_sup]
  abel

theorem language_ifStmt : ifStmt.language =
    ifHead * (stmt.language * (Word.kwElse.alone * stmt.language + 1)) := by
  simp [language_only (r := ifStmt) rfl, ifHead, headCondition, mul_assoc]

theorem language_whileStmt :
    whileStmt.language = Word.kwWhile.alone * (headCondition * stmt.language) := by
  simp [language_only (r := whileStmt) rfl, headCondition, mul_assoc]

theorem language_stmt : stmt.language = (Phrase.choice simpleStmt).language +
    (ifHead * (stmt.language * (Word.kwElse.alone * stmt.language)) + (ifHead * stmt.language +
      loopWith stmt.language)) := by
  conv_lhs => rw [language_eq]
  rw [loopWith, ← language_forStmt]
  simp [simpleStmt, language_ifStmt, language_whileStmt, mul_add, -add_eq_sup]
  abel

/-- A statement before an `else` either does not go on with it, or it takes the branch with it. -/
theorem stmt_else_le {X : Language Terminal} (hX : X ≤ stmt.language) :
    stmt.language * (Word.kwElse.alone * X) ≤
      stmt.language + closedStmt * (Word.kwElse.alone * X) := by
  have helse : anyOf [Terminal.word .kwElse].contains = Word.kwElse.alone := by
    simp [anyOf_contains]
  rw [← helse]
  exact mul_goesOn_le hX

theorem stmt_le : stmt.language ≤ ifHead * stmt.language + stmtWith stmt.language := by
  conv_lhs => rw [language_stmt]
  have hbranches : ifHead * (stmt.language * (Word.kwElse.alone * stmt.language)) ≤
      ifHead * stmt.language + ifHead * (closedStmt * (Word.kwElse.alone * stmt.language)) := by
    rw [← mul_add]
    exact mul_le_mul_right (stmt_else_le le_rfl) _
  refine add_le (le_self_add.trans le_add_self)
    (add_le (hbranches.trans ?_) (add_le le_self_add ?_))
  · exact add_le_add le_rfl (le_self_add.trans le_add_self)
  · exact le_add_self.trans (le_add_self.trans le_add_self)

end Rule

namespace Parser

/-- What comes behind the statements of a `case`. -/
def endingCase : List Terminal := [.word .kwCase, .word .kwDefault, .punctuator .rightBrace]

theorem endsCase_eq (o : Option Terminal) :
    endsCase o = (o.map endingCase.contains).getD false := by
  cases o with
  | none => rfl
  | some t => simp [endsCase, endingCase]

namespace Reads

open Rule Follow

variable {n : ℕ} {k : Deeper} {F G : Follow} (h : k.Reads n)
include h

/-! ## Expressions and variables -/

theorem condition : Reads (n + 1) .any (condition k) headCondition := by
  refine .step (.bindOpen (innerExpression h) (fun test => .map (.punctuator _)) ?_)
  exact .alone fun v _ => among_cons (by decide)

theorem expressionUnless {p : Punctuator} (hp : .punctuator p ∈ afterExpression) :
    Reads n (.among [.punctuator p]) (expressionUnless k p) (Rule.expression.language + 1) := by
  refine of_eq (.lookIf (c := (· = some (.punctuator p))) (.pure none)
    (.map ((innerExpression h).before fun v hv => hv.mono ?_)) ?_ ?_) (add_comm _ _)
  · simpa using hp
  · refine .one ?_
    rintro _ ⟨t, v, rfl, ht⟩
    simpa using ht
  · have hnone : ∀ t ∈ afterExpression, t.startsExpression = false := by decide
    exact .of_begins (begins_expression.firsts.head_ne (hnone _ hp))

omit h in
theorem declaringWord : Reads n F declaringWord varKind.language := by
  rw [language_varKind]
  exact takeIf _

theorem declaratorRest (s : Option Position) (target : Shaped Node) :
    Reads (n + 1) (.among afterAssignment) (declaratorRest k s target) Rule.declaratorRest :=
  .ifTaken (.map (.fmap h.assignment)) (.pureBind (.pure _))
    (.one fun _ hv => hv.without (by decide))

theorem declarator : Reads (n + 1) (.among afterAssignment) (declarator k)
    varDeclarator.language := by
  rw [language_varDeclarator]
  exact .place fun s => .bind (binding h) fun target => declaratorRest h s target

theorem declaredVariables : Reads (n + 1) (.among afterExpression) (declaredVariables k)
    varDecl.language := by
  rw [language_varDecl]
  exact .bind declaringWord fun kind => .map (parts (declarator h) (fun v => among_cons (by decide))
    (fun v hv => hv.mono (by decide)) fun v hv => hv.without (by decide))

/-! ## Statements that do not end with a statement -/

theorem doStatement : Reads (n + 1) .any (doStatement k) doWhileStmt.language := by
  refine of_eq (.place fun s => .step (.bindOpen h.statement (fun body => .bind (.word _) fun _ =>
    .bind ((condition h).mono (Nat.le_succ n)) fun test => .map .terminator)
      (.front fun v => ?_))) ?_
  · exact without_cons (by decide)
  · simp [language_only (r := doWhileStmt) rfl, headCondition, mul_assoc]

theorem returnStatement : Reads (n + 1) .any (returnStatement k) returnStmt.language := by
  refine of_eq (.place fun s => .step (.ifTaken (.pure _) (.bindOpen (innerExpression h)
    (fun value => .map .terminator) (.alone fun v _ => among_cons (by decide)))
      (begins_expression.firsts.without (by decide)).leads)) ?_
  simp [language_only (r := returnStmt) rfl, add_mul, -add_eq_sup, add_comm]

theorem throwStatement : Reads (n + 1) .any (throwStatement k) throwStmt.language := by
  refine of_eq (.place fun s => .step (.bindOpen (innerExpression h) (fun value =>
    .map .terminator) (.alone fun v _ => among_cons (by decide)))) ?_
  simp [language_only (r := throwStmt) rfl]

omit h in
theorem wordStatement (w : Word) (form : Form Node) : Reads n F (wordStatement w form)
    (w.alone * Terminal.terminator.alone) :=
  .place fun _ => .step (.map .terminator)

theorem expressionStatement : Reads (n + 1) .any (expressionStatement k) exprStmt.language := by
  refine of_eq (.place fun s => .bindOpen (expression h) (fun e => .map .terminator)
    (.alone fun v _ => among_cons (by decide))) ?_
  simp [language_only (r := exprStmt) rfl]

theorem variableStatement : Reads (n + 1) .any (do
    let declared ← Parser.declaredVariables k
    Parser.terminator
    return declared) varStmt.language := by
  refine of_eq (.bindOpen (declaredVariables h) (fun declared => .map .terminator)
    (.alone fun v _ => among_cons (by decide))) ?_
  simp [language_only (r := varStmt) rfl]

/-! ### Errors and cases -/

theorem catchClause : Reads (n + 1) .any (catchClause k) Rule.catchClause.language := by
  refine of_eq (.place fun s => .step (.ifTaken (.bind (.mono (binding h) (by omega)) fun param =>
    .bind (.punctuator _) fun _ => .pureBind (.map (.mono (block h) (by omega))))
    (.pureBind (.map (.mono (block h) (by omega))))
    (.of_begins (.terminal rfl fun v => without_cons (by decide))))) ?_
  simp [language_only (r := Rule.catchClause) rfl, add_mul, mul_assoc, -add_eq_sup]

theorem tryStatement : Reads (n + 1) (.without prolonging.tail) (tryStatement k)
    tryStmt.language := by
  have hfinally {g : Option (Shaped Node) → Shaped Node} :
      Reads n (.without prolonging.tail) (do
        let finalizer ← if ← Parser.taken (.word .kwFinally) then some <$> Parser.block k
          else Pure.pure none
        return g finalizer) (finallyClause.language + 1) := by
    refine of_eq (.ifTaken (.map (.fmap ((block h).anywhere (by omega)))) (.pureBind (.pure _))
      (.one fun v hv => hv.mono (by decide))) ?_
    simp [language_only (r := finallyClause) rfl]
  refine of_eq (.place fun s => .step (.bind (.mono (block h) (by omega)) fun body =>
    .lookIf (c := (· = some (.word .kwCatch))) (.bind (.fmap (.mono (catchClause h) (by omega)))
      fun handler => hfinally) (.pureBind hfinally) ?_ ?_)) ?_
  · exact Begins.leads (.terminal rfl fun _ => rfl)
  · exact .add (.of_begins (.terminal rfl fun _ => nofun))
      (.one fun v hv => hv (.word .kwCatch) (by decide))
  · simp [language_only (r := tryStmt) rfl, add_mul, mul_add, -add_eq_sup]
    abel

theorem switchCase :
    Reads (n + 1) (.among endingCase) (switchCase k) Rule.switchCase.language := by
  have hbody {g : List (Shaped Node) → Shaped Node} : Reads n (.among endingCase) (do
        Parser.punctuator .colon
        let body ← Parser.manyUntil k.statement endsCase ((← Parser.left) + 1)
        return g body) (Punctuator.colon.alone * stmt.language∗) := by
    refine .bind (.punctuator _) fun _ => .left fun m => .map (manyUntil
      (h.statement.mono (Nat.min_le_left _ _)) ?_ ?_ begins_stmt.one_le_length
        (Nat.min_le_right _ _))
    · refine begins_stmt.firsts.mono fun v hv => ⟨hv.without (by decide), ?_⟩
      rw [endsCase_eq]
      have hstop : Follow.without endingCase v := hv.without (by decide)
      exact Bool.eq_false_iff.2 (hstop.not_starts fun t => List.contains_iff_mem.1)
    · intro v hv
      rw [endsCase_eq]
      exact ⟨hv.without (by decide), starts_iff.1 hv⟩
  refine of_eq (.place fun s => .ifTaken (.pureBind hbody) (.step (.bindOpen
    (.fmap (innerExpression h)) (fun test => hbody) (.front fun v => among_cons (by decide))))
    (.front fun v => without_cons (by decide))) ?_
  simp [language_eq Rule.switchCase, language_only (r := caseClause) rfl,
    language_only (r := defaultClause) rfl, -add_eq_sup, add_comm]

theorem switchStatement : Reads (n + 1) .any (switchStatement k) switchStmt.language := by
  have hcase : Begins Rule.switchCase.language (.among [.word .kwCase, .word .kwDefault]) :=
    .rule ⟨.terminal rfl fun v => among_cons (by decide),
      .terminal rfl fun v => among_cons (by decide)⟩
  refine of_eq (.place fun s => .bind (.word _) fun _ => .bind (condition h) fun discriminant =>
    .bind (.punctuator _) fun _ => .map (itemsUntil (switchCase h) ?_ ?_ hcase.one_le_length)) ?_
  · exact hcase.mono fun v hv => ⟨hv.mono (by decide), hv.head_ne (by decide)⟩
  · exact fun v => among_cons (by decide)
  · simp [language_only (r := switchStmt) rfl, headCondition, mul_assoc]

/-! ## Statements that end with a statement -/

theorem moreDeclarators {m fuel : ℕ} (hm : m ≤ n + 1) (hfuel : m ≤ fuel) :
    Reads m (.among [.punctuator .semicolon]) (Parser.moreParts (Parser.declarator k) fuel)
      (Punctuator.comma.alone * varDeclarator.language)∗ :=
  moreParts ((declarator h).mono hm) (fun _ => among_cons (by decide))
    (fun _ hv => hv.mono (by decide)) (fun _ hv => hv.without (by decide)) hfuel

theorem forRestSound (s : Option Position) (init : Option (Shaped Node)) :
    Sound (forRest k s init) (forRestWith stmt.language) :=
  .step (.bind (expressionUnless h (by decide)).sound fun _ => .step
    (.bind (expressionUnless h (by decide)).sound fun _ => .step (.map h.statement.sound)))

theorem forInSound (s : Option Position) (declared : Shaped Node) :
    Sound (forInRest k s declared) (forInWith stmt.language) :=
  .step (.bind (innerExpression h).sound fun _ => .step (.map h.statement.sound))

theorem forOfSound (s : Option Position) (isAwait : Bool) (declared : Shaped Node) :
    Sound (forOfRest k s isAwait declared) (forOfWith stmt.language) :=
  .step (.bind h.assignment.sound fun _ => .step (.map h.statement.sound))

theorem forAwaitSound (s : Option Position) : Sound (forDeclaring k s true)
    (varKind.language * (Rule.binding.language * forOfWith stmt.language)) :=
  .bind (.of_reads declaringWord) fun _ => .place fun _ => .bind (binding h).sound fun _ =>
    forOfSound h s true _

theorem forDeclaringSound (s : Option Position) : Sound (forDeclaring k s false)
    (varKind.language * (Rule.binding.language * forDeclaredWith stmt.language)) := by
  refine .bind (.of_reads declaringWord) fun kind => .place fun s' => .bind (binding h).sound
    fun target => .look fun o => ?_
  split
  · exact (forInSound h s _).mono le_self_add
  · exact (forOfSound h s false _).mono (le_self_add.trans le_add_self)
  · refine Sound.mono ?_ (le_add_self.trans le_add_self)
    exact .bind (declaratorRest h s' target).sound fun first => .left fun m =>
      .bind (moreDeclarators h (Nat.zero_le _) (Nat.zero_le _)).sound fun more => forRestSound h s _

theorem forSound : Sound (forStatement k) (forWith stmt.language) := by
  refine .place fun s => .step (.takenBind (.step (.look fun o => ?_)) (.step (.look fun o => ?_)))
  · exact forAwaitSound h s
  · exact .ite (fun _ => (forDeclaringSound h s).mono le_self_add) fun _ =>
      (Sound.bind (expressionUnless h (by decide)).sound fun init =>
        forRestSound h s init).mono le_add_self

theorem ifSound : Sound (ifStatement k) ifStmt.language := by
  rw [language_ifStmt, ifHead, mul_assoc]
  exact .place fun s => .step (.bind (condition h).sound fun test =>
    .bind h.statement.sound fun consequent =>
      .ifTaken (.map (.fmap h.statement.sound)) (.pureBind (.pure _)))

theorem whileSound : Sound (whileStatement k) whileStmt.language := by
  rw [language_whileStmt]
  exact .place fun _ => .step (.bind (condition h).sound fun _ => .map h.statement.sound)

section

variable {X : Language Terminal} (hX : Complete n G k.statement X)
include hX

theorem forRest (s : Option Position) (init : Option (Shaped Node)) :
    Complete (n + 1) G (forRest k s init) (forRestWith X) := by
  have hbody : Complete (n - 1) G k.statement X := hX.shorter (Nat.sub_le n 1)
  have hstop {M : Language Terminal} {p : Punctuator} :
      Leads (p.alone * M) G (.among [.punctuator p]) :=
    .front fun v => among_cons List.mem_cons_self
  refine .step (.bind (expressionUnless h (by decide)).complete (fun test => .step ?_) hstop)
  exact .bind ((expressionUnless h (by decide)).mono (Nat.sub_le n 1)).complete
    (fun step => .step (.map (hbody.shorter (by omega)))) hstop

theorem forIn (s : Option Position) (declared : Shaped Node) :
    Complete (n + 1) G (forInRest k s declared) (forInWith X) :=
  .step (.bind (innerExpression h).complete
    (fun _ => .step (.map (hX.shorter (Nat.sub_le n 1)))) (.front fun _ => among_cons (by decide)))

theorem forOf (s : Option Position) (isAwait : Bool) (declared : Shaped Node) :
    Complete (n + 1) G (forOfRest k s isAwait declared) (forOfWith X) :=
  .step (.bind h.assignment.complete
    (fun _ => .step (.map (hX.shorter (Nat.sub_le n 1)))) (.front fun _ => among_cons (by decide)))

theorem forAwait (s : Option Position) : Complete (n + 1) G (forDeclaring k s true)
    (varKind.language * (Rule.binding.language * forOfWith X)) :=
  .bind declaringWord.complete (fun _ => .place fun _ => .bind (binding h).complete (fun _ =>
    forOf h hX s true _) .any) .any

theorem forDeclared (s : Option Position) : Complete (n + 1) G (forDeclaring k s false)
    (varKind.language * (Rule.binding.language * forDeclaredWith X)) := by
  have hmore : Leads ((Punctuator.comma.alone * varDeclarator.language)∗ * forRestWith X) G
      (.among [.punctuator .comma, .punctuator .semicolon]) :=
    .mul (H := .among [.punctuator .semicolon]) (leads_comma_kstar (fun v => among_cons (by decide))
      fun v hv => hv.mono (by decide)) (.front fun v => among_cons (by decide))
  have hrest : Leads (Rule.declaratorRest * ((Punctuator.comma.alone * varDeclarator.language)∗ *
      forRestWith X)) G (.without [.word .kwIn, .word .kwOf]) := by
    rw [Rule.declaratorRest, add_mul, one_mul, mul_assoc]
    exact .add (.front fun v => without_cons (by decide))
      (hmore.mono fun v hv => hv.without (by decide))
  refine .bind declaringWord.complete (fun kind => .place fun s' => .bind (binding h).complete
    (fun target => .add ?_ (.add ?_ ?_)) .any) .any
  -- Neither `in` nor `of` may come behind the target of a variable that has a value.
  · exact .lookAt (.word .kwIn) (.mul (.alone fun _ => rfl)) (forIn h hX s _)
  · exact .lookAt (.word .kwOf) (.mul (.alone fun _ => rfl)) (forOf h hX s false _)
  · refine .look (P := fun o => ∀ t ∈ [Terminal.word .kwIn, .word .kwOf], o ≠ some t) hrest
      fun o ho => ?_
    split
    · exact absurd rfl (ho (.word .kwIn) (by decide))
    · exact absurd rfl (ho (.word .kwOf) (by decide))
    · exact .bind (declaratorRest h s' target).complete (fun first => .left fun m => .bind
        (moreDeclarators h (Nat.min_le_left _ _) (Nat.min_le_right _ _)).complete
        (fun more => (forRest h hX s _).shorter (Nat.min_le_left _ _))
        (.front fun v => among_cons (by decide))) (hmore.mono fun v hv => hv.mono (by decide))

theorem forStatement : Complete (n + 1) G (forStatement k) (forWith X) := by
  refine .place fun s => .step (.takenBind (.step ?_) (.step ?_)
    (.front fun v => without_cons (by decide)))
  · exact .look (P := fun _ => True) (fun _ _ _ _ => trivial) fun o _ =>
      (forAwait h hX s).shorter (by omega)
  · refine .lookIf (c := fun o => (false || (o.map Terminal.declaresVariables).getD false) = true)
      ((forDeclared h hX s).shorter (by omega)) (.bind
        ((expressionUnless h (by decide)).mono (by omega)).complete
        (fun init => (forRest h hX s init).shorter (by omega))
        (.front fun v => among_cons (by decide))) ?_ ?_
    · rw [language_varKind]
      exact Begins.leads (.anyOf fun _ _ ht => ht)
    · rw [add_mul, one_mul]
      refine .add (begins_expression.firsts.leads.mono fun v hv => ?_)
        (.front fun v => Bool.false_ne_true)
      have hnone : Follow.without Terminal.declaring v := hv.without (by decide)
      exact hnone.not_starts fun t => Terminal.declaresVariables_iff.1

theorem whileStatement : Complete (n + 1) G (whileStatement k)
    (Word.kwWhile.alone * (headCondition * X)) :=
  .place fun _ => .step (.bind ((condition h).complete.shorter (Nat.le_succ n))
    (fun _ => .map hX) .any)

/-- An `if` with two branches, the first of which no `else` goes on with. -/
theorem ifBranches : Complete (n + 1) G (ifStatement k)
    (ifHead * (closedStmt * (Word.kwElse.alone * X))) := by
  have hnone {p : Parser (Shaped Node)} : Complete n G p 0 := ⟨fun hpre => hpre.elim⟩
  rw [ifHead, mul_assoc, ← add_zero (Word.kwElse.alone * X)]
  refine .place fun s => .step (.bind ((condition h).complete.shorter (Nat.le_succ n))
    (fun test => .bind h.closedStatement (fun consequent => .ifTaken
      (.map (.fmap (hX.shorter (Nat.sub_le n 1)))) hnone .zero) ?_) .any)
  exact .add (.front fun v => without_cons (by decide)) .zero

end

/-- An `if` with one branch. -/
theorem ifAlone : Complete (n + 1) (.without prolonging) (ifStatement k)
    (ifHead * stmt.language) := by
  have hbranch {g : Option (Shaped Node) → Shaped Node} : Complete n (.without prolonging) (do
      let alternate ← if ← Parser.taken (.word .kwElse) then some <$> k.statement
        else Pure.pure none
      return g alternate) 1 := by
    refine .mono (.ifTaken (L := 0) ⟨fun hpre => hpre.elim⟩ (.pureBind (.pure _))
      (.one fun v hv => hv.mono (by decide))) le_rfl le_add_self fun _ => id
  rw [ifHead, mul_assoc, ← mul_one stmt.language]
  exact .place fun s => .step (.bind ((condition h).complete.shorter (Nat.le_succ n))
    (fun test => .bind h.statement.complete (fun consequent => hbranch) (.one fun _ => id)) .any)

/-! ## Statements -/

omit h in
theorem emptyStatement {a : Shaped Node} : Reads n F (do
    Parser.terminator
    return a) emptyStmt.language := by
  rw [language_only (r := emptyStmt) rfl, Phrase.language_one]
  exact .map .terminator

omit h in
/-- A declared function starts with what `startsFunction` looks for. -/
theorem startsFunction_of {r : Rule} {ps : List Phrase} (hr : r.alternatives =
    [.seq (.optional [.rule asyncMark] :: .one .functionDeclaration :: ps)]) :
    Begins r.language fun v => startsFunction v.head? v.tail.head? = true := by
  have hmark : asyncMark.language = Word.kwAsync.alone := by
    rw [language_only (r := asyncMark) rfl, Phrase.language_one, Terminal.alone_word]
  rw [language_only hr, Phrase.language_seq_cons, Phrase.language_optional,
    Phrase.language_seq_cons, Phrase.language_seq_cons, Phrase.language_seq_nil, mul_one,
    Phrase.language_rule, hmark, Phrase.language_one]
  refine Leads.mul (H := fun v => v.head? = some .functionDeclaration)
    (.add (.alone fun v hv => ?_) (.one fun v hv => ?_)) (.mul (.alone fun _ _ => rfl) .any)
  · simp [startsFunction, hv]
  · simp [startsFunction, hv]

omit h in
/-- What an expression starts with is not what a declared function starts with. -/
theorem not_startsFunction {t : Terminal} {next : Option Terminal}
    (ht : opening Terminal.startsExpression (· ≠ some .functionDeclaration) t next = true) :
    ¬startsFunction (some t) next = true := by
  simp only [opening, Bool.and_eq_true, Bool.or_eq_true, decide_eq_true_eq] at ht
  obtain ⟨⟨hfirst, hasync⟩, _⟩ := ht
  simp only [startsFunction, Bool.or_eq_true, Bool.and_eq_true, decide_eq_true_eq,
    Option.some.injEq]
  rintro (rfl | ⟨rfl, hnext⟩)
  · cases hfirst
  · exact hasync.elim (· rfl) (· hnext)

theorem statementSound : Sound (statement k) stmt.language := by
  have hword {r : Rule} {w : Word} {form : Form Node}
      (hr : r.alternatives = [.seq [.one (.word w), .one .terminator]]) :
      Sound (Parser.wordStatement w form) r.language := by
    rw [language_only hr]
    simpa using Sound.of_reads (wordStatement w form)
  refine .place fun s => .look fun first => .lookFurther fun next => .ite (fun _ => ?_) fun _ => ?_
  · exact (functionDeclaration h).sound.rule (q := functionDecl) (by simp)
  split
  · exact (classDeclaration h).sound.rule (q := classDecl) (by simp)
  · exact (Sound.of_reads emptyStatement).rule (q := emptyStmt) (by simp)
  · exact (block h).sound.rule (q := Rule.block) (by simp)
  · exact (variableStatement h).sound.rule (q := varStmt) (by simp)
  · exact (variableStatement h).sound.rule (q := varStmt) (by simp)
  · exact (variableStatement h).sound.rule (q := varStmt) (by simp)
  · exact (ifSound h).rule (q := ifStmt) (by simp)
  · refine (forSound h).mono ?_
    rw [← language_forStmt]
    exact add_le (language_le (r := stmt) (p := forStmt) (by simp))
      (add_le (language_le (r := stmt) (p := forInStmt) (by simp))
        (language_le (r := stmt) (p := forOfStmt) (by simp)))
  · exact (whileSound h).rule (q := whileStmt) (by simp)
  · exact (doStatement h).sound.rule (q := doWhileStmt) (by simp)
  · exact (returnStatement h).sound.rule (q := returnStmt) (by simp)
  · exact (throwStatement h).sound.rule (q := throwStmt) (by simp)
  · exact (hword rfl).rule (q := breakStmt) (by simp)
  · exact (hword rfl).rule (q := continueStmt) (by simp)
  · exact (tryStatement h).sound.rule (q := tryStmt) (by simp)
  · exact (switchStatement h).sound.rule (q := switchStmt) (by simp)
  · exact (expressionStatement h).sound.rule (q := exprStmt) (by simp)

/-- The statements that do not end with a statement are read, as the first terminals tell. -/
theorem simpleComplete : Complete (n + 1) (.without prolonging.tail) (statement k)
    (Phrase.choice simpleStmt).language := by
  have hword {r : Rule} {w : Word} {form : Form Node}
      (hr : r.alternatives = [.seq [.one (.word w), .one .terminator]]) :
      Complete (n + 1) (.without prolonging.tail) (Parser.wordStatement w form) r.language := by
    rw [language_only hr]
    simpa using (wordStatement w form).complete
  refine .place fun s => .choice ⟨?block, ?vars, ?function, ?type, ?expression, ?empty, ?loop,
    ?value, ?error, ?leave, ?next, ?handler, ?cases⟩
  case block =>
    exact .lookFirst (.punctuator .leftBrace) (.terminal rfl fun _ => rfl) fun _ =>
      ((block h).anywhere le_rfl).complete
  case vars =>
    have hread := ((variableStatement h).anywhere (F := .without prolonging.tail) le_rfl).complete
    refine .lookBoth (P := fun o _ => ∃ t ∈ Terminal.declaring, o = some t)
      (.of_begins (.front rfl (begins_varDecl fun t ht v => ⟨t, ht, rfl⟩))) ?_
    rintro _ next ⟨t, ht, rfl⟩
    simp only [Terminal.declaring, List.mem_cons, List.not_mem_nil, or_false] at ht
    obtain rfl | rfl | rfl := ht
    · exact hread
    · exact hread
    · exact hread
  case function =>
    refine .lookBoth (P := fun o next => startsFunction o next = true)
      (.of_begins (startsFunction_of rfl)) fun o next ho => ?_
    rw [if_pos ho]
    exact ((functionDeclaration h).anywhere le_rfl).complete
  case type =>
    exact .lookFirst .classDeclaration (.terminal rfl fun _ => rfl) fun _ =>
      ((classDeclaration h).anywhere le_rfl).complete
  case expression =>
    refine .lookOpens (.of_begins (.front rfl begins_expression)) fun t next ht => ?_
    have hfirst : t.startsExpression = true := by
      simp only [opening, Bool.and_eq_true] at ht
      exact ht.1.1
    rw [if_neg (not_startsFunction ht)]
    split
    case h_17 => exact ((expressionStatement h).anywhere le_rfl).complete
    all_goals
      rename_i heq
      cases heq
      cases hfirst
  case empty =>
    exact .lookFirst .terminator (.only rfl fun _ => rfl) fun _ =>
      emptyStatement.complete
  case loop =>
    exact .lookFirst (.word .kwDo) (.terminal rfl fun _ => rfl) fun _ =>
      ((doStatement h).anywhere le_rfl).complete
  case value =>
    exact .lookFirst (.word .kwReturn) (.terminal rfl fun _ => rfl) fun _ =>
      ((returnStatement h).anywhere le_rfl).complete
  case error =>
    exact .lookFirst (.word .kwThrow) (.terminal rfl fun _ => rfl) fun _ =>
      ((throwStatement h).anywhere le_rfl).complete
  case leave =>
    exact .lookFirst (.word .kwBreak) (.terminal rfl fun _ => rfl) fun _ => hword rfl
  case next =>
    exact .lookFirst (.word .kwContinue) (.terminal rfl fun _ => rfl) fun _ => hword rfl
  case handler =>
    exact .lookFirst (.word .kwTry) (.terminal rfl fun _ => rfl) fun _ => (tryStatement h).complete
  case cases =>
    exact .lookFirst (.word .kwSwitch) (.terminal rfl fun _ => rfl) fun _ =>
      ((switchStatement h).anywhere le_rfl).complete

/-- A statement is read where its last part is. -/
theorem statementComplete {X : Language Terminal} (hX : Complete n G k.statement X)
    (hG : ∀ v, G v → Follow.without prolonging.tail v) :
    Complete (n + 1) G (statement k) (stmtWith X) := by
  refine .add ((simpleComplete h).mono le_rfl le_rfl hG) (.place fun s => .add ?_ (.add ?_ ?_))
  · exact .lookFirst (.word .kwIf) (.mul (.mul (.alone fun _ => rfl))) fun _ => ifBranches h hX
  · exact .lookFirst (.word .kwWhile) (.mul (.alone fun _ => rfl)) fun _ => whileStatement h hX
  · exact .lookFirst (.word .kwFor) (.mul (.alone fun _ => rfl)) fun _ => forStatement h hX

theorem statement : Reads (n + 1) (.without prolonging) (statement k) stmt.language where
  sound := statementSound h
  complete := by
    refine .mono (.add (.place fun s => ?_) (statementComplete h h.statement.complete fun v hv =>
      hv.mono (by decide))) le_rfl stmt_le fun _ => id
    exact .lookFirst (.word .kwIf) (.mul (.mul (.alone fun _ => rfl))) fun _ => ifAlone h

end Reads

end Parser

end ModuleLowering
