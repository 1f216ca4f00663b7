import ModuleLowering.Proofs.Equations

/-!
# What words begin with

The terminals that the words of a rule begin with. A parser decides by the next terminal what to
read, and by the one behind it where the next one is `async` or `import`.
-/

set_option autoImplicit false

namespace ModuleLowering

open Computability

namespace Terminal

theorem isName_iff {t : Terminal} : t.isName = true ↔ t ∈ names := by
  rw [isName_eq, List.contains_iff_mem]

theorem declaresVariables_iff {t : Terminal} : t.declaresVariables = true ↔ t ∈ declaring := by
  rw [declaresVariables_eq, List.contains_iff_mem]

/-- What an operand starts with. -/
def startsOperand (t : Terminal) : Bool := t.startsExpression && t ≠ .word .kwYield

/-- What an operand without an operator of one operand before it starts with, counting ones not
included. -/
def startsUpdate (t : Terminal) : Bool :=
  t.startsOperand && t ≠ .word .kwAwait && !t.isUnaryOperator

/-- What an operand without any operator before it starts with. -/
def startsLeftHandSide (t : Terminal) : Bool := t.startsUpdate && !t.isUpdateOperator

/-- What a primary expression starts with that does not start with `new`. -/
def startsPrimary (t : Terminal) : Bool := t.startsLeftHandSide && t ≠ .word .kwNew

/-- What a statement starts with. -/
def startsStatement (t : Terminal) : Bool :=
  t.startsExpression || [Terminal.punctuator .leftBrace, .functionDeclaration, .classDeclaration,
    .terminator, .word .kwVar, .word .kwLet, .word .kwConst, .word .kwIf, .word .kwFor,
    .word .kwWhile, .word .kwDo, .word .kwReturn, .word .kwThrow, .word .kwBreak, .word .kwContinue,
    .word .kwTry, .word .kwSwitch].contains t

/-- What a name, an array or an object starts with. -/
def startsBinding (t : Terminal) : Bool :=
  t.isName || [Terminal.punctuator .leftBracket, .objectBrace].contains t

end Terminal

/-- A terminal that something starts with; `async` and `import` also say what comes next. -/
def opening (first : Terminal → Bool) (behindAsync : Option Terminal → Bool) (t : Terminal)
    (next : Option Terminal) : Bool :=
  first t && (t ≠ .word .kwAsync || behindAsync next) &&
    (t ≠ .word .kwImport || Parser.importsInExpression next)

namespace Follow

/-- What starts with such a terminal. -/
abbrev opened (first : Terminal → Bool) (behindAsync : Option Terminal → Bool) : Follow :=
  opens (opening first behindAsync)

variable {f g : Terminal → Bool} {a b : Option Terminal → Bool} {t : Terminal} {v : List Terminal}

theorem opened_cons (h : (f t && t ≠ .word .kwAsync && t ≠ .word .kwImport) = true) :
    opened f a (t :: v) := by
  rw [Bool.and_eq_true, Bool.and_eq_true] at h
  obtain ⟨⟨hfirst, hasync⟩, himport⟩ := h
  refine opens_cons.2 ?_
  rw [opening, hfirst, hasync, himport]
  rfl

theorem opened.first (h : opened f a v) : starts f v := by
  refine h.mono fun t next ht => ?_
  rw [opening, Bool.and_eq_true, Bool.and_eq_true] at ht
  exact ht.1.1

theorem opened.mono (h : opened f a v) (hfg : ∀ t, f t = true → g t = true)
    (hab : ∀ o, a o = true → b o = true) : opened g b v := by
  refine opens.mono h fun t next ht => ?_
  simp only [opening, Bool.and_eq_true, Bool.or_eq_true] at ht ⊢
  exact ⟨⟨hfg t ht.1.1, ht.1.2.imp_right (hab next)⟩, ht.2⟩

end Follow

namespace Leads

variable {F G : Follow} {ps : List Phrase}

theorem choice (h : ps.Forall fun p => Leads p.language G F) :
    Leads (Phrase.choice ps).language G F := by
  intro w hw
  cases hw with
  | choice hp hw => exact List.forall_iff_forall_mem.1 h _ hp _ hw

theorem rule {r : Rule} (h : r.alternatives.Forall fun p => Leads p.language G F) :
    Leads r.language G F := by
  rw [Rule.language_eq]
  exact choice h

end Leads

namespace Begins

variable {F F' : Follow} {L : Language Terminal} {r : Rule} {t : Terminal} {ps : List Phrase}

theorem choice (h : ps.Forall fun p => Begins p.language F) :
    Begins (Phrase.choice ps).language F := Leads.choice h

theorem rule (h : r.alternatives.Forall fun p => Begins p.language F) : Begins r.language F :=
  Leads.rule h

theorem one (ht : ∀ v, F (t :: v)) : Begins (Phrase.one t).language F :=
  Phrase.language_one t ▸ alone ht

/-- A rule that is one terminal. -/
theorem only (h : r.alternatives = [.one t]) (ht : ∀ v, F (t :: v)) : Begins r.language F :=
  Rule.language_only h ▸ one ht

theorem seq {p : Phrase} (h : Begins p.language F) : Begins (Phrase.seq (p :: ps)).language F := by
  rw [Phrase.language_seq_cons]
  exact h.mul

/-- A rule that starts with a phrase. -/
theorem front {p : Phrase} (h : r.alternatives = [.seq (p :: ps)]) (hp : Begins p.language F) :
    Begins r.language F := Rule.language_only h ▸ hp.seq

/-- A rule that starts with a terminal. -/
theorem terminal (h : r.alternatives = [.seq (.one t :: ps)]) (ht : ∀ v, F (t :: v)) :
    Begins r.language F :=
  front h (one ht)

/-- A rule that starts with two terminals. -/
theorem second {u : Terminal} (h : r.alternatives = [.seq (.one t :: .one u :: ps)]) :
    Begins r.language fun v => v.tail.head? = some u := by
  rw [Rule.language_only h, Phrase.language_seq_cons, Phrase.language_seq_cons,
    Phrase.language_one, Phrase.language_one]
  exact Leads.mul (H := fun v => v.head? = some u) (.alone fun _ => id)
    (.mul (.alone fun _ _ => rfl) .any)

theorem anyOf {test : Terminal → Bool} (h : ∀ t v, test t = true → F (t :: v)) :
    Begins (anyOf test) F := by
  rintro w ⟨t, ht, rfl⟩ v _
  exact h t v ht

theorem name (h : ∀ t ∈ Terminal.names, ∀ v, F (t :: v)) : Begins Rule.ident.language F := by
  rw [Rule.language_ident]
  exact anyOf fun t v ht => h t (Terminal.isName_iff.1 ht) v

theorem firsts {f : Terminal → Bool} {a : Option Terminal → Bool}
    (h : Begins L (.opened f a)) : Begins L (.starts f) := h.mono fun _ hv => hv.first

theorem ident : Begins Rule.ident.language (.starts Terminal.isName) :=
  name fun _ ht _ => Follow.starts_cons.2 (Terminal.isName_iff.2 ht)

end Begins

/-- A look ahead at a name. -/
theorem Parser.Complete.lookName {α : Type} {n : ℕ} {F : Follow} {L : Language Terminal}
    {f : Option Terminal → Parser α} {p : Parser α}
    (hf : Terminal.names.Forall fun t => f (some t) = p) (hL : Begins L (.starts Terminal.isName))
    (h : Complete n F p L) : Complete n F (Parser.look >>= f) L := by
  refine .lookStarts hL fun t ht => ?_
  rwa [List.forall_iff_forall_mem.1 hf t (Terminal.isName_iff.1 ht)]

namespace Rule

open Follow

/-! ## Expressions -/

/-- What an operand of the kind starts with, and a function behind `async`. -/
abbrev opensOperand (first : Terminal → Bool) : Follow :=
  opened first (· = some (.word .kwFunction))

theorem begins_importing {r : Rule} {p : Punctuator} {ps : List Phrase} {f : Terminal → Bool}
    (h : r.alternatives = [.seq (.one (.word .kwImport) :: .one (.punctuator p) :: ps)])
    (hp : Parser.importsInExpression (some (.punctuator p)) = true)
    (hf : f (.word .kwImport) = true) : Begins r.language (opensOperand f) := by
  rw [language_only h]
  simp only [Phrase.language_seq_cons, Phrase.language_one]
  refine Leads.mul (H := fun v => v.head? = some (.punctuator p)) (.alone fun v hv => ?_)
    (.mul (.alone fun _ _ => rfl) .any)
  refine opens_cons.2 ?_
  rw [opening, hf, hv, hp]
  rfl

theorem among_functionExpr :
    Begins functionExpr.language (.among [.word .kwFunction, .word .kwAsync]) := by
  rw [language_only (r := functionExpr) rfl, Phrase.language_seq_cons, Phrase.language_optional,
    Phrase.language_seq_cons, Phrase.language_seq_nil, mul_one, add_mul, one_mul]
  exact .add (.mul (.only rfl fun v => among_cons (by decide)))
    (.seq (.one fun v => among_cons (by decide)))

theorem begins_functionExpr :
    Begins functionExpr.language
      (opensOperand fun t => t.startsPrimary && t ≠ .word .kwImport) := by
  rw [language_only (r := functionExpr) rfl, Phrase.language_seq_cons, Phrase.language_optional]
  refine Leads.mul (H := fun v => v.head? = some (.word .kwFunction))
    (.add ?_ (.one fun v hv => ?_)) ?_
  · rw [Phrase.language_seq_cons, Phrase.language_seq_nil, mul_one, Phrase.language_rule,
      language_only (r := asyncMark) rfl, Phrase.language_one]
    refine .alone fun v hv => opens_cons.2 ?_
    rw [hv]
    rfl
  · obtain ⟨v, rfl⟩ := List.head?_eq_some_iff.1 hv
    exact opened_cons rfl
  · rw [Phrase.language_seq_cons, Phrase.language_one]
    exact .mul (.alone fun _ _ => rfl) .any

theorem begins_arrayLit {F : Follow} (h : ∀ v, F (.punctuator .leftBracket :: v)) :
    Begins arrayLit.language F := by
  rw [language_arrayLit]
  exact .mul (.alone h)

theorem begins_parenthesized {F : Follow} (h : ∀ v, F (.punctuator .leftParen :: v)) :
    Begins parenthesized.language F := by
  rw [language_parenthesized]
  exact .mul (.alone h)

theorem begins_simplePrimary : Begins (Phrase.choice simplePrimary).language
    (opensOperand fun t => t.startsPrimary && t ≠ .word .kwImport) := by
  have hone {t : Terminal} (ht : (t.startsPrimary && t ≠ .word .kwAsync &&
      t ≠ .word .kwImport) = true) : Begins (Phrase.one t).language
        (opensOperand fun t => t.startsPrimary && t ≠ .word .kwImport) :=
    .one fun v => opened_cons (by revert ht; simp +contextual)
  refine .choice ⟨?ident, hone rfl, .only rfl fun v => opened_cons rfl,
    .only rfl fun v => opened_cons rfl, hone rfl, hone rfl, hone rfl, hone rfl, hone rfl,
    hone rfl, begins_arrayLit fun v => opened_cons rfl, .terminal rfl fun v => opened_cons rfl,
    begins_functionExpr, .terminal rfl fun v => opened_cons rfl,
    begins_parenthesized fun v => opened_cons rfl⟩
  case ident =>
    refine .name fun t ht v => opened_cons ?_
    revert t
    decide

theorem begins_plainPrimary :
    Begins (Phrase.choice plainPrimary).language (opensOperand Terminal.startsPrimary) := by
  rw [plainPrimary, Phrase.language_choice_cons]
  exact .add (begins_importing rfl rfl rfl) (begins_simplePrimary.mono fun v hv =>
    hv.mono (by simp +contextual) fun _ => id)

theorem begins_completeNew {F : Follow} (h : ∀ v, F (.word .kwNew :: v)) :
    Begins completeNew F :=
  .add (.terminal rfl h) (.mul (.alone h))

theorem begins_bareNew {F : Follow} (h : ∀ v, F (.word .kwNew :: v)) : Begins bareNew F :=
  .mul (.alone h)

theorem begins_plainPrimary' : Begins (Phrase.choice plainPrimary).language
    (opensOperand Terminal.startsLeftHandSide) :=
  begins_plainPrimary.mono fun _ hv =>
    hv.mono (by simp +contextual [Terminal.startsPrimary]) fun _ => id

theorem begins_memberExpr :
    Begins memberExpr.language (opensOperand Terminal.startsLeftHandSide) := by
  rw [language_memberExpr]
  exact .mul (.add begins_plainPrimary' (begins_completeNew fun v => opened_cons rfl))

theorem begins_lhsExpr :
    Begins lhsExpr.language (opensOperand Terminal.startsLeftHandSide) := by
  rw [language_lhsExpr]
  refine .add (.mul (.add (.add begins_plainPrimary' ?_) ?_)) ?_
  · exact begins_completeNew fun v => opened_cons rfl
  · exact begins_importing rfl rfl rfl
  · exact .mul (.alone fun v => opened_cons rfl)

theorem begins_update : Begins update.language (opensOperand Terminal.startsUpdate) := by
  rw [language_update]
  refine .add (.mul (.anyOf fun t v ht => opened_cons ?_)) (.mul (begins_lhsExpr.mono ?_))
  · rw [Terminal.isUpdateOperator_eq, List.contains_iff_mem] at ht
    revert t
    decide
  · exact fun v hv => hv.mono (by simp +contextual [Terminal.startsLeftHandSide]) fun _ => id

theorem begins_unary : Begins unary.language (opensOperand Terminal.startsOperand) := by
  rw [language_unary, prefixedOperand]
  refine .add (.add (.mul (.alone fun v => opened_cons rfl))
    (.mul (.anyOf fun t v ht => opened_cons ?_))) (begins_update.mono ?_)
  · rw [Terminal.isUnaryOperator_eq, List.contains_iff_mem] at ht
    revert t
    decide
  · exact fun v hv => hv.mono (by simp +contextual [Terminal.startsUpdate]) fun _ => id

theorem begins_exponent : Begins exponent.language (opensOperand Terminal.startsOperand) := by
  refine .rule ⟨begins_unary, .seq (begins_update.mono ?_)⟩
  exact fun v hv => hv.mono (by simp +contextual [Terminal.startsUpdate]) fun _ => id

theorem begins_joined (m : ℕ) : Begins (joined m) (opensOperand Terminal.startsOperand) := by
  induction m with
  | zero => exact begins_exponent
  | succ m ih => exact .mul ih

theorem language_conditional : conditional.language = joined Parser.loosestLevel *
    (Punctuator.question.alone * (assign.language * (Punctuator.colon.alone * assign.language)) +
      1) := by
  rw [language_eq]
  simp [alternatives, -add_eq_sup, language_logicalOr, mul_add]
  abel

theorem begins_conditional :
    Begins conditional.language (opensOperand Terminal.startsOperand) := by
  rw [language_conditional]
  exact .mul (begins_joined _)

/-- What an expression starts with; a declared function does not come behind `async`. -/
abbrev opensExpression : Follow :=
  opened Terminal.startsExpression (· ≠ some .functionDeclaration)

theorem begins_arrowParams {F : Follow} (h : ∀ t ∈ Terminal.names, ∀ v, F (t :: v))
    (h' : ∀ v, F (.punctuator .leftParen :: v)) : Begins arrowParams.language F :=
  .rule ⟨.name h, begins_parenthesized h'⟩

theorem begins_assign : Begins assign.language opensExpression := by
  have hoperand : Begins conditional.language opensExpression :=
    begins_conditional.mono fun v hv =>
      hv.mono (by simp +contextual [Terminal.startsOperand]) (by simp +contextual)
  refine .rule ⟨hoperand, ?assignment, ?arrow, ?asyncArrow, .terminal rfl fun v => opened_cons rfl,
    .terminal rfl fun v => opened_cons rfl⟩
  case assignment => exact .front rfl hoperand
  case arrow =>
    refine .front rfl (begins_arrowParams (fun t ht v => opened_cons ?_) fun v => opened_cons ?_)
    · revert t
      decide
    · decide
  case asyncArrow =>
    show Begins asyncArrow.language _
    rw [language_only (r := asyncArrow) rfl]
    simp only [Phrase.language_seq_cons, Phrase.language_rule,
      language_only (r := asyncMark) rfl, Phrase.language_one]
    refine Leads.mul (H := fun v => v.head? ≠ some .functionDeclaration) (.alone fun v hv => ?_) ?_
    · refine opens_cons.2 ?_
      simp [opening, hv, Terminal.startsExpression, Terminal.isUnaryOperator,
        Terminal.isUpdateOperator, Terminal.isPrefixWord]
    · refine Leads.mul (.of_begins (begins_arrowParams (fun t ht v => ?_) fun v => ?_)) .any
      · rintro ⟨⟩
        revert ht
        decide
      · rintro ⟨⟩

theorem begins_expression : Begins expression.language opensExpression := by
  rw [language_expression]
  exact .mul begins_assign

/-! ## Statements -/

/-- What a statement starts with. -/
abbrev opensStatement : Follow := opened Terminal.startsStatement fun _ => true

theorem begins_functionDecl : Begins functionDecl.language opensStatement := by
  rw [language_only (r := functionDecl) rfl, Phrase.language_seq_cons, Phrase.language_optional,
    Phrase.language_seq_cons, Phrase.language_seq_cons, Phrase.language_seq_nil, mul_one,
    Phrase.language_rule, language_only (r := asyncMark) rfl, Phrase.language_one,
    Phrase.language_one, add_mul, one_mul]
  exact .add (.mul (.alone fun v => opens_cons.2 rfl)) (.mul (.alone fun v => opened_cons rfl))

theorem begins_varDecl {F : Follow} (h : ∀ t ∈ Terminal.declaring, ∀ v, F (t :: v)) :
    Begins varDecl.language F := by
  rw [language_only (r := varDecl) rfl, Phrase.language_seq_cons, Phrase.language_rule,
    language_varKind]
  exact .mul (.anyOf fun t v ht => h t (Terminal.declaresVariables_iff.1 ht) v)

theorem begins_stmt : Begins stmt.language opensStatement := by
  have hterminal {r : Rule} {t : Terminal} {ps : List Phrase}
      (h : r.alternatives = [.seq (.one t :: ps)])
      (ht : (t.startsStatement && t ≠ .word .kwAsync && t ≠ .word .kwImport) = true) :
      Begins r.language opensStatement := .terminal h fun v => opened_cons ht
  refine .rule ⟨.terminal rfl fun v => opened_cons rfl, ?varStmt, begins_functionDecl,
    .terminal rfl fun v => opened_cons rfl, ?exprStmt,
    .only rfl fun v => opened_cons rfl, hterminal rfl rfl, hterminal rfl rfl,
    hterminal rfl rfl, hterminal rfl rfl, hterminal rfl rfl, hterminal rfl rfl, hterminal rfl rfl,
    hterminal rfl rfl, hterminal rfl rfl, hterminal rfl rfl, hterminal rfl rfl, hterminal rfl rfl⟩
  case varStmt =>
    refine .front rfl (begins_varDecl fun t ht v => opened_cons ?_)
    revert t
    decide
  case exprStmt =>
    exact .front rfl (begins_expression.mono (G := opensStatement) fun v hv =>
      hv.mono (by simp +contextual [Terminal.startsStatement]) fun _ _ => rfl)

theorem begins_binding : Begins binding.language (.starts Terminal.startsBinding) := by
  refine .rule ⟨Begins.ident.mono ?_, begins_arrayLit fun v => starts_cons.2 rfl,
    .terminal rfl fun v => starts_cons.2 rfl⟩
  exact fun v hv => hv.mono (by simp +contextual [Terminal.startsBinding])

/-! ## Names of properties -/

theorem begins_propName : Begins propName.language (.starts Terminal.startsPropertyName) := by
  refine .rule ⟨Begins.ident.mono ?_, .only rfl fun v => starts_cons.2 rfl,
    .one fun v => starts_cons.2 rfl, .terminal rfl fun v => starts_cons.2 rfl⟩
  exact fun v hv => hv.mono (by simp +contextual [Terminal.startsPropertyName])

/-- A name of a property where it matters what comes behind a name. -/
theorem leads_propName {us : List Terminal} {c : Terminal → Option Terminal → Bool}
    (hname : ∀ t ∈ Terminal.names, ∀ u ∈ us, c t (some u) = true)
    (hother : [Terminal.string, .number, .punctuator .leftBracket].Forall fun t =>
      ∀ o, c t o = true) : Leads propName.language (.among us) (.opens c) := by
  refine .rule ⟨?_, .of_begins (.only rfl fun v => opens_cons.2 (hother.1 _)),
    .of_begins (.one fun v => opens_cons.2 (hother.2.1 _)),
    .of_begins (.terminal rfl fun v => opens_cons.2 (hother.2.2 _))⟩
  rintro w hw v ⟨u, v, rfl, hu⟩
  rw [Phrase.language_rule, language_ident] at hw
  obtain ⟨t, ht, rfl⟩ := hw
  exact opens_cons.2 (hname t (Terminal.isName_iff.1 ht) u (List.contains_iff_mem.1 hu))

theorem begins_methodMark : Begins methodMark
    (.among [.word .kwAsync, .punctuator .star, .word .kwGet, .word .kwSet]) := by
  refine .add (.mul (.only rfl fun v => ?_)) (.add (.only rfl fun v => ?_)
    (.add (.only rfl fun v => ?_) (.only rfl fun v => ?_)))
  all_goals exact among_cons (by decide)

theorem begins_memberRest : Begins memberRest
    (.among [.punctuator .leftParen, .punctuator .assign, .terminator]) := by
  rw [memberRest, add_mul, one_mul, mul_assoc]
  refine .add (.mul (.terminal rfl fun v => ?_))
    (.add (.mul (.alone fun v => ?_)) (.alone fun v => ?_))
  all_goals exact among_cons (by decide)

/-- What a method or a field starts with. -/
def startsMember (t : Terminal) : Bool :=
  t.startsPropertyName || [Terminal.word .kwAsync, .punctuator .star].contains t

/-- What a member of a class starts with if `static` does not stand before it. -/
def opensMember (t : Terminal) (next : Option Terminal) : Bool :=
  startsMember t && (t ≠ .word .kwStatic || Parser.staticIsName next)

theorem begins_bareMember : Begins bareMember (.opens opensMember) := by
  rw [bareMember, one_mul]
  refine .add (.mul (begins_methodMark.mono fun v hv => hv.opens ?_))
    (Leads.mul (leads_propName (by decide) ?_) begins_memberRest)
  · exact ⟨fun _ => rfl, fun _ => rfl, fun _ => rfl, fun _ => rfl⟩
  · exact ⟨fun _ => rfl, fun _ => rfl, fun _ => rfl⟩

theorem starts_bareMember : Begins bareMember (.starts startsMember) :=
  begins_bareMember.mono fun _ hv => hv.mono (by simp +contextual [opensMember])

theorem starts_classMember :
    Begins classMember.language (.starts fun t => startsMember t || t = .terminator) := by
  rw [language_classMember]
  refine .add (.mul (.alone fun v => starts_cons.2 rfl))
    (.add (.mul (.alone fun v => starts_cons.2 rfl)) (starts_bareMember.mono fun v hv => ?_))
  exact hv.mono (by simp +contextual)

theorem begins_otherName :
    Begins otherName (.among [.string, .number, .punctuator .leftBracket]) := by
  refine .add (.only rfl fun v => ?_) (.add (.alone fun v => ?_) (.terminal rfl fun v => ?_))
  all_goals exact among_cons (by decide)

theorem starts_objectProp : Begins objectProp.language
    (.starts fun t => startsMember t || t = .punctuator .ellipsis) := by
  rw [language_objectProp, one_mul]
  refine .add (.mul (.alone fun v => starts_cons.2 rfl)) (.add (.mul (begins_methodMark.mono ?_))
    (.add (.mul (Begins.ident.mono ?_)) (.mul (begins_otherName.mono ?_))))
  · exact fun v hv => hv.opens ⟨fun _ => rfl, fun _ => rfl, fun _ => rfl, fun _ => rfl⟩
  · exact fun v hv => hv.mono (by
      simp +contextual [startsMember, Terminal.startsPropertyName])
  · exact fun v hv => hv.opens ⟨fun _ => rfl, fun _ => rfl, fun _ => rfl⟩

end Rule

end ModuleLowering
