import ModuleLowering.Proofs.Reading

/-!
# The rules as equations

The languages of some rules in the form in which a parser reads them: words out of a set of
terminals, operators between operands, members and calls behind what they belong to. A rule that
refers to itself on the left becomes a loop.
-/

set_option autoImplicit false

namespace ModuleLowering

open Computability

theorem anyOf_contains (ts : List Terminal) :
    anyOf ts.contains = (Phrase.choice (ts.map Phrase.one)).language := by
  induction ts with
  | nil =>
    ext w
    constructor
    · rintro ⟨t, ht, _⟩
      cases ht
    · intro h
      simp at h
  | cons t ts ih =>
    rw [List.map_cons, Phrase.language_choice_cons, ← ih, Phrase.language_one]
    ext w
    constructor
    · rintro ⟨u, hu, rfl⟩
      rcases List.mem_cons.1 (List.contains_iff_mem.1 hu) with rfl | hu
      · exact .inl rfl
      · exact .inr ⟨u, List.contains_iff_mem.2 hu, rfl⟩
    · rintro (rfl | ⟨u, hu, rfl⟩)
      · exact ⟨t, List.contains_iff_mem.2 List.mem_cons_self, rfl⟩
      · refine ⟨u, List.contains_iff_mem.2 ?_, rfl⟩
        exact List.mem_cons_of_mem _ (List.contains_iff_mem.1 hu)

namespace Terminal

/-- The terminals that are names. -/
def names : List Terminal :=
  [.name, .word .kwAs, .word .kwFrom, .word .kwOf, .word .kwGet, .word .kwSet, .word .kwStatic]

/-- The terminals that declare variables. -/
def declaring : List Terminal := [.word .kwVar, .word .kwLet, .word .kwConst]

theorem isName_eq : isName = names.contains := by
  funext t
  cases t with
  | word w => cases w <;> rfl
  | _ => rfl

theorem isUnaryOperator_eq : isUnaryOperator = [Terminal.punctuator .bang, .punctuator .minus,
    .punctuator .plus, .punctuator .tilde, .word .kwTypeof, .word .kwVoid,
    .word .kwDelete].contains := by
  funext t
  cases t with
  | word w => cases w <;> rfl
  | punctuator p => cases p <;> rfl
  | _ => rfl

theorem isUpdateOperator_eq : isUpdateOperator =
    [Terminal.punctuator .increment, .punctuator .decrement].contains := by
  funext t
  cases t with
  | punctuator p => cases p <;> rfl
  | _ => rfl

theorem declaresVariables_eq : declaresVariables = declaring.contains := by
  funext t
  cases t with
  | word w => cases w <;> rfl
  | _ => rfl

end Terminal

namespace Rule

/-- A rule for one terminal out of several. -/
theorem language_ones {r : Rule} {T : List Terminal} (h : r.alternatives = T.map Phrase.one) :
    r.language = anyOf T.contains := by
  rw [language_eq, h, anyOf_contains]

theorem language_ident : ident.language = anyOf Terminal.isName := by
  rw [Terminal.isName_eq]
  exact language_ones rfl

theorem language_varKind : varKind.language = anyOf Terminal.declaresVariables := by
  rw [Terminal.declaresVariables_eq]
  exact language_ones rfl

/-! ## Operators between operands -/

/-- Operators between operands, grouped from the left. -/
theorem language_leftAssociative {r s op : Rule} {ts : List Terminal}
    (h : r.alternatives = [Phrase.rule s, .seq [r, op, s]])
    (hop : op.alternatives = ts.map Phrase.one) :
    r.language = s.language * (anyOf ts.contains * s.language)∗ := by
  rw [← language_ones hop]
  refine eq_mul_kstar ?_ ?_
  · rintro ⟨u, hu, v, hv, huv⟩
    rw [language_ones hop] at hu
    obtain ⟨t, _, rfl⟩ := hu
    cases huv
  · conv_lhs => rw [language_eq, h]
    simp [-add_eq_sup]

end Rule

/-- Operands joined by the operators up to a level. -/
def joined : ℕ → Language Terminal
  | 0 => Rule.exponent.language
  | m + 1 => joined m * (anyOf (Parser.levelOperators (m + 1)).contains * joined m)∗

namespace Rule

theorem language_joined {r s op : Rule} {m : ℕ} (hs : s.language = joined m)
    (h : r.alternatives = [Phrase.rule s, .seq [r, op, s]])
    (hop : op.alternatives = (Parser.levelOperators (m + 1)).map Phrase.one) :
    r.language = joined (m + 1) := by
  rw [language_leftAssociative h hop, hs, joined]

theorem language_logicalOr : logicalOr.language = joined Parser.loosestLevel := by
  have h₁ : multiplicative.language = joined 1 := language_joined rfl rfl rfl
  have h₂ : additive.language = joined 2 := language_joined h₁ rfl rfl
  have h₃ : shift.language = joined 3 := language_joined h₂ rfl rfl
  have h₄ : relational.language = joined 4 := language_joined h₃ rfl rfl
  have h₅ : equality.language = joined 5 := language_joined h₄ rfl rfl
  have h₆ : bitAnd.language = joined 6 := language_joined h₅ rfl rfl
  have h₇ : bitXor.language = joined 7 := language_joined h₆ rfl rfl
  have h₈ : bitOr.language = joined 8 := language_joined h₇ rfl rfl
  have h₉ : logicalAnd.language = joined 9 := language_joined h₈ rfl rfl
  exact language_joined h₉ rfl rfl

theorem language_expression : expression.language = partsOf assign.language := by
  refine eq_mul_kstar ?_ ?_
  · rintro ⟨u, rfl, v, hv, huv⟩
    cases huv
  · conv_lhs => rw [language_eq]
    simp [alternatives, -add_eq_sup]

/-! ## Members and calls -/

end Rule

/-- A member or a template, behind what it belongs to. -/
def memberPart : Language Terminal :=
  Punctuator.dot.alone * Rule.propIdent.language +
    (Punctuator.leftBracket.alone * (Rule.expression.language * Punctuator.rightBracket.alone) +
      Rule.template.language)

/-- A call or an optional access, behind what it belongs to. -/
def callPart : Language Terminal :=
  Rule.arguments.language + Punctuator.optionalChain.alone *
    (Rule.propIdent.language +
      (Punctuator.leftBracket.alone * (Rule.expression.language * Punctuator.rightBracket.alone) +
        Rule.arguments.language))

/-- The primary expressions that start neither with `new` nor with `import`. -/
def simplePrimary : List Phrase :=
  [Rule.ident, Terminal.number, Rule.string, Rule.template, Terminal.regex, Word.kwTrue,
    Word.kwFalse, Word.kwNull, Word.kwThis, Word.kwSuper, Rule.arrayLit, Rule.objectLit,
    Rule.functionExpr, Rule.classExpr, Rule.parenthesized]

/-- The primary expressions that do not start with `new`. -/
def plainPrimary : List Phrase := Rule.importMeta :: simplePrimary

/-- What starts with `new` and may have members behind it. -/
def completeNew : Language Terminal :=
  Rule.newTarget.language +
    Word.kwNew.alone * (Rule.memberExpr.language * Rule.arguments.language)

/-- What starts with `new` and has no arguments for it. -/
def bareNew : Language Terminal := Word.kwNew.alone * Rule.newExpr.language

namespace Rule

theorem language_primary :
    primary.language = (Phrase.choice plainPrimary).language + newTarget.language := by
  simp only [language_eq primary, alternatives, plainPrimary, simplePrimary,
    Phrase.language_choice_cons, Phrase.language_choice_nil, Phrase.language_rule,
    Phrase.language_one]
  ac_rfl

theorem begins_memberPart : Begins memberPart
    (.among [.punctuator .dot, .punctuator .leftBracket, .template]) := by
  refine .add (.mul (.alone fun v => Follow.among_cons (by decide)))
    (.add (.mul (.alone fun v => Follow.among_cons (by decide))) ?_)
  rw [language_only (r := template) rfl, Phrase.language_one]
  exact .alone fun v => Follow.among_cons (by decide)

theorem nil_notMem_memberPart : [] ∉ memberPart := fun h => begins_memberPart.ne_nil h rfl

theorem language_memberExpr : memberExpr.language =
    ((Phrase.choice plainPrimary).language + completeNew) * memberPart∗ := by
  refine eq_mul_kstar nil_notMem_memberPart ?_
  conv_lhs => rw [language_eq]
  simp only [alternatives, completeNew, memberPart]
  simp [language_primary, -add_eq_sup, mul_add]
  ac_rfl

theorem language_newExpr : newExpr.language = memberExpr.language + bareNew := by
  conv_lhs => rw [language_eq]
  simp [alternatives, bareNew, -add_eq_sup]

theorem begins_callPart : Begins callPart
    (.among [.punctuator .leftParen, .punctuator .optionalChain]) := by
  refine .add ?_ (.mul (.alone fun v => Follow.among_cons (by decide)))
  rw [language_only (r := arguments) rfl]
  simp only [Phrase.language_seq_cons, Phrase.language_one]
  exact .mul (.alone fun v => Follow.among_cons (by decide))

theorem nil_notMem_parts : [] ∉ memberPart + callPart := by
  rintro (h | h)
  · exact begins_memberPart.ne_nil h rfl
  · exact begins_callPart.ne_nil h rfl

theorem language_callExpr : callExpr.language =
    (memberExpr.language * callPart + importCall.language) * (memberPart + callPart)∗ := by
  refine eq_mul_kstar nil_notMem_parts ?_
  conv_lhs => rw [language_eq]
  simp only [alternatives, callPart, memberPart]
  simp [-add_eq_sup, mul_add]
  ac_rfl

/-- Members alone, or members up to the first call. -/
theorem kstar_parts : (memberPart + callPart)∗ =
    memberPart∗ * (1 + callPart * (memberPart + callPart)∗) := by
  refine (Language.self_eq_mul_add_iff nil_notMem_memberPart).1 ?_
  conv_lhs => rw [← one_add_mul_kstar]
  rw [add_mul]
  ac_rfl

theorem language_lhsExpr : lhsExpr.language =
    ((Phrase.choice plainPrimary).language + completeNew + importCall.language) *
      (memberPart + callPart)∗ + bareNew := by
  have h : lhsExpr.language = newExpr.language + callExpr.language := by
    simp [language_eq lhsExpr, alternatives, -add_eq_sup]
  rw [h, language_newExpr, language_callExpr, language_memberExpr]
  generalize (Phrase.choice plainPrimary).language + completeNew = heads
  have hheads : heads * (memberPart + callPart)∗ =
      heads * memberPart∗ + heads * memberPart∗ * callPart * (memberPart + callPart)∗ := by
    conv_lhs => rw [kstar_parts]
    simp only [mul_add, mul_one, mul_assoc]
  rw [add_mul heads, hheads, add_mul]
  ac_rfl

/-! ## Operators before an operand -/

/-- An operator before an operand, counting ones not included. -/
def prefixedOperand : Language Terminal :=
  Word.kwAwait.alone * Rule.unary.language +
    anyOf Terminal.isUnaryOperator * Rule.unary.language

theorem language_unaryOp : unaryOp.language = anyOf Terminal.isUnaryOperator := by
  rw [Terminal.isUnaryOperator_eq]
  exact language_ones rfl

theorem language_updateOp : updateOp.language = anyOf Terminal.isUpdateOperator := by
  rw [Terminal.isUpdateOperator_eq]
  exact language_ones rfl

theorem language_update : update.language =
    anyOf Terminal.isUpdateOperator * unary.language +
      lhsExpr.language * (anyOf Terminal.isUpdateOperator + 1) := by
  conv_lhs => rw [language_eq]
  simp [alternatives, -add_eq_sup, language_updateOp, mul_add]
  ac_rfl

theorem language_unary : unary.language = prefixedOperand + update.language := by
  conv_lhs => rw [language_eq]
  simp [alternatives, -add_eq_sup, language_unaryOp, prefixedOperand]
  ac_rfl

theorem language_exponent : exponent.language =
    prefixedOperand + update.language * (Punctuator.power.alone * exponent.language + 1) := by
  conv_lhs => rw [language_eq]
  simp [alternatives, -add_eq_sup, language_unary, language_only (r := exponentOp) rfl, mul_add]
  ac_rfl

/-! ## What is in brackets and parentheses -/

end Rule

open Punctuator in
/-- The elements of an array and its closing bracket. -/
def arrayRest : Language Terminal :=
  comma.alone∗ * (rightBracket.alone + Rule.arrayElement.language *
    ((comma.alone * (comma.alone∗ * Rule.arrayElement.language))∗ *
      (comma.alone∗ * rightBracket.alone)))

open Punctuator in
/-- What is in parentheses after the first expression, with the closing one. -/
def parenthesizedRest : Language Terminal :=
  (comma.alone * Rule.assign.language)∗ * (rightParen.alone +
    comma.alone * (ellipsis.alone * (Rule.binding.language * rightParen.alone)))

open Punctuator in
theorem arrayRest_eq : arrayRest = rightBracket.alone + (comma.alone * arrayRest +
    Rule.arrayElement.language * (comma.alone * arrayRest + rightBracket.alone)) := by
  have hloop (l m : Language Terminal) : l∗ * m = m + l * (l∗ * m) := by
    conv_lhs => rw [← one_add_mul_kstar]
    rw [add_mul, one_mul, mul_assoc]
  have hrest : (comma.alone * (comma.alone∗ * Rule.arrayElement.language))∗ *
      (comma.alone∗ * rightBracket.alone) = comma.alone * arrayRest + rightBracket.alone := by
    rw [hloop, arrayRest]
    generalize (comma.alone * (comma.alone∗ * Rule.arrayElement.language))∗ *
      (comma.alone∗ * rightBracket.alone) = rest
    nth_rewrite 1 [hloop]
    simp only [mul_add, mul_assoc]
    ac_rfl
  have hunfold : arrayRest = comma.alone∗ * (rightBracket.alone +
      Rule.arrayElement.language * (comma.alone * arrayRest + rightBracket.alone)) := by
    conv_lhs => rw [arrayRest, hrest]
  conv_lhs => rw [hunfold, hloop, ← hunfold]
  ac_rfl

open Punctuator in
theorem parenthesizedRest_eq : parenthesizedRest = rightParen.alone + comma.alone *
    (ellipsis.alone * (Rule.binding.language * rightParen.alone) +
      Rule.assign.language * parenthesizedRest) := by
  unfold parenthesizedRest
  conv_lhs => rw [← one_add_mul_kstar]
  simp only [add_mul, mul_add, one_mul, mul_assoc]
  ac_rfl

namespace Rule

open Punctuator in
theorem language_arrayLit : arrayLit.language = leftBracket.alone * arrayRest := by
  have helision : elision.language = comma.alone * comma.alone∗ := by
    simp [language_only (r := elision) rfl]
  have hcommas : comma.alone * comma.alone∗ + 1 = comma.alone∗ := by
    rw [add_comm, one_add_mul_kstar]
  have helements : elementList.language = comma.alone∗ * arrayElement.language *
      (comma.alone * (comma.alone∗ * Rule.arrayElement.language))∗ := by
    refine eq_mul_kstar ?_ ?_
    · rintro ⟨u, rfl, v, hv, huv⟩
      cases huv
    · conv_lhs => rw [language_eq]
      simp [alternatives, -add_eq_sup, helision, hcommas]
  have hinner : rightBracket.alone + (comma.alone * (comma.alone∗ * rightBracket.alone) +
      (elementList.language * rightBracket.alone + elementList.language *
        (comma.alone * (comma.alone∗ * rightBracket.alone)))) = arrayRest := by
    calc _ = (comma.alone * comma.alone∗ + 1) * rightBracket.alone + elementList.language *
          ((comma.alone * comma.alone∗ + 1) * rightBracket.alone) := by
            simp only [add_mul, mul_add, one_mul, mul_assoc]
            abel
      _ = arrayRest := by
        rw [hcommas, helements]
        simp only [arrayRest, mul_add, mul_assoc]
  rw [language_eq, ← hinner]
  simp [alternatives, -add_eq_sup, helision, hcommas, mul_add, mul_assoc]

open Punctuator in
theorem language_parenthesized : parenthesized.language = leftParen.alone *
    (rightParen.alone + (ellipsis.alone * (binding.language * rightParen.alone) +
      assign.language * parenthesizedRest)) := by
  rw [language_eq]
  simp [alternatives, -add_eq_sup, language_expression, parenthesizedRest, partsOf, mul_add,
    mul_assoc]
  ac_rfl

end Rule

/-! ## Methods -/

open Rule in
/-- The marks before the name of a method. -/
def methodMark : Language Terminal :=
  asyncMark.language * (starMark.language + 1) +
    (starMark.language + (getMark.language + setMark.language))

open Rule in
/-- What comes behind the name of a method or of a field. -/
def memberRest : Language Terminal :=
  params.language * block.language +
    (Punctuator.assign.alone * assign.language + 1) * Terminal.terminator.alone

open Rule in
/-- A member of a class without `static`. -/
def bareMember : Language Terminal :=
  methodMark * (propName.language * (params.language * block.language)) +
    1 * (propName.language * memberRest)

namespace Rule

theorem language_method : method.language =
    methodMark * (propName.language * (params.language * block.language)) +
      propName.language * (params.language * block.language) := by
  simp [language_eq method, language_only (r := getter) rfl, language_only (r := setter) rfl,
    alternatives, methodMark, -add_eq_sup, add_mul, mul_add, mul_assoc]
  abel

theorem language_classMember : classMember.language =
    Terminal.terminator.alone * 1 + (Word.kwStatic.alone * bareMember + bareMember) := by
  simp [language_eq classMember, alternatives, language_only (r := field) rfl,
    language_only (r := staticMark) rfl, language_method, bareMember, memberRest, -add_eq_sup,
    add_mul, mul_add, mul_assoc]
  abel

end Rule

/-! ## Properties -/

open Rule in
/-- A name of a property that is no name alone. -/
def otherName : Language Terminal :=
  string.language + (Terminal.number.alone + computedKey.language)

open Rule in
/-- What comes behind a name alone in an object. -/
def namedRest : Language Terminal :=
  Punctuator.colon.alone * assign.language + (params.language * block.language +
    (Punctuator.assign.alone * assign.language + 1))

open Rule in
/-- What comes behind another name of a property. -/
def otherRest : Language Terminal :=
  Punctuator.colon.alone * assign.language + params.language * block.language

namespace Rule

theorem language_propName : propName.language = ident.language + otherName := by
  simp [language_eq propName, alternatives, otherName, -add_eq_sup]

theorem language_objectProp : objectProp.language =
    Punctuator.ellipsis.alone * assign.language +
      (methodMark * (propName.language * (params.language * block.language)) +
        1 * (ident.language * namedRest + otherName * otherRest)) := by
  simp [language_eq objectProp, alternatives, language_only (r := propValue) rfl,
    language_only (r := propShorthand) rfl, language_only (r := propDefault) rfl,
    language_only (r := propSpread) rfl, language_method, namedRest, otherRest, -add_eq_sup,
    mul_add]
  simp only [language_propName, add_mul, mul_add]
  abel

end Rule

end ModuleLowering
