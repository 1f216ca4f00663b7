import ModuleLowering.Proofs.ReadingOperators

/-!
# What assignments read

The rules for conditions, assignments and functions with an arrow read the words of the grammar. The
last part of such a word may go on with an assignment itself, as the last part of a condition does.
The words are split where that part is as long as it can be.
-/

set_option autoImplicit false

namespace ModuleLowering

open Computability

namespace Rule

/-! ## The words of assignments -/

/-- A condition up to its last part. -/
def conditionPart : Language Terminal :=
  joined Parser.loosestLevel *
    (Punctuator.question.alone * (assign.language * Punctuator.colon.alone))

/-- The words of conditions, the last part of which is a word of `X`. -/
def conditionalWith (X : Language Terminal) : Language Terminal :=
  joined Parser.loosestLevel *
    (Punctuator.question.alone * (assign.language * (Punctuator.colon.alone * X)) + 1)

/-- An arrow and what it leads to. -/
def arrowWith (X : Language Terminal) : Language Terminal :=
  Punctuator.arrow.alone * (block.language + X)

/-- What follows `yield`. -/
def yieldWith (X : Language Terminal) : Language Terminal :=
  Punctuator.star.alone * X + (X + 1)

/-- The words that are no conditions, the last part of which is a word of `X`. -/
def assignmentWith (X : Language Terminal) : Language Terminal :=
  conditionalWith closedAssign * (anyOf Terminal.isAssignmentOperator * X) +
    (arrowParams.language * arrowWith X +
      (Word.kwAsync.alone * (arrowParams.language * arrowWith X) +
        Word.kwYield.alone * yieldWith X))

theorem conditionalWith_eq (X : Language Terminal) :
    conditionalWith X = conditionPart * X + joined Parser.loosestLevel := by
  simp only [conditionalWith, conditionPart, mul_add, mul_one, mul_assoc]

theorem isAssignmentOperator_eq : Terminal.isAssignmentOperator = Follow.assigning.contains := by
  funext t
  cases t with
  | punctuator p => cases p <;> rfl
  | _ => rfl

theorem language_assign : assign.language = conditional.language +
    (conditional.language * (anyOf Terminal.isAssignmentOperator * assign.language) +
      (arrowParams.language * arrowWith assign.language +
        (Word.kwAsync.alone * (arrowParams.language * arrowWith assign.language) +
          Word.kwYield.alone * yieldWith assign.language))) := by
  have hop : assignOp.language = anyOf Terminal.isAssignmentOperator := by
    rw [isAssignmentOperator_eq]
    exact language_ones rfl
  have hbody : arrowBody.language = block.language + assign.language := by
    simp [language_eq arrowBody, -add_eq_sup]
  conv_lhs => rw [language_eq]
  simp [-add_eq_sup, language_only (r := Rule.assignment) rfl, language_only (r := arrow) rfl,
    language_only (r := asyncArrow) rfl, language_only (r := asyncMark) rfl,
    language_only (r := yieldExpr) rfl, language_only (r := yieldDelegate) rfl, hop, hbody,
    arrowWith, yieldWith, mul_add]
  abel

/-- A condition before an assignment either ends with a part that no assignment goes on with, or it
takes the assignment with it. -/
theorem conditional_assignment_le {X : Language Terminal} (hX : X ≤ assign.language) :
    conditional.language * (anyOf Terminal.isAssignmentOperator * X) ≤
      conditional.language + conditionalWith closedAssign *
        (anyOf Terminal.isAssignmentOperator * X) := by
  rw [isAssignmentOperator_eq]
  have hparts : conditional.language = conditionPart * assign.language +
      joined Parser.loosestLevel := language_conditional.trans (conditionalWith_eq _)
  have hassign : assign.language * (anyOf Follow.assigning.contains * X) ≤
      assign.language + closedAssign * (anyOf Follow.assigning.contains * X) := mul_goesOn_le hX
  generalize anyOf Follow.assigning.contains * X = tail at *
  calc conditional.language * tail = conditionPart * (assign.language * tail) +
        joined Parser.loosestLevel * tail := by rw [hparts, add_mul, mul_assoc]
    _ ≤ conditionPart * (assign.language + closedAssign * tail) +
        joined Parser.loosestLevel * tail := add_le_add (mul_le_mul_right hassign _) le_rfl
    _ = conditionPart * assign.language + conditionalWith closedAssign * tail := by
      rw [conditionalWith_eq, mul_add, add_mul, add_assoc, mul_assoc]
    _ ≤ conditional.language + conditionalWith closedAssign * tail := by
      rw [hparts]
      exact add_le_add le_self_add le_rfl

/-- What comes before the last part of a word, if that is a function or an operand of `yield`. -/
def assignmentPart : Language Terminal :=
  arrowParams.language * Punctuator.arrow.alone +
    (Word.kwAsync.alone * (arrowParams.language * Punctuator.arrow.alone) +
      Word.kwYield.alone * (Punctuator.star.alone + 1))

/-- The words with a last part that is of no use for an assignment. -/
def assignmentEnd : Language Terminal :=
  arrowParams.language * (Punctuator.arrow.alone * block.language) +
    (Word.kwAsync.alone * (arrowParams.language * (Punctuator.arrow.alone * block.language)) +
      Word.kwYield.alone)

theorem assignmentWith_eq (X : Language Terminal) : assignmentWith X =
    conditionalWith closedAssign * (anyOf Terminal.isAssignmentOperator * X) +
      (assignmentPart * X + assignmentEnd) := by
  simp only [assignmentWith, assignmentPart, assignmentEnd, arrowWith, yieldWith, mul_add, add_mul,
    mul_one, mul_assoc]
  abel

theorem language_assign_eq : assign.language = conditional.language +
    (conditional.language * (anyOf Terminal.isAssignmentOperator * assign.language) +
      (assignmentPart * assign.language + assignmentEnd)) := by
  conv_lhs => rw [language_assign]
  simp only [assignmentPart, assignmentEnd, arrowWith, yieldWith, mul_add, add_mul, mul_one,
    mul_assoc]
  abel

theorem assign_le : assign.language ≤ conditional.language + assignmentWith assign.language := by
  conv_lhs => rw [language_assign_eq]
  rw [assignmentWith_eq]
  refine add_le le_self_add (add_le ((conditional_assignment_le le_rfl).trans ?_) ?_)
  · exact add_le_add le_rfl le_self_add
  · exact le_add_self.trans le_add_self

theorem arrowParams_le : arrowParams.language ≤ conditional.language := by
  have hprimary : arrowParams.language ≤ primary.language := by
    rw [language_eq arrowParams]
    intro w hw
    cases hw with
    | choice hp hw =>
      rcases List.mem_pair.1 hp with rfl | rfl
      · exact .rule (p := ident) (by simp) hw
      · exact .rule (p := parenthesized) (by simp) hw
  have hjoined : ∀ l, joined 0 ≤ joined l := by
    intro l
    induction l with
    | zero => exact le_rfl
    | succ l ih => exact ih.trans (le_mul_of_one_le_right' one_le_kstar)
  calc arrowParams.language ≤ primary.language := hprimary
    _ ≤ memberExpr.language := language_le (by simp)
    _ ≤ newExpr.language := language_le (by simp)
    _ ≤ lhsExpr.language := language_le (by simp)
    _ ≤ update.language := language_le (by simp)
    _ ≤ unary.language := language_le (by simp)
    _ ≤ joined 0 := language_le (r := exponent) (by simp)
    _ ≤ logicalOr.language := language_logicalOr ▸ hjoined _
    _ ≤ conditional.language := language_le (by simp)

end Rule

namespace Parser

/-- What comes behind an operand in an expression without commas. -/
def afterOperand (k : Deeper) (s : Option Position) (operand : Operand) : Parser (Shaped Node) := do
  match ← look, operand.parameters with
  | some (.punctuator .arrow), some params => arrowRest k s false params
  | some next, _ =>
    if next.isAssignmentOperator then assignmentRest k s operand.node
    else return operand.node
  | none, _ => return operand.node

/-- An asynchronous function from its arrow on, if what comes before it may be parameters. -/
def afterHead (k : Deeper) (s : Option Position) (head : Operand) : Parser (Shaped Node) :=
  match head.parameters with
  | some params => arrowRest k s true params
  | none => fail

theorem asyncArrow_eq (k : Deeper) : asyncArrow k = place >>= fun s => word .kwAsync >>= fun _ =>
    look >>= fun o => if o = some (.punctuator .leftParen) then parenthesized k >>= afterHead k s
      else primary k >>= afterHead k s := rfl

theorem assignment_eq (k : Deeper) : assignment k = place >>= fun s => look >>= fun first =>
    lookFurther >>= fun next =>
      if first = some (.word .kwYield) then yieldExpression k
      else if startsAsyncArrow first next then asyncArrow k
      else conditional k >>= afterOperand k s := by
  unfold assignment
  refine congrArg (place >>= ·) (funext fun s => congrArg (look >>= ·) (funext fun first => ?_))
  split
  · rfl
  · rfl

namespace Reads

open Rule Follow

variable {n : ℕ} {k : Deeper} {F G : Follow} (h : k.Reads n)
include h

/-! ## Conditions -/

theorem conditionalSound : Sound (conditional k) Rule.conditional.language := by
  rw [language_conditional]
  exact .place fun s => .bind (level h loosestLevel).reads.sound fun test => .ifTaken
    (.bind h.assignment.sound fun consequent => .step (.map h.assignment.sound)) (.pure test)

/-- What may stand before an arrow is a condition with parameters. -/
theorem conditionalParams : Reads (n + 1) (.without branching)
    (having (·.parameters.isSome) (conditional k)) arrowParams.language := by
  simp only [Parser.conditional, having_bind, having_ite]
  refine of_eq (.place fun s => .bindOnly (M := Punctuator.question.alone * 0 + 1)
    (level h loosestLevel).params (fun test ha => .ifTaken
      (.nothing fun _ => .never fun _ => .never fun _ => .fail) (.passed ha)
      (.one fun v hv => hv.mono (by decide)))
    (fun test ha => ?_) ?_) (by simp)
  · have hneither : Terminal.alone (.punctuator .question) * 0 + 0 = (0 : Language Terminal) := by
      simp
    exact hneither ▸ .ifTaken (.never fun _ => .never fun _ => .never fun _ => .fail)
      (.of_reads (.failed ha))
  · exact .add (.mul (.alone fun _ _ => without_cons (by decide)) .any)
      (.one fun v hv => hv.mono (List.subset_append_left _ _))

/-! ## What is read is an assignment -/

theorem arrowRestSound (s : Option Position) (isAsync : Bool) (params : Shaped (List Node)) :
    Sound (arrowRest k s isAsync params) (arrowWith assign.language) :=
  .step (.lookIf (c := (· = some (.punctuator .leftBrace))) (.map (block h).sound)
    (.map h.assignment.sound))

theorem asyncArrowSound : Sound (asyncArrow k)
    (Word.kwAsync.alone * (arrowParams.language * arrowWith assign.language)) := by
  have hrest (s : Option Position) (head : Operand) :
      Sound (afterHead k s head) (arrowWith assign.language) := by
    unfold afterHead
    split
    · exact arrowRestSound h s true _
    · exact .fail
  have hplain (s : Option Position) (head : Operand) (ha : head.parameters.isSome = false) :
      Sound (afterHead k s head) 0 := by
    rw [afterHead, Option.isSome_eq_false_iff, Option.isNone_iff_eq_none] at *
    rw [ha]
    exact .fail
  rw [asyncArrow_eq]
  refine .place fun s => .step (.look fun o => .ite (fun _ => ?_) fun _ => ?_)
  · refine .bind ((parenthesized h).sound.mono ?_) (hrest s)
    exact language_le (r := arrowParams) (p := Rule.parenthesized) (by simp)
  · exact .bindOnly (primaryParams h).sound (fun head _ => hrest s head) (hplain s)

theorem yieldSound :
    Sound (yieldExpression k) (Word.kwYield.alone * yieldWith assign.language) :=
  .place fun _ => .step (.ifTaken (.map h.assignment.sound) (.lookIf
    (c := fun o => (o.map Terminal.startsExpression).getD false = true) (.map h.assignment.sound)
    (.pure _)))

theorem assignmentRestSound (s : Option Position) (target : Shaped Node) :
    Sound (assignmentRest k s target) (anyOf Terminal.isAssignmentOperator * assign.language) :=
  .bind (.takeIf _) fun _ => .map h.assignment.sound

theorem afterOperandSound (s : Option Position) (operand : Operand) :
    Sound (afterOperand k s operand) (arrowWith assign.language +
      (anyOf Terminal.isAssignmentOperator * assign.language + 1)) := by
  refine .look fun o => ?_
  split
  · exact (arrowRestSound h s false _).mono le_self_add
  · refine .ite (fun _ => ?_) fun _ => (Sound.pure _).mono (le_add_self.trans le_add_self)
    exact (assignmentRestSound h s operand.node).mono (le_self_add.trans le_add_self)
  · exact (Sound.pure _).mono (le_add_self.trans le_add_self)

theorem afterPlainSound (s : Option Position) {operand : Operand}
    (ha : operand.parameters.isSome = false) : Sound (afterOperand k s operand)
      (anyOf Terminal.isAssignmentOperator * assign.language + 1) := by
  refine .look fun o => ?_
  split
  case h_1 hparams =>
    rw [hparams] at ha
    cases ha
  case h_2 =>
    exact .ite (fun _ => (assignmentRestSound h s operand.node).mono le_self_add) fun _ =>
      (Sound.pure _).mono le_add_self
  case h_3 => exact (Sound.pure _).mono le_add_self

theorem assignmentSound : Sound (assignment k) assign.language := by
  have hread : Rule.conditional.language *
      (anyOf Terminal.isAssignmentOperator * assign.language + 1) ≤ assign.language := by
    conv_rhs => rw [language_assign_eq]
    rw [mul_add, mul_one, add_comm]
    exact add_le_add le_rfl le_self_add
  have harrow : arrowParams.language * arrowWith assign.language ≤ assign.language := by
    conv_rhs => rw [language_assign]
    exact le_self_add.trans (le_add_self.trans le_add_self)
  rw [assignment_eq]
  refine .place fun s => .look fun first => .lookFurther fun next => .ite (fun _ => ?yield) fun _ =>
    .ite (fun _ => ?async) fun _ => ?operand
  case yield =>
    refine (yieldSound h).mono ?_
    conv_rhs => rw [language_assign]
    exact le_add_self.trans (le_add_self.trans (le_add_self.trans le_add_self))
  case async =>
    refine (asyncArrowSound h).mono ?_
    conv_rhs => rw [language_assign]
    exact le_self_add.trans (le_add_self.trans (le_add_self.trans le_add_self))
  case operand =>
    -- What has parameters may be a condition too, and then no arrow needs to come behind it.
    refine (Sound.bindHaving (conditionalParams h).sound (conditionalSound h).tested
      (fun operand _ => afterOperandSound h s operand) fun operand => afterPlainSound h s).mono ?_
    rw [mul_add arrowParams.language]
    exact add_le (add_le harrow ((mul_le_mul_left arrowParams_le _).trans hread)) hread

/-! ## Assignments are read -/

omit h in
/-- What starts as an operand is read as one first. -/
theorem operandFirst {L : Language Terminal} (hL : Begins L (opensOperand Terminal.startsOperand))
    (hp : ∀ s, Complete n G (conditional k >>= afterOperand k s) L) :
    Complete n G (assignment k) L := by
  rw [assignment_eq]
  refine .place fun s => .lookOpens (.of_begins hL) fun t next ht => ?_
  simp only [opening, Terminal.startsOperand, Bool.and_eq_true, Bool.or_eq_true,
    decide_eq_true_eq] at ht
  obtain ⟨⟨⟨_, hyield⟩, hasync⟩, _⟩ := ht
  rw [if_neg (by simpa using hyield), if_neg]
  · exact hp s
  · rcases hasync with hasync | rfl
    · simp [startsAsyncArrow, hasync]
    · simp [startsAsyncArrow, Terminal.isName, Word.isContextual]

theorem conditionalComplete {X : Language Terminal} (hX : Complete n G k.assignment X)
    (hG : ∀ v, G v → Follow.among (afterAssignment ++ assigning) v) :
    Complete (n + 1) G (conditional k) (conditionalWith X) := by
  refine .place fun s => .bind (level h loosestLevel).reads.complete (fun test =>
    .ifTaken (.bind h.assignment.complete (fun consequent => .step (.map ?_))
      (.front fun v => among_cons (by decide))) (.pure test)
      (.one fun v hv => (hG v hv).without (by decide))) ?_
  · exact hX.mono (Nat.sub_le n 1) le_rfl fun _ => id
  · exact .add (.front fun v => without_cons (by decide))
      (.one fun v hv => (hG v hv).without (by decide))

theorem conditionalAlone : Complete (n + 1) (.among afterAssignment) (assignment k)
    Rule.conditional.language := by
  refine operandFirst begins_conditional fun s => ?_
  have hG : ∀ v, Follow.among afterAssignment v → Follow.among (afterAssignment ++ assigning) v :=
    fun v hv => hv.mono (by decide)
  have halone (operand : Operand) :
      Complete (n + 1) (.among afterAssignment) (afterOperand k s operand) 1 := by
    refine .look (P := fun o => ∃ t, o = some t ∧ t ∈ afterAssignment) (.one ?_) ?_
    · rintro _ ⟨t, v, rfl, ht⟩
      exact ⟨t, rfl, List.contains_iff_mem.1 ht⟩
    rintro _ ⟨t, rfl, ht⟩
    split
    case h_1 heq _ =>
      cases heq
      exact absurd ht (by decide)
    case h_2 heq _ =>
      cases heq
      have hnone : ∀ t ∈ afterAssignment, ¬t.isAssignmentOperator = true := by decide
      rw [if_neg (hnone _ ht)]
      exact .pure _
    case h_3 heq => cases heq
  have hread := (conditionalComplete h h.assignment.complete hG).bind halone (.one fun _ => id)
  rw [mul_one] at hread
  rw [language_conditional]
  exact hread

section

variable {X : Language Terminal} (hX : Complete n G k.assignment X) (hle : X ≤ assign.language)
include hX hle

theorem arrowRest (s : Option Position) (isAsync : Bool) (params : Shaped (List Node)) :
    Complete (n + 1) G (arrowRest k s isAsync params) (arrowWith X) := by
  refine .step (.lookIf (c := (· = some (.punctuator .leftBrace)))
    (.map ((block h).complete.mono (Nat.le_succ n) le_rfl fun _ _ => trivial)) (.map hX) ?_ ?_)
  · exact .of_begins (.terminal rfl fun _ => rfl)
  · exact .le (.of_begins (begins_assign.firsts.head_ne rfl)) hle

theorem asyncArrow : Complete (n + 1) G (asyncArrow k)
    (Word.kwAsync.alone * (arrowParams.language * arrowWith X)) := by
  have hrest (s : Option Position) (head : Operand) (ha : head.parameters.isSome = true) :
      Complete (n + 1) G (afterHead k s head) (arrowWith X) := by
    obtain ⟨params, hparams⟩ := Option.isSome_iff_exists.1 ha
    rw [afterHead, hparams]
    exact arrowRest h hX hle s true params
  have hparams : arrowParams.language = Rule.parenthesized.language + ident.language := by
    rw [language_eq arrowParams, add_comm]
    simp [-add_eq_sup]
  have hname : ident.language ≤ arrowParams.language := hparams ▸ le_add_self
  have hparenthesized := having_of_true (parenthesized h) fun _ _ _ => isSome_parenthesized
  rw [asyncArrow_eq]
  conv_rhs => rw [hparams, add_mul]
  refine .place fun s => .step (.lookIf (c := (· = some (.punctuator .leftParen))) ?_ ?_
    (begins_parenthesized fun _ => rfl).leads (Begins.ident.head_ne rfl).leads)
  · exact (hparenthesized.complete.mono (Nat.le_succ n) le_rfl fun _ => id).bindHaving (d := 0)
      (fun head ha => (hrest s head ha).mono (Nat.le_succ n) le_rfl fun _ => id) .any
      fun _ _ => Nat.zero_le _
  · exact ((primaryParams h).complete.mono (Nat.le_succ n) hname fun _ => id).bindHaving (d := 0)
      (fun head ha => (hrest s head ha).mono (Nat.le_succ n) le_rfl fun _ => id) .any
      fun _ _ => Nat.zero_le _

omit h in
theorem yieldExpression (hG : ∀ v, G v → Follow.among (afterAssignment ++ assigning) v) :
    Complete (n + 1) G (yieldExpression k) (Word.kwYield.alone * yieldWith X) := by
  refine .place fun s => .step (.ifTaken (.map (hX.mono (Nat.sub_le n 1) le_rfl fun _ => id))
    (.lookIf (c := fun o => (o.map Terminal.startsExpression).getD false = true) (.map hX)
      (.pure _) ?_ ?_) ?_)
  · exact .le (.of_begins (begins_assign.firsts.mono fun v => starts_iff.1)) hle
  · refine .one fun v hv => (hG v hv).not_starts fun t ht => ?_
    have hnone : ∀ t ∈ afterAssignment ++ assigning, t.startsExpression = false := by decide
    exact hnone t (List.contains_iff_mem.1 ht)
  · exact .add (.le (.of_begins (begins_assign.firsts.without (by decide))) hle)
      (.one fun v hv => (hG v hv).without (by decide))

omit h hle in
theorem assigned (s : Option Position) (operand : Operand) :
    Complete (n + 1) G (afterOperand k s operand) (anyOf Terminal.isAssignmentOperator * X) := by
  refine .lookStarts (c := Terminal.isAssignmentOperator)
    (.mul (.anyOf fun t v ht => starts_cons.2 ht)) fun t ht => ?_
  split
  case h_1 heq _ =>
    cases heq
    cases ht
  case h_2 heq _ =>
    cases heq
    rw [if_pos ht]
    exact .takeIfStep fun _ => .map hX
  case h_3 heq => cases heq

theorem arrowed (s : Option Position) {operand : Operand}
    (ha : operand.parameters.isSome = true) :
    Complete (n + 1) G (afterOperand k s operand) (arrowWith X) := by
  refine .lookAt (.punctuator .arrow) (.mul (.alone fun v => rfl)) ?_
  obtain ⟨params, hparams⟩ := Option.isSome_iff_exists.1 ha
  simp only [hparams]
  exact arrowRest h hX hle s false params

theorem assignmentComplete (hG : ∀ v, G v → Follow.among (afterAssignment ++ assigning) v) :
    Complete (n + 1) G (assignment k) (assignmentWith X) := by
  refine .add (operandFirst (.mul (.mul (begins_joined _))) fun s => ?assigned)
    (.add (operandFirst (.mul ?params) fun s => ?arrow) ?rest)
  case assigned =>
    -- The last part of the condition stops before the operator since it does not go on with it.
    refine .bind (conditionalComplete h h.closedAssignment fun _ => id) (assigned hX s)
      (Begins.leads (.anyOf fun t v ht => starts_cons.2 ?_))
    rw [isAssignmentOperator_eq, List.contains_iff_mem] at ht
    exact List.contains_iff_mem.2 (List.mem_append_right _ ht)
  case params =>
    refine begins_arrowParams (fun t ht v => opened_cons ?_) fun v => opened_cons rfl
    revert t
    decide
  case arrow =>
    exact (conditionalParams h).complete.bindHaving (d := 0) (fun operand => arrowed h hX hle s)
      (.front fun v => without_cons (by decide)) fun _ _ => Nat.zero_le _
  case rest =>
    rw [assignment_eq]
    refine .place fun s => .add (.lookBoth (P := fun o next => startsAsyncArrow o next = true) ?_
      fun o next ho => ?_)
      (.lookBoth (P := fun o _ => o = some (.word .kwYield)) (.front fun v => rfl) ?_)
    · refine .mul (H := fun v => startsAsyncArrow (some (.word .kwAsync)) v.head? = true)
        (.alone fun v => id) (begins_arrowParams (fun t ht v => ?_) fun v => rfl).leads
      rw [List.head?_cons, startsAsyncArrow, Option.map_some, Option.getD_some,
        Terminal.isName_iff.2 ht]
      simp
    · rw [if_neg, if_pos ho]
      · exact asyncArrow h hX hle
      · rintro rfl
        cases ho
    · rintro _ next rfl
      exact yieldExpression hX hle hG

end

theorem assignment : Reads (n + 1) (.among afterAssignment) (assignment k) assign.language where
  sound := assignmentSound h
  complete := ((conditionalAlone h).add (assignmentComplete h h.assignment.complete le_rfl
    fun v hv => hv.mono (by decide))).mono le_rfl assign_le fun _ => id

theorem expression : Reads (n + 1) (.among afterExpression) (expression k)
    Rule.expression.language := commaExpression (assignment h)

end Reads

end Parser

end ModuleLowering
