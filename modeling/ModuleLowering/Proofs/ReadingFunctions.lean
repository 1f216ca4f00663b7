import ModuleLowering.Proofs.Openings

/-!
# What functions and classes read

The rules for names, parameters, bodies, methods and classes read the words of the grammar, given
that the parsers for what lies deeper do.
-/

set_option autoImplicit false

namespace ModuleLowering

open Computability

namespace Follow

/-- What goes on with an expression as a member, a template, a call or an optional access. -/
def accessing : List Terminal :=
  [.punctuator .dot, .punctuator .leftBracket, .template, .punctuator .leftParen,
    .punctuator .optionalChain]

def counting : List Terminal := accessing ++ [.punctuator .increment, .punctuator .decrement]

def raising : List Terminal := counting ++ [.punctuator .power]

/-- What goes on with operands joined by the operators up to a level. -/
def joining : ℕ → List Terminal
  | 0 => raising
  | l + 1 => joining l ++ Parser.levelOperators (l + 1)

/-- What goes on with an operand. -/
def branching : List Terminal := joining Parser.loosestLevel ++ [.punctuator .question]

/-- What comes behind an expression without commas. -/
def afterAssignment : List Terminal :=
  [.punctuator .comma, .terminator, .punctuator .rightParen, .punctuator .rightBracket,
    .punctuator .colon, .punctuator .rightBrace, .punctuator .semicolon]

/-- What comes behind an expression. -/
def afterExpression : List Terminal := afterAssignment.tail

/-- The operators of assignments. -/
def assigning : List Terminal :=
  [.punctuator .assign, .punctuator .plusAssign, .punctuator .minusAssign, .punctuator .starAssign,
    .punctuator .slashAssign, .punctuator .percentAssign, .punctuator .powerAssign,
    .punctuator .shiftLeftAssign, .punctuator .shiftRightAssign, .punctuator .shiftRightZeroAssign,
    .punctuator .andAssign, .punctuator .orAssign, .punctuator .xorAssign,
    .punctuator .logicalAndAssign, .punctuator .logicalOrAssign, .punctuator .nullishAssign]

/-- What does not come behind a statement that is as long as it can be. -/
def prolonging : List Terminal := [.word .kwElse, .word .kwCatch, .word .kwFinally]

end Follow

/-! ## Words that are as long as they can be -/

/-- A word goes on with each of these terminals and any word of the language behind it. -/
def Absorbs (L : Language Terminal) (ts : List Terminal) (w : List Terminal) : Prop :=
  ∀ t ∈ ts, ∀ x ∈ L, w ++ t :: x ∈ L

/-- The words of a language that do not go on so. -/
def closedBefore (ts : List Terminal) (L : Language Terminal) : Language Terminal :=
  {w | w ∈ L ∧ ¬Absorbs L ts w}

/-- A word before one of the terminals either does not go on so, or it takes the rest with it. -/
theorem mul_goesOn_le {ts : List Terminal} {L X : Language Terminal} (hX : X ≤ L) :
    L * (anyOf ts.contains * X) ≤ L + closedBefore ts L * (anyOf ts.contains * X) := by
  rintro _ ⟨w, hw, _, ⟨_, ⟨t, ht, rfl⟩, x, hx, rfl⟩, rfl⟩
  by_cases hgoes : Absorbs L ts w
  · exact .inl (hgoes t (List.contains_iff_mem.1 ht) x (hX hx))
  · exact .inr ⟨w, ⟨hw, hgoes⟩, _, ⟨_, ⟨t, ht, rfl⟩, x, hx, rfl⟩, rfl⟩

/-- The expressions that no assignment goes on with. -/
def closedAssign : Language Terminal := closedBefore Follow.assigning Rule.assign.language

/-- The statements that no `else` goes on with. -/
def closedStmt : Language Terminal := closedBefore [.word .kwElse] Rule.stmt.language

/-- The parsers for what lies deeper read the words that are shorter than `n`. -/
structure Deeper.Reads (n : ℕ) (k : Deeper) : Prop where
  assignment : Parser.Reads n (.among Follow.afterAssignment) k.assignment Rule.assign.language
  closedAssignment : Parser.Complete n (.among (Follow.afterAssignment ++ Follow.assigning))
    k.assignment closedAssign
  exponent : Parser.Reads n (.without Follow.raising) k.exponent Rule.exponent.language
  unary : Parser.Reads n (.without Follow.counting) k.unary Rule.unary.language
  leftHandSide : Parser.Reads n (.without Follow.accessing) k.leftHandSide Rule.lhsExpr.language
  completeNew : Parser.Reads n .any (Parser.having Construction.extensible k.construction)
    completeNew
  bareNew : Parser.Reads n (.without Follow.accessing)
    (Parser.having (fun made => !made.extensible) k.construction) bareNew
  binding : Parser.Reads n .any k.binding Rule.binding.language
  statement : Parser.Reads n (.without Follow.prolonging) k.statement Rule.stmt.language
  closedStatement : Parser.Complete n (.without Follow.prolonging.tail) k.statement closedStmt

namespace Parser.Reads

open Rule Follow

variable {n m : ℕ} {k : Deeper} {F G : Follow}

/-! ## Names and literals -/

theorem identifier : Reads n F identifier ident.language := by
  rw [language_ident]
  exact (takeIf _).map

theorem stringLiteral : Reads n F stringLiteral string.language := by
  rw [language_only (r := string) rfl, Phrase.language_one]
  exact (take _).map

theorem numberLiteral : Reads n F numberLiteral (Phrase.one .number).language := by
  rw [Phrase.language_one]
  exact (take _).map

variable (h : k.Reads n)
include h

theorem key : Reads (n + 1) .any (key k) propName.language := by
  have hcomputed {g : Shaped Node → Shaped Key} : Reads (n + 1) .any (do
      Parser.punctuator .leftBracket
      let name ← k.assignment
      Parser.punctuator .rightBracket
      return g name) computedKey.language := by
    refine of_eq (.step (.bindOpen h.assignment (fun name => .map (.punctuator _)) ?_)) ?_
    · exact .alone fun v _ => among_cons (by decide)
    · simp [language_only (r := computedKey) rfl]
  refine ⟨?sound, ?complete⟩
  case sound =>
    refine .look fun o => ?_
    split
    · exact (Sound.of_reads (.map stringLiteral)).rule (q := string) (by simp [alternatives])
    · exact (Sound.of_reads (.map numberLiteral)).rule (by simp [alternatives])
    · exact hcomputed.sound.rule (q := computedKey) (by simp [alternatives])
    · exact (Sound.of_reads (.map identifier)).rule (q := ident) (by simp [alternatives])
  case complete =>
    refine .rule ⟨?_, ?_, ?_, ?_⟩
    · exact .lookName ⟨rfl, rfl, rfl, rfl, rfl, rfl, rfl⟩ .ident identifier.map.complete
    · exact .lookAt .string (.only rfl fun _ => rfl) stringLiteral.map.complete
    · exact .lookAt .number (.one fun _ => rfl) numberLiteral.map.complete
    · exact .lookAt (.punctuator .leftBracket) (.terminal rfl fun _ => rfl) hcomputed.complete

/-! ## Parameters and bodies -/

theorem block : Reads (n + 1) .any (block k) Rule.block.language := by
  refine of_eq (.place fun s => .step (.map (itemsUntil h.statement ?_ ?_ ?_))) ?_
  · intro w hw v hv
    have hnext := begins_stmt.firsts.without (T := .punctuator .rightBrace :: prolonging)
      (by decide) w hw v hv
    exact ⟨hnext.mono (List.subset_cons_self _ _), hnext _ List.mem_cons_self⟩
  · exact fun v => without_cons (by decide)
  · exact begins_stmt.one_le_length
  · simp [language_only (r := Rule.block) rfl]

theorem parameter : Reads n (.among afterAssignment) (parameter k) param.language := by
  refine of_eq (.place fun s => .ifTaken (.map (h.binding.anywhere (Nat.sub_le n 1)))
    (.bind h.binding fun target => .ifTaken (.map (h.assignment.mono (Nat.sub_le n 1))) (.pure _)
      (.one fun v hv => hv.without (by decide))) (begins_binding.without (by decide)).leads) ?_
  simp [language_eq param, language_only (r := restParam) rfl, alternatives, -add_eq_sup]
  abel

theorem parameters : Reads (n + 1) .any (parameters k) params.language := by
  refine of_eq (.step (.map (items (parameter h) (fun v => among_cons (by decide))
    (fun v => among_cons (by decide)) ?_ (by decide)))) ?_
  · exact .rule ⟨.seq (begins_binding.without (by decide)),
      .terminal rfl fun v => without_cons (by decide)⟩
  · simp [language_only (r := params) rfl]

theorem functionRest :
    Reads (n + 1) .any (functionRest k) (params.language * Rule.block.language) :=
  .bind (parameters h) fun _ => .map (block h)

theorem functionExpression : Reads (n + 1) .any (functionExpression k) functionExpr.language := by
  refine of_eq (.place fun s => .bindOpen (.taken _) (fun isAsync => .bind (.word _) fun _ =>
    .bindOpen (.taken _) (fun generator => .lookIf (c := (· = some (.punctuator .leftParen)))
      (.pureBind (.map (functionRest h)))
      (.bind (.fmap identifier) fun name => .map (functionRest h)) ?_ ?_) ?_)
    (.front fun v => without_cons (by decide))) ?_
  · exact Begins.leads (.terminal rfl fun v => rfl)
  · exact (Begins.ident.head_ne rfl).leads
  · exact .add (Begins.leads (.terminal rfl fun v => without_cons (by decide)))
      (Begins.ident.without (by decide)).leads
  · simp [language_only (r := functionExpr) rfl, language_only (r := asyncMark) rfl,
      language_only (r := starMark) rfl, -add_eq_sup, add_mul, mul_add]
    abel

theorem functionDeclaration : Reads (n + 1) .any (functionDeclaration k false)
    functionDecl.language := by
  refine of_eq (.place fun s => .bindOpen (.taken _) (fun isAsync =>
    .bind (.fmap (.take _)) fun _ => .bindOpen (.taken _) (fun generator => .lookAny fun o =>
      .bind (.fmap identifier) fun name => .map (functionRest h)) ?_)
    (.front fun v => without_cons (by decide))) ?_
  · exact (Begins.ident.without (by decide)).leads
  · simp [language_only (r := functionDecl) rfl, language_only (r := asyncMark) rfl,
      language_only (r := starMark) rfl]

theorem namelessFunctionDeclaration : Reads (n + 1) .any (Parser.functionDeclaration k true)
    (functionDecl.language + anonFunctionDecl.language) := by
  refine of_eq (.place fun s => .bindOpen (.taken _) (fun isAsync =>
    .bind (.fmap (.take _)) fun _ => .bindOpen (.taken _) (fun generator =>
      .lookIf (c := fun o => (true && decide (o = some (.punctuator .leftParen))) = true)
      (.pureBind (.map (functionRest h)))
      (.bind (.fmap identifier) fun name => .map (functionRest h)) ?_ ?_) ?_)
    (.front fun v => without_cons (by decide))) ?_
  · exact Begins.leads (.terminal rfl fun v => rfl)
  · exact ((Begins.ident.head_ne (t := .punctuator .leftParen) rfl).mono (by simp)).leads
  · exact .add (Begins.leads (.terminal rfl fun v => without_cons (by decide)))
      (Begins.ident.without (by decide)).leads
  · simp [language_only (r := functionDecl) rfl, language_only (r := anonFunctionDecl) rfl,
      language_only (r := asyncMark) rfl, language_only (r := starMark) rfl, -add_eq_sup, mul_add]
    abel

/-! ## Methods -/

/-- What a name that no mark stands before starts with. -/
def opensUnmarked (t : Terminal) (next : Option Terminal) : Bool :=
  !([Terminal.word .kwAsync, .punctuator .star].contains t) &&
    (!([Terminal.word .kwGet, .word .kwSet].contains t) ||
      !(next.map Terminal.startsPropertyName).getD false)

omit h in
theorem marked : Reads n (.starts Terminal.startsPropertyName)
    (having MethodMarks.marked methodMarks) methodMark := by
  have hasync {g : Bool → MethodMarks} (hg : ∀ b, (g b).marked = true) :
      Reads n (.starts Terminal.startsPropertyName) (having MethodMarks.marked (do
        Parser.word .kwAsync
        return g (← Parser.taken (.punctuator .star))))
        (asyncMark.language * (starMark.language + 1)) := by
    simp only [having_bind, having_pure (hg _), language_only (r := asyncMark) rfl,
      language_only (r := starMark) rfl, Phrase.language_one]
    exact .bind (.word _) fun _ => .map ((taken _).before fun v hv => hv.without (by decide))
  have hmark {r : Rule} {t : Terminal} {marks : MethodMarks} (hmarks : marks.marked = true)
      (hr : r.alternatives = [.one t]) : Reads n (.starts Terminal.startsPropertyName)
        (having MethodMarks.marked (do
          discard (Parser.take t)
          return marks)) r.language := by
    rw [language_only hr, Phrase.language_one]
    exact .passing (.fmap (.take t)) fun _ => hmarks
  have hnone {L : Language Terminal} {marks : MethodMarks} (hmarks : marks.marked = false) :
      Sound (having MethodMarks.marked (Pure.pure marks)) L := by
    rw [having_pure_of_false hmarks]
    exact .fail
  have hnext {r : Rule} {t : Terminal} (hr : r.alternatives = [.one t]) :
      Leads r.language (.starts Terminal.startsPropertyName) fun v =>
        (v.tail.head?.map Terminal.startsPropertyName).getD false = true := by
    rw [language_only hr, Phrase.language_one]
    refine .alone fun v hv => ?_
    obtain ⟨u, v, rfl, hu⟩ := hv
    exact hu
  simp only [methodMarks, having_bind]
  refine ⟨.lookFurther fun next => .look fun o => ?sound, .add ?async (.add ?star (.add ?get ?set))⟩
  case sound =>
    split
    · exact (hasync fun _ => rfl).sound.mono fun _ hw => .inl hw
    · exact (hmark rfl rfl).sound.mono fun _ hw => .inr (.inl hw)
    · rw [having_ite]
      refine .ite (fun _ => ?_) fun _ => hnone rfl
      exact (hmark rfl rfl).sound.mono fun _ hw => .inr (.inr (.inl hw))
    · rw [having_ite]
      refine .ite (fun _ => ?_) fun _ => hnone rfl
      exact (hmark rfl rfl).sound.mono fun _ hw => .inr (.inr (.inr hw))
    · exact hnone rfl
  case async =>
    refine .lookFurther (P := fun _ => True) (fun _ _ _ _ => trivial) fun next _ => ?_
    exact .lookAt (.word .kwAsync) (Begins.mul (.only rfl fun _ => rfl))
      (hasync fun _ => rfl).complete
  case star =>
    refine .lookFurther (P := fun _ => True) (fun _ _ _ _ => trivial) fun next _ => ?_
    exact .lookAt (.punctuator .star) (.only rfl fun _ => rfl) (hmark rfl rfl).complete
  case get =>
    refine .lookFurther (P := fun next => (next.map Terminal.startsPropertyName).getD false = true)
      (hnext rfl) fun next hnext => .lookAt (.word .kwGet) (.only rfl fun _ => rfl) ?_
    simp only [hnext, if_true]
    exact (hmark rfl rfl).complete
  case set =>
    refine .lookFurther (P := fun next => (next.map Terminal.startsPropertyName).getD false = true)
      (hnext rfl) fun next hnext => .lookAt (.word .kwSet) (.only rfl fun _ => rfl) ?_
    simp only [hnext, if_true]
    exact (hmark rfl rfl).complete

omit h in
theorem unmarked : Reads n (.opens opensUnmarked)
    (having (fun marks => !marks.marked) methodMarks) 1 := by
  simp only [methodMarks, having_bind]
  refine ⟨.lookFurther fun next => .look fun o => ?sound, ?complete⟩
  case sound =>
    split
    · exact .rejected fun _ => .rejected fun _ => .fail
    · exact .rejected fun _ => .fail
    · rw [having_ite]
      exact .ite (fun _ => .rejected fun _ => .fail) fun _ => .pure _
    · rw [having_ite]
      exact .ite (fun _ => .rejected fun _ => .fail) fun _ => .pure _
    · exact .pure _
  case complete =>
    rw [lookFurther_bind_look]
    refine .lookOpens (.one fun _ => id) fun t next ht => ?_
    split
    case h_5 => exact .pure _
    all_goals
      rename_i heq
      obtain rfl := Option.some.inj heq
      simp [opensUnmarked] at ht
    all_goals
      rw [ht]
      exact .pure _

theorem methodRest (s : Option Position) (marks : MethodMarks) (x : Shaped Key) :
    Reads (n + 1) .any (methodRest k s marks x) (params.language * Rule.block.language) :=
  .map (functionRest h)

/-! ## Classes -/

theorem fieldRest (s : Option Position) (isStatic : Bool) (x : Shaped Key) :
    Reads (n + 1) .any (fieldRest k s isStatic x)
      ((Punctuator.assign.alone * assign.language + 1) * Terminal.terminator.alone) := by
  refine of_eq (.ifTaken (.bindOpen (.fmap h.assignment) (fun value => .map .terminator) ?_)
    (.pureBind (.map .terminator)) (.alone fun v _ => without_cons (by decide))) ?_
  · exact .alone fun v _ => among_cons (by decide)
  · simp [add_mul, mul_assoc, -add_eq_sup]

theorem classMember : Reads (n + 1) .any (classMember k) Rule.classMember.language := by
  have hrest (s s' : Option Position) (isStatic : Bool) : Reads (n + 1) .any (do
      let marks ← methodMarks
      let name ← Parser.key k
      if marks.marked || (← look) = some (.punctuator .leftParen) then
        let method ← Parser.methodRest k s marks name
        return some (method.map (memberOf s' isStatic))
      return some (← Parser.fieldRest k s' isStatic name)) bareMember := by
    refine .bindHaving (d := 0) marked unmarked (fun marks hmarks => ?_) (fun marks hmarks => ?_)
      begins_propName.leads ?_ fun _ _ => Nat.zero_le _
    · simp only [hmarks, Bool.true_or, if_true]
      exact .bind (key h) fun name => .lookAny fun _ => .map (methodRest h s marks name)
    · simp only [hmarks, Bool.false_or]
      refine .bind (key h) fun name => .lookIf
        (c := fun o => decide (o = some (.punctuator .leftParen)) = true)
        (.map (methodRest h s marks name)) (.map (fieldRest h s' isStatic name)) ?_ ?_
      · exact Begins.leads (.terminal rfl fun v => by rfl)
      · rw [add_mul, one_mul, mul_assoc]
        exact .add (.front fun v => Bool.false_ne_true) (.alone fun v _ => Bool.false_ne_true)
    · refine .mul (leads_propName (by decide) ?_) begins_memberRest
      exact ⟨fun _ => rfl, fun _ => rfl, fun _ => rfl⟩
  refine of_eq (.ifTaken (.pure none) (.place fun s =>
    .lookBothIf (c := fun o next => decide (o = some (.word .kwStatic)) && !staticIsName next)
      (.bind (.word _) fun _ => .pureBind (.place fun s' => hrest s' s true))
      (.pureBind (.place fun s' => hrest s' s false)) ?mark ?name) ?_) language_classMember
  case mark =>
    refine .mul (H := fun v => staticIsName v.head? = false) (.alone fun v hv => by simp [hv]) ?_
    have hnext := starts_bareMember.without (T := [.punctuator .leftParen, .punctuator .assign,
      .terminator]) (by decide)
    exact .of_begins (hnext.mono fun v hv => by simpa [staticIsName, Follow.without] using hv)
  case name =>
    refine .of_begins (begins_bareMember.mono ?_)
    rintro _ ⟨t, v, rfl, ht⟩
    simp only [opensMember, Bool.and_eq_true, Bool.or_eq_true] at ht
    obtain ⟨_, ht | ht⟩ := ht
    · simpa using fun h : t = .word .kwStatic => absurd h (of_decide_eq_true ht)
    · simp [ht]
  · exact .add (.front fun v => without_cons (by decide))
      (.of_begins (starts_bareMember.without (by decide)))

theorem heritage : Reads (n + 1) (.among [.punctuator .leftBrace]) (heritage k)
    (classHeritage.language + 1) := by
  refine of_eq (.ifTaken (.map (h.leftHandSide.before fun v hv => hv.without (by decide))) (.pure _)
    (.one fun v hv => hv.without (by decide))) ?_
  simp [language_only (r := classHeritage) rfl]

theorem classBody : Reads (n + 1) .any (classBody k) Rule.classBody.language := by
  refine of_eq (.step (.map (itemsUntil ((classMember h).mono (Nat.le_succ n)) ?_
    (fun _ => trivial) starts_classMember.one_le_length))) ?_
  · exact (starts_classMember.head_ne rfl).mono fun v hv => ⟨trivial, hv⟩
  · simp [language_only (r := Rule.classBody) rfl]

theorem classRest : Reads (n + 1) .any (classRest k)
    ((classHeritage.language + 1) * Rule.classBody.language) :=
  .bindOpen (heritage h) (fun superclass => .map (classBody h))
    (.of_begins (.terminal rfl fun v => among_cons (by decide)))

omit h in
theorem isName_ident :
    Begins ident.language fun v => (v.head?.map Terminal.isName).getD false = true := by
  refine Begins.ident.mono ?_
  rintro _ ⟨t, u, rfl, ht⟩
  exact ht

omit h in
theorem noName_classRest : Begins ((classHeritage.language + 1) * Rule.classBody.language)
    fun v => ¬(v.head?.map Terminal.isName).getD false = true := by
  rw [add_mul, one_mul]
  exact .add (.mul (.terminal rfl fun v => Bool.false_ne_true))
    (.terminal rfl fun v => Bool.false_ne_true)

theorem classExpression : Reads (n + 1) .any (classExpression k) classExpr.language := by
  refine of_eq (.place fun s => .bind (.word _) fun _ =>
    .lookIf (c := fun o => (o.map Terminal.isName).getD false = true)
      (.bind (.fmap identifier) fun name => .map (classRest h)) (.pureBind (.map (classRest h)))
      isName_ident.leads noName_classRest) ?_
  · simp [language_only (r := classExpr) rfl, -add_eq_sup, add_mul]

theorem classDeclaration : Reads (n + 1) .any (classDeclaration k false) classDecl.language := by
  unfold Parser.classDeclaration
  simp only [Bool.not_false, Bool.or_true, if_true]
  refine of_eq (.place fun s => .bind (.fmap (.take _)) fun _ => .lookAny fun o =>
    .bind (.fmap identifier) fun name => .map (classRest h)) ?_
  simp [language_only (r := classDecl) rfl, -add_eq_sup]

theorem namelessClassDeclaration : Reads (n + 1) .any (Parser.classDeclaration k true)
    (classDecl.language + anonClassDecl.language) := by
  unfold Parser.classDeclaration
  simp only [Bool.not_true, Bool.or_false]
  refine of_eq (.place fun s => .bind (.fmap (.take _)) fun _ =>
    .lookIf (c := fun o => (o.map Terminal.isName).getD false = true)
      (.bind (.fmap identifier) fun name => .map (classRest h)) (.pureBind (.map (classRest h)))
      isName_ident.leads noName_classRest) ?_
  · simp [language_only (r := classDecl) rfl, language_only (r := anonClassDecl) rfl, -add_eq_sup,
      mul_add]

end Parser.Reads

end ModuleLowering
