import ModuleLowering.Proofs.ReadingFunctions

/-!
# What expressions read

The rules for expressions read the words of the grammar. What might be a parameter list is read as
an operand first, so an operand that has parameters is followed through all the rules that pass it
on.
-/

set_option autoImplicit false

namespace ModuleLowering.Parser.Reads

open Computability Rule Follow

variable {n m : ℕ} {k : Deeper} {F G : Follow} (h : k.Reads n)
include h

/-! ## Arrays and objects -/

theorem arrayElement : Reads n (.among afterAssignment) (arrayElement k)
    Rule.arrayElement.language := by
  refine of_eq (.place fun s => .ifTaken (.map (h.assignment.mono (Nat.sub_le n 1))) h.assignment
    (.of_begins (begins_assign.firsts.without (by decide)))) ?_
  simp [language_eq Rule.arrayElement, language_only (r := spread) rfl, alternatives, -add_eq_sup]
  abel

omit h in
theorem starts_arrayElement : Begins Rule.arrayElement.language
    (.starts fun t => t.startsExpression || t = .punctuator .ellipsis) :=
  .rule ⟨begins_assign.firsts.mono fun _ hv => hv.mono (by simp +contextual),
    .terminal rfl fun _ => starts_cons.2 rfl⟩

theorem arrayElements {fuel : ℕ} (hm : m ≤ n) (hfuel : m ≤ fuel) :
    Reads m .any (arrayElements k fuel) arrayRest := by
  induction fuel generalizing m with
  | zero =>
    obtain rfl := Nat.le_zero.1 hfuel
    exact .exhausted
  | succ fuel ih =>
    have hmore : Reads (m - 1) .any (Parser.arrayElements k fuel) arrayRest :=
      ih (Nat.le_trans (Nat.sub_le m 1) hm) (by omega)
    refine of_eq (.ifTaken (.pure []) (.ifTaken (.map hmore)
      (.bindOpen ((arrayElement h).mono hm) (fun element => .ifTaken (.map hmore)
        (.map (.punctuator _)) ?_) ?_) ?_) ?_) ?_
    · exact .alone fun v _ => without_cons (by decide)
    · exact .add (.front fun v => among_cons (by decide)) (.alone fun v _ => among_cons (by decide))
    · exact (starts_arrayElement.without (by decide)).leads
    · exact .add (.front fun v => without_cons (by decide))
        (starts_arrayElement.without (by decide)).leads
    · rw [mul_one]
      exact arrayRest_eq

theorem array : Reads (n + 1) .any (array k) arrayLit.language := by
  rw [language_arrayLit]
  exact .place fun s => .step (.left fun m => .map
    (arrayElements h (Nat.min_le_left n _) (Nat.min_le_right n _)))

theorem namedProperty (s : Option Position) (x : Shaped Key) :
    Reads n (.among [.punctuator .comma, .punctuator .rightBrace]) (namedProperty k s true x)
      namedRest := by
  unfold Parser.namedProperty
  simp only [Bool.not_true, Bool.false_eq_true, if_false]
  have hvalue : Reads (n - 1) (.among [.punctuator .comma, .punctuator .rightBrace]) k.assignment
      assign.language :=
    (h.assignment.mono (Nat.sub_le n 1)).before fun v hv => hv.mono (by decide)
  refine .ifTaken (.map hvalue) (.lookIf (c := (· = some (.punctuator .leftParen)))
    (.map ((methodRest h s _ x).anywhere (Nat.le_succ n)))
    (.ifTaken (.map hvalue) (.pure _) (.one fun v hv => hv.without (by decide))) ?_ ?_) ?_
  · exact Begins.leads (.terminal rfl fun _ => rfl)
  · exact .add (.front fun v => nofun)
      (.one fun v hv => hv.head_ne (by decide))
  · exact .add (Begins.leads (.terminal rfl fun _ => without_cons (by decide)))
      (.add (.front fun v => without_cons (by decide)) (.one fun v hv => hv.without (by decide)))

theorem otherProperty (s : Option Position) (x : Shaped Key) :
    Reads n (.among [.punctuator .comma, .punctuator .rightBrace])
      (Parser.namedProperty k s false x) otherRest := by
  unfold Parser.namedProperty
  simp only [Bool.not_false, if_true]
  refine of_eq (.ifTaken (.map ((h.assignment.mono (Nat.sub_le n 1)).before
    fun v hv => hv.mono (by decide))) (.lookIf (c := (· = some (.punctuator .leftParen)))
      (.map ((methodRest h s _ x).anywhere (Nat.le_succ n))) .failBind ?_ .zero) ?_)
    (by rw [add_zero]; rfl)
  · exact Begins.leads (.terminal rfl fun _ => rfl)
  · exact .add (Begins.leads (.terminal rfl fun _ => without_cons (by decide))) .zero

theorem objectProperty : Reads n (.among [.punctuator .comma, .punctuator .rightBrace])
    (objectProperty k) objectProp.language := by
  have hspread : Reads (n - 1) (.among [.punctuator .comma, .punctuator .rightBrace]) k.assignment
      assign.language := (h.assignment.mono (Nat.sub_le n 1)).before fun v hv => hv.mono (by decide)
  refine of_eq (.place fun s => .ifTaken (.map hspread) (.bindHaving (d := 0) marked unmarked
    (fun marks hmarks => ?_) (fun marks hmarks => ?_) begins_propName.leads ?_
    fun _ _ => Nat.zero_le _) ?_) language_objectProp
  · simp only [hmarks, if_true]
    exact .lookAny fun o => .bind ((key h).mono (Nat.le_succ n)) fun name =>
      .map ((methodRest h s marks name).anywhere (Nat.le_succ n))
  · simp only [hmarks, Bool.false_eq_true, if_false]
    refine .lookThen (c := fun o => (o.map Terminal.isName).getD false)
      (f := fun isName name => Parser.namedProperty k s isName name) (F := .any) ?_ ?_ ?_
      (fun name => namedProperty h s name) (fun name => otherProperty h s name) .any .any
    · exact language_propName ▸ (key h).mono (Nat.le_succ n)
    · exact isName_ident
    · refine begins_otherName.mono fun v hv => ?_
      obtain ⟨t, u, rfl, ht⟩ := hv
      have hother : ∀ t ∈ [Terminal.string, .number, .punctuator .leftBracket],
          t.isName = false := by decide
      exact hother t (List.contains_iff_mem.1 ht)
  · have hname : Leads propName.language (.among [.punctuator .colon, .punctuator .leftParen,
        .punctuator .assign, .punctuator .comma, .punctuator .rightBrace]) (.opens opensUnmarked) :=
      leads_propName (by decide) ⟨fun _ => rfl, fun _ => rfl, fun _ => rfl⟩
    rw [language_propName] at hname
    refine .add (.mul (hname.le le_self_add) (.add (.front fun v => ?_)
      (.add (Begins.leads (.terminal rfl fun v => ?_)) (.add (.front fun v => ?_)
        (.one fun v hv => hv.mono (by decide))))))
      (.mul (hname.le le_add_self) (.add (.front fun v => ?_)
        (Begins.leads (.terminal rfl fun v => ?_))))
    all_goals exact among_cons (by decide)
  · rw [one_mul]
    refine .add (begins_methodMark.without ?_).leads (.add (Begins.ident.without (by decide)).leads
      (begins_otherName.without ?_).leads)
    all_goals decide

theorem object : Reads (n + 1) .any (object k) objectLit.language := by
  refine of_eq (.place fun s => .step (.map (items (objectProperty h)
    (fun v => among_cons (by decide)) (fun v => among_cons (by decide))
    (starts_objectProp.without (by decide)) (by decide)))) ?_
  simp [language_only (r := objectLit) rfl]

theorem binding : Reads (n + 1) .any (binding k) Rule.binding.language := by
  refine ⟨.look fun o => ?sound, .rule ⟨?_, ?_, ?_⟩⟩
  case sound =>
    split
    · exact (array h).map.sound.rule (q := arrayLit) (by simp [alternatives])
    · exact (object h).map.sound.rule (q := objectLit) (by simp [alternatives])
    · exact (Sound.of_reads (.map identifier)).rule (q := ident) (by simp [alternatives])
  · exact .lookName ⟨rfl, rfl, rfl, rfl, rfl, rfl, rfl⟩ .ident identifier.map.complete
  · exact .lookAt (.punctuator .leftBracket) (begins_arrayLit fun _ => rfl) (array h).map.complete
  · exact .lookAt .objectBrace (.terminal rfl fun _ => rfl) (object h).map.complete

/-! ## Primary expressions -/

omit h in
theorem commaExpression {p : Parser (Shaped Node)}
    (hp : Reads m (.among afterAssignment) p assign.language) :
    Reads m (.among afterExpression) (commaExpression p) Rule.expression.language := by
  unfold Parser.commaExpression
  simp only [Parser.parts, bind_assoc, pure_bind]
  rw [language_expression]
  exact .place fun s => partsWith hp (fun v => among_cons (by decide))
    (fun v hv => hv.mono (by decide)) fun v hv => hv.without (by decide)

theorem innerExpression : Reads n (.among afterExpression) (Parser.commaExpression k.assignment)
    Rule.expression.language := commaExpression h.assignment

theorem restParameter : Reads n .any (restParameter k) Rule.binding.language := .map h.binding

theorem moreInParentheses {fuel : ℕ} (hm : m ≤ n) (hfuel : m ≤ fuel) :
    Reads m .any (moreInParentheses k fuel) parenthesizedRest := by
  induction fuel generalizing m with
  | zero =>
    obtain rfl := Nat.le_zero.1 hfuel
    exact .exhausted
  | succ fuel ih =>
    have hless : m - 1 ≤ n := Nat.le_trans (Nat.sub_le m 1) hm
    refine of_eq (.ifTaken (.pure _) (.step (.ifTaken
      (.bind ((restParameter h).mono (Nat.le_trans (Nat.sub_le _ 1) hless)) fun rest =>
        .map (.punctuator _))
      (.bindOpen (h.assignment.mono hless) (fun item => .map (ih hless (by omega))) ?_)
      (begins_assign.firsts.without (by decide)).leads))
      (.front fun v => without_cons (by decide))) ?_
    · rw [parenthesizedRest_eq]
      exact .add (.alone fun v _ => among_cons (by decide)) (.front fun v => among_cons (by decide))
    · rw [mul_one]
      exact parenthesizedRest_eq

theorem parenthesized : Reads (n + 1) .any (parenthesized k) Rule.parenthesized.language := by
  rw [language_parenthesized]
  refine of_eq (.place fun s => .step (.ifTaken (.pure _) (.ifTaken
    (.bind ((restParameter h).mono (Nat.sub_le n 1)) fun rest => .map (.punctuator _))
    (.place fun inner => .bindOpen h.assignment (fun first => .left fun m => .bind (M := 1)
      (moreInParentheses h (Nat.min_le_left n _) (Nat.min_le_right n _)) fun found => ?_) ?_)
    (begins_assign.firsts.without (by decide)).leads) ?_)) ?_
  · split
    · exact .pure _
    · exact .pure _
  · rw [mul_one, parenthesizedRest_eq]
    exact .add (.alone fun v _ => among_cons (by decide)) (.front fun v => among_cons (by decide))
  · exact .add (.front fun v => without_cons (by decide))
      (begins_assign.firsts.without (by decide)).leads
  · simp only [mul_one, Terminal.alone_punctuator]

omit h in
/-- What is in parentheses may be a parameter list. -/
theorem isSome_parenthesized {ts rest : List Token} {a : Operand}
    (hr : (Parser.parenthesized k).run ts = .ok (a, rest)) : a.parameters.isSome = true := by
  unfold Parser.parenthesized at hr
  obtain ⟨s, _, _, hr⟩ := run_bind_ok.1 hr
  obtain ⟨_, _, _, hr⟩ := run_bind_ok.1 hr
  obtain ⟨isEmpty, _, _, hr⟩ := run_bind_ok.1 hr
  split at hr
  · obtain ⟨rfl, _⟩ := run_pure_ok.1 hr
    rfl
  obtain ⟨isRest, _, _, hr⟩ := run_bind_ok.1 hr
  split at hr
  · obtain ⟨_, _, _, hr⟩ := run_bind_ok.1 hr
    obtain ⟨_, _, _, hr⟩ := run_bind_ok.1 hr
    obtain ⟨rfl, _⟩ := run_pure_ok.1 hr
    rfl
  · obtain ⟨_, _, _, hr⟩ := run_bind_ok.1 hr
    obtain ⟨_, _, _, hr⟩ := run_bind_ok.1 hr
    obtain ⟨_, _, _, hr⟩ := run_bind_ok.1 hr
    obtain ⟨found, _, _, hr⟩ := run_bind_ok.1 hr
    cases hrest : found.rest <;> rw [hrest] at hr <;> obtain ⟨rfl, _⟩ := run_pure_ok.1 hr <;> rfl

omit h in
theorem memberName : Reads n F memberName propIdent.language := by
  rw [language_only (r := propIdent) rfl, Phrase.language_one]
  exact .map (take _)

omit h in
theorem metaProperty (s : Option Position) (object expected : Text) :
    Reads n F (metaProperty s object expected) (Punctuator.dot.alone * propIdent.language) :=
  .bind (.punctuator _) fun _ => .map memberName

omit h in
theorem wordLiteral (w : Word) (value : Value) :
    Reads n F (wordLiteral w value) (Phrase.one (.word w)).language := by
  rw [Phrase.language_one]
  exact .place fun s => .map (.word w)

theorem primary : Reads (n + 1) .any (primary k) (Phrase.choice plainPrimary).language := by
  have hone {t : Terminal} {g : Token → Operand} : Reads (n + 1) .any (do
      let token ← Parser.take t
      return g token) (Phrase.one t).language := by
    rw [Phrase.language_one]
    exact .map (take t)
  have hword {w : Word} {a : Operand} : Reads (n + 1) .any (do
      Parser.word w
      return a) (Phrase.one (.word w)).language := by
    rw [Phrase.language_one]
    exact .map (.word w)
  have htemplate {g : Token → Operand} : Reads (n + 1) .any (do
      let token ← Parser.take .template
      return g token) template.language := language_only (r := template) rfl ▸ hone
  have himport {s : Option Position} : Reads (n + 1) .any (do
      Parser.word .kwImport
      return Operand.plain (← Parser.metaProperty s "import" "meta")) importMeta.language := by
    refine of_eq (.bind (.word _) fun _ => .map (metaProperty _ _ _)) ?_
    simp [language_only (r := importMeta) rfl]
  have hnumber : Reads (n + 1) .any (do return .plain (← Parser.numberLiteral) : Parser Operand)
      (Phrase.one .number).language := .map numberLiteral
  have hstring : Reads (n + 1) .any (do return .plain (← Parser.stringLiteral) : Parser Operand)
      string.language := .map stringLiteral
  have hname {g : Node → Operand} : Reads (n + 1) .any (do
      let name ← Parser.identifier
      return g name) ident.language := .map identifier
  refine .place fun s => ⟨.look fun o => ?sound, .choice ?complete⟩
  case sound =>
    split
    · exact hnumber.sound.choice (by simp [plainPrimary, simplePrimary])
    · exact hstring.sound.choice (q := string) (by simp [plainPrimary, simplePrimary])
    · exact htemplate.sound.choice (q := template) (by simp [plainPrimary, simplePrimary])
    · exact hone.sound.choice (by simp [plainPrimary, simplePrimary])
    · exact (object h).map.sound.choice (q := objectLit) (by simp [plainPrimary, simplePrimary])
    · exact (array h).map.sound.choice (q := arrayLit) (by simp [plainPrimary, simplePrimary])
    · exact (parenthesized h).sound.choice (q := Rule.parenthesized)
        (by simp [plainPrimary, simplePrimary])
    · exact (Sound.of_reads (wordLiteral _ _)).choice (by simp [plainPrimary, simplePrimary])
    · exact (Sound.of_reads (wordLiteral _ _)).choice (by simp [plainPrimary, simplePrimary])
    · exact (Sound.of_reads (wordLiteral _ _)).choice (by simp [plainPrimary, simplePrimary])
    · exact hword.sound.choice (by simp [plainPrimary, simplePrimary])
    · exact hword.sound.choice (by simp [plainPrimary, simplePrimary])
    · exact himport.sound.choice (q := importMeta) (by simp [plainPrimary, simplePrimary])
    · exact (functionExpression h).map.sound.choice (q := functionExpr)
        (by simp [plainPrimary, simplePrimary])
    · exact (functionExpression h).map.sound.choice (q := functionExpr)
        (by simp [plainPrimary, simplePrimary])
    · exact (classExpression h).map.sound.choice (q := classExpr)
        (by simp [plainPrimary, simplePrimary])
    · exact hname.sound.choice (q := ident) (by simp [plainPrimary, simplePrimary])
  case complete =>
    refine ⟨.lookAt (.word .kwImport) (.terminal rfl fun _ => rfl) himport.complete,
      .lookName ⟨rfl, rfl, rfl, rfl, rfl, rfl, rfl⟩ .ident hname.complete,
      .lookAt .number (.one fun _ => rfl) hnumber.complete,
      .lookAt .string (.only rfl fun _ => rfl) hstring.complete,
      .lookAt .template (.only rfl fun _ => rfl) htemplate.complete,
      .lookAt .regex (.one fun _ => rfl) hone.complete,
      .lookAt (.word .kwTrue) (.one fun _ => rfl) (wordLiteral _ _).complete,
      .lookAt (.word .kwFalse) (.one fun _ => rfl) (wordLiteral _ _).complete,
      .lookAt (.word .kwNull) (.one fun _ => rfl) (wordLiteral _ _).complete,
      .lookAt (.word .kwThis) (.one fun _ => rfl) hword.complete,
      .lookAt (.word .kwSuper) (.one fun _ => rfl) hword.complete,
      .lookAt (.punctuator .leftBracket) ?array (array h).map.complete,
      .lookAt .objectBrace (.terminal rfl fun _ => rfl) (object h).map.complete, ?function,
      .lookAt (.word .kwClass) (.terminal rfl fun _ => rfl) (classExpression h).map.complete,
      .lookAt (.punctuator .leftParen) ?parenthesized (parenthesized h).complete⟩
    case array => exact begins_arrayLit fun _ => rfl
    case parenthesized => exact begins_parenthesized fun _ => rfl
    case function =>
      refine .lookStarts among_functionExpr fun t ht => ?_
      simp only [List.contains_iff_mem, List.mem_cons, List.not_mem_nil, or_false] at ht
      rcases ht with rfl | rfl
      · exact (functionExpression h).map.complete
      · exact (functionExpression h).map.complete

omit h in
/-- What is no parameter list. -/
theorem plain {α : Type} {p : Parser α} {g : α → Shaped Node} {L : Language Terminal} :
    Sound (having (·.parameters.isSome) (do return Operand.plain (g (← p)))) L :=
  .rejected fun _ => .fail

/-- A name, or what is in parentheses, as the parameters of an arrow function. -/
theorem primaryParams : Reads (n + 1) .any (having (·.parameters.isSome) (Parser.primary k))
    arrowParams.language := by
  have hname : Reads (n + 1) .any (having (fun a : Operand => a.parameters.isSome) (do
      let name ← Parser.identifier
      return ⟨.ok name, some (.ok [name])⟩)) ident.language := .passing identifier fun _ => rfl
  have hparenthesized := having_of_true (parenthesized h) fun _ _ _ => isSome_parenthesized
  simp only [Parser.primary, having_bind]
  refine .place fun s => ⟨.look fun o => ?sound, .rule ⟨?_, ?_⟩⟩
  case sound =>
    split
    case h_7 => exact hparenthesized.sound.rule (q := Rule.parenthesized) (by simp [alternatives])
    case h_17 => exact hname.sound.rule (q := ident) (by simp [alternatives])
    case h_8 | h_9 | h_10 =>
      unfold Parser.wordLiteral
      rw [having_bind]
      exact .place fun s => plain
    case h_13 => exact .rejected fun _ => plain
    all_goals exact plain
  · exact .lookName ⟨rfl, rfl, rfl, rfl, rfl, rfl, rfl⟩ .ident hname.complete
  · exact .lookAt (.punctuator .leftParen) (begins_parenthesized fun _ => rfl)
      hparenthesized.complete

/-! ## Members and calls -/

omit h in
theorem language_argument : Rule.argument.language = Rule.arrayElement.language := by
  rw [language_eq, language_eq]
  rfl

theorem argument : Reads n (.among afterAssignment) (argument k) Rule.argument.language :=
  language_argument ▸ arrayElement h

theorem arguments : Reads (n + 1) .any (arguments k) Rule.arguments.language := by
  refine of_eq (.step (.map (items (argument h) (fun v => among_cons (by decide))
    (fun v => among_cons (by decide)) ?_ (by decide)))) ?_
  · rw [language_argument]
    exact starts_arrayElement.without (by decide)
  · simp [language_only (r := Rule.arguments) rfl]

omit h in
theorem memberOfName (s : Option Position) (isOptional : Bool) (x : Shaped Node) :
    Reads n F (memberOfName s isOptional x) propIdent.language := .map memberName

theorem memberOfIndex (s : Option Position) (isOptional : Bool) (x : Shaped Node) :
    Reads (n + 1) .any (memberOfIndex k s isOptional x) (Punctuator.leftBracket.alone *
      (Rule.expression.language * Punctuator.rightBracket.alone)) := by
  refine .step (.bindOpen (innerExpression h) (fun index => .map (.punctuator _)) ?_)
  exact .alone fun v _ => among_cons (by decide)

omit h in
theorem tagged (s : Option Position) (x : Shaped Node) :
    Reads n F (tagged s x) template.language := by
  rw [language_only (r := template) rfl, Phrase.language_one]
  exact .map (take _)

theorem call (s : Option Position) (isOptional : Bool) (x : Shaped Node) :
    Reads (n + 1) .any (call k s isOptional x) Rule.arguments.language := .map (arguments h)

theorem optionalAccess (s : Option Position) (x : Shaped Node) :
    Reads (n + 1) .any (optionalAccess k s x) (Punctuator.optionalChain.alone *
      (propIdent.language + (Punctuator.leftBracket.alone *
        (Rule.expression.language * Punctuator.rightBracket.alone) +
          Rule.arguments.language))) := by
  refine .bind (.punctuator _) fun _ => ⟨.look fun o => ?sound, .add ?_ (.add ?_ ?_)⟩
  case sound =>
    split
    · exact (memberOfIndex h s true x).sound.mono fun _ hw => .inr (.inl hw)
    · exact (call h s true x).sound.mono fun _ hw => .inr (.inr hw)
    · exact (Sound.of_reads (memberOfName s true x)).mono fun _ hw => .inl hw
  · exact .lookAt .name (.only rfl fun _ => rfl) (memberOfName s true x).complete
  · exact .lookAt (.punctuator .leftBracket) (.mul (.alone fun _ => rfl))
      (memberOfIndex h s true x).complete
  · exact .lookAt (.punctuator .leftParen) (.terminal rfl fun _ => rfl) (call h s true x).complete

/-- One more member, template or, where `calls` holds, call or optional access. -/
def accessPart (calls : Bool) : Language Terminal :=
  memberPart + if calls then callPart else 0

/-- What `accesses` goes on with. -/
def goingOn (calls : Bool) : List Terminal := if calls then accessing else accessing.take 3

theorem access (s : Option Position) (calls : Bool) (x : Shaped Node) :
    Reads (n + 1) .any (having Option.isSome (access? k s calls x)) (accessPart calls) := by
  have hsome {p : Parser (Shaped Node)} {L : Language Terminal} (hp : Reads (n + 1) .any p L) :
      Reads (n + 1) .any (having Option.isSome (do return some (← p))) L := .passing hp fun _ => rfl
  have hdot : Reads (n + 1) .any (having Option.isSome (do
      Parser.punctuator .dot
      return some (← Parser.memberOfName s false x)))
      (Punctuator.dot.alone * propIdent.language) := by
    rw [having_bind]
    exact .bind (.punctuator _) fun _ => hsome (memberOfName s false x)
  simp only [access?, having_bind]
  refine ⟨.look fun o => ?sound, .add (.add ?_ (.add ?_ ?_)) ?_⟩
  case sound =>
    split
    · exact hdot.sound.mono fun _ hw => .inl (.inl hw)
    · exact (hsome (memberOfIndex h s false x)).sound.mono fun _ hw => .inl (.inr (.inl hw))
    · exact (hsome (tagged s x)).sound.mono fun _ hw => .inl (.inr (.inr hw))
    · rw [having_ite]
      refine .ite (fun hcalls => (hsome (call h s false x)).sound.mono fun _ hw => .inr ?_)
        fun _ => .fail
      rw [if_pos hcalls]
      exact .inl hw
    · rw [having_ite]
      refine .ite (fun hcalls => (hsome (optionalAccess h s x)).sound.mono fun _ hw => .inr ?_)
        fun _ => .fail
      rw [if_pos hcalls]
      exact .inr hw
    · exact .fail
  · exact .lookAt (.punctuator .dot) (.mul (.alone fun _ => rfl)) hdot.complete
  · exact .lookAt (.punctuator .leftBracket) (.mul (.alone fun _ => rfl))
      (hsome (memberOfIndex h s false x)).complete
  · exact .lookAt .template (.only rfl fun _ => rfl) (hsome (tagged s x)).complete
  · cases calls
    · exact ⟨fun hpre => hpre.elim⟩
    · exact .add (.lookAt (.punctuator .leftParen) (.terminal rfl fun _ => rfl)
        (hsome (call h s false x)).complete) (.lookAt (.punctuator .optionalChain)
          (.mul (.alone fun _ => rfl)) (hsome (optionalAccess h s x)).complete)

omit h in
theorem noAccess (s : Option Position) (calls : Bool) (x : Shaped Node) :
    Reads n (.without (goingOn calls)) (having (fun a => !a.isSome) (access? k s calls x)) 1 := by
  have hsome {p : Parser (Shaped Node)} {L : Language Terminal} :
      Sound (having (fun a => !a.isSome) (do return some (← p))) L := .rejected fun _ => .fail
  simp only [access?, having_bind]
  refine ⟨.look fun o => ?sound, .look (P := fun o => ∀ t ∈ goingOn calls, o ≠ some t)
    (.one fun v hv => hv) fun o ho => ?complete⟩
  case sound =>
    split
    · exact .rejected fun _ => hsome
    · exact hsome
    · exact hsome
    · rw [having_ite]
      exact .ite (fun _ => hsome) fun _ => .pure none
    · rw [having_ite]
      exact .ite (fun _ => hsome) fun _ => .pure none
    · exact .pure none
  case complete =>
    split
    · exact absurd rfl (ho _ (by cases calls <;> decide))
    · exact absurd rfl (ho _ (by cases calls <;> decide))
    · exact absurd rfl (ho _ (by cases calls <;> decide))
    · cases calls
      · exact .pure none
      · exact absurd rfl (ho _ (by decide))
    · cases calls
      · exact .pure none
      · exact absurd rfl (ho _ (by decide))
    · exact .pure none

omit h in
theorem begins_accessPart (calls : Bool) : Begins (accessPart calls) (.among accessing) := by
  refine .add (begins_memberPart.mono fun v hv => hv.mono (by decide)) ?_
  cases calls
  · exact .zero
  · exact begins_callPart.mono fun v hv => hv.mono (by decide)

theorem accesses (s : Option Position) (calls : Bool) {fuel : ℕ} (hm : m ≤ n + 1)
    (hfuel : m ≤ fuel) (x : Shaped Node) :
    Reads m (.without (goingOn calls)) (accesses k s calls fuel x) (accessPart calls)∗ := by
  induction fuel generalizing m x with
  | zero =>
    obtain rfl := Nat.le_zero.1 hfuel
    exact .exhausted
  | succ fuel ih =>
    refine of_eq (.bindHaving (d := 1) (M := (accessPart calls)∗) ((access h s calls x).mono hm)
      (noAccess s calls x) ?_ ?_ .any (.one fun _ => id) ?_) ?_
    · rintro (_ | longer) hlonger
      · cases hlonger
      · exact ih (by omega) (by omega) longer
    · rintro (_ | longer) hlonger
      · exact .pure x
      · cases hlonger
    · exact (begins_accessPart calls).one_le_length
    · rw [mul_one, add_comm, one_add_mul_kstar]

/-! ## What starts with `new` -/

omit h in
theorem accessPart_false : accessPart false = memberPart := add_zero memberPart

/-- What may be constructed, with its members, and may have arguments. -/
theorem constructedExtensible : Reads n (.without (goingOn false))
    (having Construction.extensible (constructed k)) memberExpr.language := by
  have hmembers {s : Option Position} {first : Construction} (hfirst : first.extensible = true) :
      Reads n (.without (goingOn false)) (if first.extensible = true then do
          let fuel ← Parser.left
          let node ← Parser.accesses k s false (fuel + 1) first.node
          having Construction.extensible (Pure.pure ⟨node, true⟩)
        else having Construction.extensible (Pure.pure first)) (accessPart false)∗ := by
    rw [if_pos hfirst]
    exact .left fun m => .map (accesses h s false
      (Nat.le_trans (Nat.min_le_left n _) (Nat.le_succ n)) (Nat.min_le_right n _) first.node)
  simp only [constructed, having_bind, having_ite]
  refine of_eq (.place fun s => .lookIf (c := (· = some (.word .kwNew)))
    (.bindHaving (d := 0) (M := (accessPart false)∗) h.completeNew h.bareNew
      (fun first hfirst => hmembers hfirst) (fun first hfirst => ?_) .any .zero
      fun _ _ => Nat.zero_le _)
    (.bind ((primary h).mono (Nat.le_succ n)) fun first => .pureBind (hmembers rfl)) ?_ ?_) ?_
  · rw [hfirst, if_neg Bool.false_ne_true]
    exact .failed hfirst
  · exact .add (begins_completeNew fun _ => rfl).leads (begins_bareNew fun _ => rfl).leads
  · exact (begins_plainPrimary.firsts.head_ne rfl).leads
  · rw [language_memberExpr, accessPart_false, mul_zero, add_zero, add_mul, add_comm]

/-- What may be constructed and has no arguments for a `new` in it. -/
theorem constructedBare : Reads n (.without accessing)
    (having (fun made => !made.extensible) (constructed k)) bareNew := by
  have hmembers {s : Option Position} {first : Construction} (hfirst : first.extensible = true) :
      Reads n (.without accessing) (if first.extensible = true then do
          let fuel ← Parser.left
          let node ← Parser.accesses k s false (fuel + 1) first.node
          having (fun made => !made.extensible) (Pure.pure ⟨node, true⟩)
        else having (fun made => !made.extensible) (Pure.pure first)) 0 := by
    rw [if_pos hfirst]
    exact .nothing fun m => .never fun node => .fail
  simp only [constructed, having_bind, having_ite]
  refine of_eq (.place fun s => .lookIf (c := (· = some (.word .kwNew)))
    (.bindHaving (d := 0) h.completeNew h.bareNew (M := 0)
      (fun first hfirst => hmembers hfirst) (fun first hfirst => ?_) .any (.one fun _ => id)
      fun _ _ => Nat.zero_le _)
    (.bind ((primary h).mono (Nat.le_succ n)) fun first => .pureBind (hmembers rfl)) ?_ ?_) ?_
  · rw [hfirst, if_neg Bool.false_ne_true]
    exact .passed (by rw [hfirst]; rfl)
  · exact .add (begins_completeNew fun _ => rfl).leads (begins_bareNew fun _ => rfl).leads
  · exact (begins_plainPrimary.firsts.head_ne rfl).leads
  · rw [mul_zero, mul_zero, zero_add, add_zero, mul_one]

omit h in
/-- What is constructed does not start with the dot of `new.target`. -/
theorem noDot {L M : Language Terminal} : Leads (memberExpr.language * L + bareNew * M) G
    fun v => ¬v.head? = some (.punctuator .dot) :=
  .add (begins_memberExpr.firsts.head_ne rfl).leads (begins_bareNew fun _ => nofun).leads

theorem construction : Reads (n + 1) .any (having Construction.extensible (construction k))
    completeNew := by
  simp only [Parser.construction, having_bind, having_ite]
  refine of_eq (.place fun s => .step (.lookIf (c := (· = some (.punctuator .dot)))
    (.map (metaProperty _ _ _)) (.bindHaving (d := 0) (M := Rule.arguments.language + 0) (N := 0)
      (constructedExtensible h) (constructedBare h) (fun callee hcallee => ?_)
      (fun callee hcallee => ?_) ?_ .zero fun _ _ => Nat.zero_le _) (.front fun _ => rfl) noDot)) ?_
  · simp only [hcallee, Bool.true_and]
    refine .lookIf (c := fun o => decide (o = some (.punctuator .leftParen)) = true)
      (.map ((arguments h).mono (Nat.le_succ n))) (.failed rfl) ?_ .zero
    exact Begins.mono (.terminal rfl fun _ => rfl) fun _ => id
  · simp only [hcallee, Bool.false_and, Bool.false_eq_true, if_false]
    exact .lookAny fun o => .failed rfl
  · exact .add (.of_begins (.terminal rfl fun _ => without_cons (by decide))) .zero
  · simp [completeNew, language_only (r := newTarget) rfl, mul_add, -add_eq_sup]

theorem bareConstruction : Reads (n + 1) (.without accessing)
    (having (fun made => !made.extensible) (Parser.construction k)) bareNew := by
  simp only [Parser.construction, having_bind, having_ite]
  refine of_eq (.place fun s => .step (.lookIf (c := (· = some (.punctuator .dot)))
    (.nothing fun _ => .fail) (.bindHaving (d := 0) (M := 0 + 1) (N := 1)
      (constructedExtensible h) (constructedBare h) (fun callee hcallee => ?_)
      (fun callee hcallee => ?_) ?_ (.one fun _ => id) fun _ _ => Nat.zero_le _) .zero noDot)) ?_
  · simp only [hcallee, Bool.true_and]
    refine .lookIf (c := fun o => decide (o = some (.punctuator .leftParen)) = true)
      (.nothing fun _ => .fail) (.passed rfl) .zero (.one fun v hv => ?_)
    simpa using hv (.punctuator .leftParen) (by decide)
  · simp only [hcallee, Bool.false_and, Bool.false_eq_true, if_false]
    exact .lookAny fun o => .passed rfl
  · exact .add .zero (.one fun v hv => hv.mono (by decide))
  · rw [zero_add, zero_add, mul_one, mul_one]
    conv_lhs => rw [bareNew, language_newExpr]
    rw [Terminal.alone_word]

theorem importCall (s : Option Position) :
    Reads (n + 1) .any (importCall k s) Rule.importCall.language := by
  refine of_eq (.bind (.word _) fun _ => .step (.bindOpen h.assignment (fun source =>
    .map (.punctuator _)) (.alone fun v _ => among_cons (by decide)))) ?_
  simp [language_only (r := Rule.importCall) rfl]

end ModuleLowering.Parser.Reads
