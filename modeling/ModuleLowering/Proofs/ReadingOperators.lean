import ModuleLowering.Proofs.ReadingExpressions

/-!
# What operators read

The rules for members and calls and for operators read the words of the grammar. An operand goes
through all of them before it is known whether an arrow comes next, so each of them is followed for
the words that may be parameters too.
-/

set_option autoImplicit false

namespace ModuleLowering.Parser

open Computability Rule Follow

/-- A parser reads the words of the language, and what it reads with parameters are the words that
may stand before an arrow, where none of the terminals comes next. -/
structure ReadsOperand (n : ℕ) (T : List Terminal) (p : Parser Operand) (L : Language Terminal) :
    Prop where
  reads : Reads n (.without T) p L
  params : Reads n (.without T) (having (·.parameters.isSome) p) arrowParams.language

namespace Reads

variable {n m : ℕ} {k : Deeper} {F G : Follow} (h : k.Reads n)
include h

omit h in
/-- What may be parameters starts with a name or a parenthesis. -/
theorem begins_params {c : Option Terminal → Bool}
    (hc : ∀ t ∈ Terminal.punctuator .leftParen :: Terminal.names, c (some t) = false) :
    Begins arrowParams.language fun v => ¬c v.head? = true := by
  refine begins_arrowParams (fun t ht v => ?_) fun v => ?_
  · exact Bool.eq_false_iff.1 (hc t (List.mem_cons_of_mem _ ht))
  · exact Bool.eq_false_iff.1 (hc _ List.mem_cons_self)

/-! ## Members and calls -/

/-- What members and calls may follow. -/
def extensibleHead : Language Terminal :=
  (Phrase.choice plainPrimary).language + completeNew + Rule.importCall.language

theorem leadingExtensible (s : Option Position) : Reads (n + 1) .any
    (having (·.1.extensible) (leading k s)) extensibleHead := by
  have hnew : Reads (n + 1) .any (having (·.1.extensible) (do
      let made ← Parser.construction k
      return (made, Operand.plain made.node))) completeNew :=
    .havingMap (construction h) fun _ => rfl
  have hcall : Reads (n + 1) .any (having (·.1.extensible) (do
      let node ← Parser.importCall k s
      return (Construction.mk node true, Operand.plain node))) Rule.importCall.language :=
    .passing (importCall h s) fun _ => rfl
  have hprimary {g : Operand → Construction × Operand} (hg : ∀ a, (g a).1.extensible = true) :
      Reads (n + 1) .any (having (·.1.extensible) (do return g (← Parser.primary k)))
        (Phrase.choice plainPrimary).language := .passing (primary h) hg
  simp only [leading, having_bind, pure_bind]
  refine ⟨.look fun o => ?sound, .add (.add ?plain ?new) ?call⟩
  case sound =>
    split
    · exact hnew.sound.mono fun _ hw => .inl (.inr hw)
    · rw [having_bind]
      refine .lookFurther fun next => ?_
      rw [having_ite]
      exact .ite (fun _ => hcall.sound.mono fun _ hw => .inr hw) fun _ =>
        (hprimary fun _ => rfl).sound.mono fun _ hw => .inl (.inl hw)
    · exact (hprimary fun _ => rfl).sound.mono fun _ hw => .inl (.inl hw)
  case plain =>
    rw [plainPrimary, Phrase.language_choice_cons]
    refine .add (.lookAt (.word .kwImport) (.terminal rfl fun _ => rfl) ?_)
      (.lookStarts begins_simplePrimary.firsts fun t ht => ?_)
    · rw [having_bind]
      refine .lookFurther (P := (· = some (.punctuator .dot))) (.of_begins (.second rfl)) ?_
      rintro _ rfl
      rw [having_ite, if_neg (by decide)]
      exact (hprimary fun _ => rfl).complete.mono le_rfl
        (by rw [plainPrimary, Phrase.language_choice_cons]; exact le_self_add) fun _ => id
    · have hrest : Complete (n + 1) .any (having (·.1.extensible) (do
          let operand ← Parser.primary k
          return (Construction.mk operand.node true, operand)))
          (Phrase.choice simplePrimary).language :=
        (hprimary fun _ => rfl).complete.mono le_rfl
          (by rw [plainPrimary, Phrase.language_choice_cons]; exact le_add_self) fun _ => id
      split
      case h_1 heq => exact absurd (Option.some.inj heq ▸ ht) (by decide)
      case h_2 heq => exact absurd (Option.some.inj heq ▸ ht) (by decide)
      case h_3 => exact hrest
  case new => exact .lookAt (.word .kwNew) (begins_completeNew fun _ => rfl) hnew.complete
  case call =>
    refine .lookAt (.word .kwImport) (.terminal rfl fun _ => rfl) ?_
    rw [having_bind]
    refine .lookFurther (P := (· = some (.punctuator .leftParen))) (.of_begins (.second rfl)) ?_
    rintro _ rfl
    rw [having_ite, if_pos rfl]
    exact hcall.complete

theorem leadingBare (s : Option Position) : Reads (n + 1) (.without accessing)
    (having (fun r => !r.1.extensible) (leading k s)) bareNew := by
  have hnew : Reads (n + 1) (.without accessing) (having (fun r => !r.1.extensible) (do
      let made ← Parser.construction k
      return (made, Operand.plain made.node))) bareNew :=
    .havingMap (d := fun made => !made.extensible) (bareConstruction h) fun _ => rfl
  simp only [leading, having_bind]
  refine ⟨.look fun o => ?sound, .lookAt (.word .kwNew) (begins_bareNew fun _ => rfl) hnew.complete⟩
  case sound =>
    split
    · exact hnew.sound
    · rw [having_bind]
      refine .lookFurther fun next => ?_
      rw [having_ite]
      exact .ite (fun _ => .rejected fun _ => .fail) fun _ => .rejected fun _ => .fail
    · exact .rejected fun _ => .fail

theorem leadingParams (s : Option Position) : Reads (n + 1) .any
    (having (·.2.parameters.isSome) (leading k s)) arrowParams.language := by
  have hprimary : Reads (n + 1) .any (having (·.2.parameters.isSome) (do
      let operand ← Parser.primary k
      return (Construction.mk operand.node true, operand))) arrowParams.language :=
    .havingMap (primaryParams h) fun _ => rfl
  simp only [leading, having_bind]
  refine ⟨.look fun o => ?sound, .rule ⟨?_, ?_⟩⟩
  case sound =>
    split
    · exact .rejected fun _ => .fail
    · rw [having_bind]
      refine .lookFurther fun next => ?_
      rw [having_ite]
      exact .ite (fun _ => .rejected fun _ => .fail) fun _ => .rejected fun _ => .fail
    · exact hprimary.sound
  · have hname : ident.language ≤ arrowParams.language := language_le (p := ident) (by simp)
    exact .lookName ⟨rfl, rfl, rfl, rfl, rfl, rfl, rfl⟩ .ident
      (hprimary.complete.mono le_rfl hname fun _ => id)
  · have hparenthesized : Rule.parenthesized.language ≤ arrowParams.language :=
      language_le (p := Rule.parenthesized) (by simp)
    exact .lookAt (.punctuator .leftParen) (begins_parenthesized fun _ => rfl)
      (hprimary.complete.mono le_rfl hparenthesized fun _ => id)

omit h in
theorem accessPart_true : accessPart true = memberPart + callPart := rfl

theorem extended (s : Option Position) {first : Construction} (hfirst : first.extensible = true)
    (alone : Operand) : Reads (n + 1) (.without accessing) (extended k s first alone)
      (memberPart + callPart)∗ := by
  unfold Parser.extended
  rw [hfirst]
  refine of_eq (.bindHaving (d := 1) (L := accessPart true) (M := (accessPart true)∗) (N := 1)
    (access h s true first.node) (noAccess s true first.node) ?_ ?_ .any (.one fun _ => id)
    (begins_accessPart true).one_le_length) ?_
  · rintro (_ | longer) hlonger
    · cases hlonger
    · exact .left fun m => .map (accesses h s true (by omega) (Nat.min_le_right _ _) longer)
  · rintro (_ | longer) hlonger
    · exact .pure alone
    · cases hlonger
  · rw [mul_one, ← accessPart_true, add_comm, one_add_mul_kstar]

omit h in
/-- What has parameters stays alone. -/
theorem extendedParams (s : Option Position) (first : Construction) {alone : Operand}
    (ha : alone.parameters.isSome = true) : Reads n (.without accessing)
      (having (·.parameters.isSome) (Parser.extended k s first alone)) 1 := by
  have halone {G : Follow} :
      Reads n G (having (·.parameters.isSome) (Pure.pure alone : Parser Operand)) 1 := .passed ha
  unfold Parser.extended
  rw [having_ite]
  split
  · exact halone
  rw [having_bind]
  refine of_eq (.bindOnly (c := fun a => !a.isSome) (noAccess s true first.node) ?_ ?_
    (.one fun _ => id)) (mul_one 1).symm
  · rintro (_ | longer) hlonger
    · exact halone
    · cases hlonger
  · rintro (_ | longer) hlonger
    · cases hlonger
    · exact .rejected fun _ => .rejected fun _ => .fail

omit h in
theorem extendedPlain (s : Option Position) (first : Construction) {alone : Operand}
    (ha : alone.parameters.isSome = false) :
    Sound (having (·.parameters.isSome) (Parser.extended k s first alone)) 0 := by
  have halone : Sound (having (·.parameters.isSome) (Pure.pure alone : Parser Operand)) 0 :=
    .of_reads (.failed ha)
  unfold Parser.extended
  rw [having_ite]
  refine .ite (fun _ => halone) fun _ => .rejected ?_
  rintro (_ | longer)
  · exact halone
  · exact .rejected fun _ => .rejected fun _ => .fail

theorem leftHandSide : ReadsOperand (n + 1) accessing (leftHandSide k) lhsExpr.language where
  reads := by
    rw [language_lhsExpr]
    refine of_eq (.place fun s => .bindHaving (d := 0) (M := (memberPart + callPart)∗) (N := 1)
      (leadingExtensible h s) (leadingBare h s) ?_ ?_ .any (.one fun _ => id)
      fun _ _ => Nat.zero_le _) (by rw [mul_one]; rfl)
    · rintro ⟨first, alone⟩ (hfirst : first.extensible = true)
      exact extended h s hfirst alone
    · rintro ⟨first, alone⟩ (hfirst : first.extensible = false)
      simp only [Parser.extended, hfirst, Bool.not_false, if_true]
      exact .pure alone
  params := by
    simp only [Parser.leftHandSide, having_bind]
    refine of_eq (.place fun s => .bindOnly (leadingParams h s) ?_ ?_ .any)
      (mul_one arrowParams.language).symm
    · rintro ⟨first, alone⟩ ha
      exact extendedParams s first ha
    · rintro ⟨first, alone⟩ ha
      exact extendedPlain s first ha

/-! ## Operators with one operand -/

omit h in
theorem updates_anyOf {M : Language Terminal} : Leads (anyOf Terminal.isUpdateOperator * M) G
    fun v => (v.head?.map Terminal.isUpdateOperator).getD false = true :=
  Begins.leads (.anyOf fun _ _ ht => ht)

omit h in
theorem isUpdateOperator_mem {t : Terminal} (ht : t.isUpdateOperator = true) : t ∈ counting := by
  rw [Terminal.isUpdateOperator_eq, List.contains_iff_mem] at ht
  exact List.mem_append_right _ ht

omit h in
theorem leads_counted :
    Leads (anyOf Terminal.isUpdateOperator + 1) (.without counting) (.without accessing) := by
  refine .add (.of_begins (.anyOf fun t v ht => without_cons ?_))
    (.one fun v hv => hv.mono (List.subset_append_left _ _))
  rw [Terminal.isUpdateOperator_eq, List.contains_iff_mem] at ht
  revert t
  decide

theorem update : ReadsOperand (n + 1) counting (update k) Rule.update.language where
  reads := by
    rw [language_update]
    unfold Parser.update
    refine .place fun s => .lookIf
      (c := fun o => (o.map Terminal.isUpdateOperator).getD false = true)
      (.takeIfStep fun operator => .map h.unary) (.bindOpen (leftHandSide h).reads (fun operand =>
        .lookIf (c := fun o => (o.map Terminal.isUpdateOperator).getD false = true)
          (.map (.takeIf _)) (.pure _) ?_ ?_) leads_counted) updates_anyOf ?_
    · exact mul_one (anyOf _) ▸ updates_anyOf
    · exact .one fun v hv => hv.not_starts fun t => isUpdateOperator_mem
    · exact .of_begins (begins_lhsExpr.firsts.mul.mono fun v hv => hv.not_starts
        (by simp +contextual [Terminal.startsLeftHandSide]))
  params := by
    simp only [Parser.update, having_bind, having_ite]
    refine of_eq (.place fun s => .lookIf (L := 0) (M := arrowParams.language * (0 + 1))
      (c := fun o => (o.map Terminal.isUpdateOperator).getD false = true)
      (.nothing fun _ => .never fun _ => .fail) (.bindOnly (leftHandSide h).params
        (fun operand ha => .lookIf
          (c := fun o => (o.map Terminal.isUpdateOperator).getD false = true)
          (.nothing fun _ => .fail) (.passed ha) .zero ?_)
        (fun operand ha => .look fun o => .ite (fun _ => .never fun _ => .fail) fun _ =>
          .of_reads (.failed ha)) ?_) .zero ?_) (by simp)
    · exact .one fun v hv => hv.not_starts fun t => isUpdateOperator_mem
    · exact .add .zero (.one fun v hv => hv.mono (List.subset_append_left _ _))
    · exact (begins_params (c := fun o => (o.map Terminal.isUpdateOperator).getD false)
        (by decide)).leads

/-! ### Operators before an operand -/

theorem prefixed : Reads (n + 1) (.without counting) (prefixed k) prefixedOperand := by
  unfold Parser.prefixed prefixedOperand
  refine .place fun s => .ifTaken (.map h.unary) (.takeIfStep fun operator => .map h.unary)
    (Begins.leads (.anyOf fun t v ht => without_cons ?_))
  rw [List.mem_singleton]
  rintro rfl
  cases ht

omit h in
theorem startsUnary_prefixed :
    Leads prefixedOperand G fun v => startsUnary v.head? = true := by
  refine .add (.front fun v => rfl) (Begins.leads (.anyOf fun t v ht => ?_))
  rw [startsUnary, List.head?_cons, Option.map_some, Option.getD_some, ht, Bool.or_true]

omit h in
theorem not_startsUnary_update {M : Language Terminal} :
    Leads (Rule.update.language * M) G fun v => ¬startsUnary v.head? = true := by
  refine .of_begins (begins_update.firsts.mul.mono ?_)
  rintro _ ⟨t, v, rfl, ht⟩
  simp only [Terminal.startsUpdate, Bool.and_eq_true, Bool.not_eq_true', decide_eq_true_eq] at ht
  simp [startsUnary, ht]

theorem unary : ReadsOperand (n + 1) counting (unary k) Rule.unary.language where
  reads := by
    rw [language_unary]
    refine .lookIf (c := fun o => startsUnary o = true) (.map (prefixed h)) (update h).reads
      startsUnary_prefixed ?_
    exact mul_one Rule.update.language ▸ not_startsUnary_update
  params := by
    simp only [Parser.unary, having_bind, having_ite]
    exact of_eq (.lookIf (L := 0) (c := fun o => startsUnary o = true) (.nothing fun _ => .fail)
      (update h).params .zero (.of_begins (begins_params (by decide)))) (zero_add _).symm

theorem exponent : ReadsOperand (n + 1) raising (exponent k) Rule.exponent.language where
  reads := by
    rw [language_exponent]
    refine .place fun s => .lookIf (c := fun o => startsUnary o = true)
      (.map ((prefixed h).before fun v hv => hv.mono (List.subset_append_left _ _)))
      (.bindOpen (update h).reads (fun base => .lookIf (c := (· = some (.punctuator .power)))
        (.takeStep fun operator => .map h.exponent) (.pure _) (.front fun v => rfl) ?_) ?_)
      startsUnary_prefixed not_startsUnary_update
    · exact .one fun v hv => hv _ (by decide)
    · exact .add (.front fun v => without_cons (by decide))
        (.one fun v hv => hv.mono (List.subset_append_left _ _))
  params := by
    simp only [Parser.exponent, having_bind, having_ite]
    refine of_eq (.place fun s => .lookIf (L := 0) (M := arrowParams.language * (0 + 1))
      (c := fun o => startsUnary o = true) (.nothing fun _ => .fail) (.bindOnly (update h).params
        (fun base ha => .lookIf (c := (· = some (.punctuator .power)))
          (.nothing fun _ => .never fun _ => .fail) (.passed ha) .zero ?_)
        (fun base ha => .look fun o => .ite (fun _ => .never fun _ => .never fun _ => .fail)
          fun _ => .of_reads (.failed ha)) ?_) .zero (begins_params (by decide)).leads) (by simp)
    · exact .one fun v hv => hv _ (by decide)
    · exact .add .zero (.one fun v hv => hv.mono (List.subset_append_left _ _))

/-! ## Operators with two operands -/

omit h in
/-- An operator of a level does not go on with what the operators up to the one before join. -/
theorem notMem_joining (l : ℕ) : ∀ t ∈ levelOperators (l + 1), t ∉ joining l := by
  match l with
  | 0 | 1 | 2 | 3 | 4 | 5 | 6 | 7 | 8 | 9 => decide
  | l + 10 =>
    intro t ht
    cases ht

section

variable {l : ℕ} {p : Parser Operand} (s : Option Position)

omit h in
theorem leads_joined : Leads (anyOf (levelOperators (l + 1)).contains * joined l)∗
    (.without (joining (l + 1))) (.without (joining l)) := by
  rw [kstar_mul_eq]
  refine .add (Begins.leads (.anyOf fun t v ht => without_cons ?_))
    (.one fun v hv => hv.mono (List.subset_append_left _ _))
  exact notMem_joining l t (List.contains_iff_mem.1 ht)

omit h in
theorem not_operator {v : List Terminal} (hv : Follow.without (joining (l + 1)) v) :
    ¬(v.head?.map (levelOperators (l + 1)).contains).getD false = true :=
  hv.not_starts fun _ ht => List.mem_append_right _ (List.contains_iff_mem.1 ht)

omit h in
theorem moreOperands (hp : Reads n (.without (joining l)) p (joined l)) {fuel : ℕ} (hm : m ≤ n)
    (hfuel : m ≤ fuel) (first : Operand) :
    Reads m (.without (joining (l + 1))) (moreOperands (l + 1) s p fuel first)
      (anyOf (levelOperators (l + 1)).contains * joined l)∗ := by
  induction fuel generalizing m first with
  | zero =>
    obtain rfl := Nat.le_zero.1 hfuel
    exact .exhausted
  | succ fuel ih =>
    rw [kstar_mul_eq]
    refine .lookIf (c := fun o => (o.map (levelOperators (l + 1)).contains).getD false = true)
      (.takeIfStep fun operator => .bindOpen (hp.mono (by omega)) (fun right =>
        ih (by omega) (by omega) _) leads_joined) (.pure first) ?_ (.one fun v => not_operator)
    exact Begins.leads (.anyOf fun _ _ ht => ht)

omit h in
/-- What operators join is no parameter list. -/
theorem moreOperandsPlain (fuel : ℕ) {first : Operand} (hfirst : first.parameters.isSome = false) :
    Sound (having (·.parameters.isSome) (Parser.moreOperands l s p fuel first)) 0 := by
  induction fuel generalizing first with
  | zero => exact ⟨fun hr => by cases hr⟩
  | succ fuel ih =>
    simp only [Parser.moreOperands, having_bind, having_ite]
    exact .look fun o => .ite (fun _ => .never fun _ => .never fun _ => ih rfl) fun _ =>
      .of_reads (.failed hfirst)

omit h in
theorem moreOperandsParams (fuel : ℕ) {first : Operand} (hfirst : first.parameters.isSome = true) :
    Reads n (.without (joining (l + 1)))
      (having (·.parameters.isSome) (Parser.moreOperands (l + 1) s p (fuel + 1) first)) 1 := by
  simp only [Parser.moreOperands, having_bind, having_ite]
  refine of_eq (.lookIf (L := 0)
    (c := fun o => (o.map (levelOperators (l + 1)).contains).getD false = true)
    (.nothing fun operator => .never fun right => moreOperandsPlain s fuel rfl) (.passed hfirst)
    .zero (.one fun v => not_operator)) (zero_add 1).symm

end

theorem level (l : ℕ) : ReadsOperand (n + 1) (joining l) (level k l) (joined l) := by
  -- The operators of a level are not among those that the operands below it go on with.
  induction l with
  | zero => exact exponent h
  | succ l ih =>
    constructor
    case reads =>
      exact .place fun s => .bindOpen ih.reads (fun first => .left fun fuel =>
        moreOperands s ih.reads (Nat.min_le_left _ _) (Nat.min_le_right _ _) first) leads_joined
    case params =>
      simp only [Parser.level, having_bind]
      refine of_eq (.place fun s => .bindOnly ih.params
        (fun first ha => .left fun fuel => moreOperandsParams s fuel ha)
        (fun first ha => .left fun fuel => moreOperandsPlain s _ ha) ?_) (mul_one _).symm
      exact .one fun v hv => hv.mono (List.subset_append_left _ _)

end Reads

end ModuleLowering.Parser
