import ModuleLowering.Proofs.FollowingExpressions

set_option autoImplicit false

namespace ModuleLowering.Parser.Follows

section

variable {extra : Sequel} {k l : Deeper} (h : k.Follows extra l)
include h

theorem innerExpression :
    Follows extra false 1 Alike (innerExpression k) (Parser.innerExpression l) :=
  commaExpression h.assignment

theorem condition : Follows extra true 3 Alike (condition k) (Parser.condition l) :=
  .bind (.punctuator _) fun _ _ _ => .bind (innerExpression h) fun _ _ hxy =>
    .bind (.punctuator _) fun _ _ _ => .pure hxy

/-! ## Variables -/

omit h in
theorem declaringWord :
    Follows extra true 1 Token.SameSpelling declaringWord Parser.declaringWord := .takeIf rfl

theorem declaratorRest (s s' : Option Position) {x y : Shaped Node} (hxy : Alike x y) :
    Follows extra false 0 Alike (declaratorRest k s x) (Parser.declaratorRest l s' y) := by
  refine .bind (taken _) ?_
  rintro given _ rfl
  dsimp only
  refine .bindIte (m := 0) (fun _ => optional h.assignment) (fun _ => .pure (Std.Refl.refl _)) ?_
  refine fun v w hvw => .pure (hvw.optional.bind fun c d hcd => hxy.bind fun a b hab => ?_)
  exact .ok (alike_mk (by simp [hab, hcd]))

theorem declarator : Follows extra false 1 Alike (declarator k) (Parser.declarator l) :=
  .bind place fun s s' _ => .bind (binding h) fun _ _ hxy => declaratorRest h s s' hxy

theorem declaredVariables :
    Follows extra false 2 Alike (declaredVariables k) (Parser.declaredVariables l) :=
  .bind declaringWord fun _ _ htu => .bind (parts (declarator h)) fun _ _ hxs =>
    .pure (alike_declarationOf htu.text hxs)

theorem variableStatement : Follows extra true 1 Alike
    (do
      let declared ← Parser.declaredVariables k
      Parser.terminator
      return declared)
    (do
      let declared ← Parser.declaredVariables l
      Parser.terminator
      return declared) := by
  refine .atLeast (m := 3) ?_ (by decide)
  exact .bind (declaredVariables h) fun _ _ hxy => .bind .terminator fun _ _ _ => .pure hxy

/-! ## Conditions and loops -/

theorem whileStatement :
    Follows extra true 1 Alike (whileStatement k) (Parser.whileStatement l) := by
  refine .bind place fun s s' _ => .bind (.word _) fun _ _ _ => .bind (condition h) fun x y hxy => ?_
  refine .bind h.statement fun v w hvw => .pure ?_
  exact hxy.bind fun a b hab => hvw.bind fun c d hcd => .ok (alike_mk (by simp [hab, hcd]))

theorem doStatement : Follows extra true 1 Alike (doStatement k) (Parser.doStatement l) := by
  refine .bind place fun s s' _ => .bind (.word _) fun _ _ _ => .bind h.statement fun x y hxy => ?_
  refine .bind (.word _) fun _ _ _ => .bind (condition h) fun v w hvw => ?_
  refine .bind .terminator fun _ _ _ => .pure ?_
  exact hxy.bind fun a b hab => hvw.bind fun c d hcd => .ok (alike_mk (by simp [hab, hcd]))

theorem expressionUnless (stop : Punctuator) :
    Follows extra false 0 Alike (expressionUnless k stop) (Parser.expressionUnless l stop) := by
  refine .bind look ?_
  rintro t _ rfl
  exact .ite (fun _ => .pure rfl) fun _ => .bind (innerExpression h) fun x y hxy =>
    .pure (congrArg some hxy)

theorem forRest (s s' : Option Position) {x y : Option (Shaped Node)} (hxy : Alike x y) :
    Follows extra true 1 Alike (forRest k s x) (Parser.forRest l s' y) := by
  refine .atLeast (m := 3) ?_ (by decide)
  refine .bind (.punctuator _) fun _ _ _ => .bind (expressionUnless h _) fun x' y' hxy' => ?_
  refine .bind (.punctuator _) fun _ _ _ => .bind (expressionUnless h _) fun x'' y'' hxy'' => ?_
  refine .bind (.punctuator _) fun _ _ _ => .bind h.statement fun v w hvw => .pure ?_
  refine hxy.optional.bind fun a b hab => hxy'.optional.bind fun a' b' hab' => ?_
  refine hxy''.optional.bind fun a'' b'' hab'' => hvw.bind fun c d hcd => .ok (alike_mk ?_)
  simp [hab, hab', hab'', hcd]

theorem forInRest (s s' : Option Position) {x y : Shaped Node} (hxy : Alike x y) :
    Follows extra true 1 Alike (forInRest k s x) (Parser.forInRest l s' y) := by
  refine .atLeast (m := 3) ?_ (by decide)
  refine .bind (.word _) fun _ _ _ => .bind (innerExpression h) fun x' y' hxy' => ?_
  refine .bind (.punctuator _) fun _ _ _ => .bind h.statement fun v w hvw => .pure ?_
  exact hxy.bind fun a b hab => hxy'.bind fun a' b' hab' => hvw.bind fun c d hcd =>
    .ok (alike_mk (by simp [hab, hab', hcd]))

theorem forOfRest (s s' : Option Position) (isAwait : Bool) {x y : Shaped Node}
    (hxy : Alike x y) :
    Follows extra true 1 Alike (forOfRest k s isAwait x) (Parser.forOfRest l s' isAwait y) := by
  refine .atLeast (m := 3) ?_ (by decide)
  refine .bind (.word _) fun _ _ _ => .bind h.assignment fun x' y' hxy' => ?_
  refine .bind (.punctuator _) fun _ _ _ => .bind h.statement fun v w hvw => .pure ?_
  exact hxy.bind fun a b hab => hxy'.bind fun a' b' hab' => hvw.bind fun c d hcd =>
    .ok (alike_mk (by simp [hab, hab', hcd]))

theorem forDeclaring (s s' : Option Position) (isAwait : Bool) :
    Follows extra true 3 Alike (forDeclaring k s isAwait) (Parser.forDeclaring l s' isAwait) := by
  refine .bind declaringWord fun t u htu => .bind place fun r r' _ => ?_
  refine .bind (binding h) fun x y hxy => ?_
  have hdeclared := alike_loopVariable r r' htu.text hxy
  refine .ite (fun _ => forOfRest h s s' true hdeclared) fun _ => .bind look ?_
  rintro next _ rfl
  split
  · exact forInRest h s s' hdeclared
  · exact forOfRest h s s' false hdeclared
  · refine .bind (declaratorRest h r r' hxy) fun v w hvw => .bind left fun m n hmn => ?_
    refine .bind (moreParts (declarator h) (hmn.succ)) fun xs ys hxs => ?_
    refine forRest h s s' (congrArg some (alike_declarationOf htu.text ?_))
    exact List.cons_eq_cons.2 ⟨hvw, hxs⟩

theorem forStatement : Follows extra true 1 Alike (forStatement k) (Parser.forStatement l) := by
  refine .atLeast (m := 3) ?_ (by decide)
  refine .bind place fun s s' _ => .bind (.word _) fun _ _ _ => .bind (taken _) ?_
  rintro isAwait _ rfl
  refine .bind (.punctuator _) fun _ _ _ => .bind look ?_
  rintro t _ rfl
  refine .ite (fun _ => (forDeclaring h s s' isAwait).atLeast (by decide)) fun _ => ?_
  exact .bind (expressionUnless h _) fun x y hxy => forRest h s s' hxy

/-! ## Jumps -/

theorem returnStatement :
    Follows extra true 1 Alike (returnStatement k) (Parser.returnStatement l) := by
  refine .bind place fun s s' _ => .bind (.word _) fun _ _ _ => .atLeast (m := 1) ?_ (by decide)
  refine .ifTaken (.pure (.ok (alike_mk rfl))) (.atLeast (m := 2) ?_ (by decide))
  refine .bind (innerExpression h) fun x y hxy => .bind .terminator fun _ _ _ => .pure ?_
  exact hxy.bind fun a b hab => .ok (alike_mk (by simp [hab]))

theorem throwStatement :
    Follows extra true 1 Alike (throwStatement k) (Parser.throwStatement l) := by
  refine .atLeast (m := 3) ?_ (by decide)
  refine .bind place fun s s' _ => .bind (.word _) fun _ _ _ => ?_
  refine .bind (innerExpression h) fun x y hxy => .bind .terminator fun _ _ _ => .pure ?_
  exact hxy.bind fun a b hab => .ok (alike_mk (by simp [hab]))

omit h in
theorem wordStatement (w : Word) (form : Form Node) :
    Follows extra true 1 Alike (wordStatement w form) (Parser.wordStatement w form) :=
  .bind place fun _ _ _ => .bind (.word _) fun _ _ _ => .bind .terminator fun _ _ _ =>
    .pure (.ok (alike_mk rfl))

/-! ## Parts of `try` and `switch` -/

theorem catchClause : Follows extra true 1 Alike (catchClause k) (Parser.catchClause l) := by
  refine .atLeast (m := 2) ?_ (by decide)
  refine .bind place fun s s' _ => .bind (.word _) fun _ _ _ => .bind (taken _) ?_
  rintro given _ rfl
  dsimp only
  have hrest : ∀ v w : Option (Shaped Node), Alike v w → Follows extra true 1 Alike
      (do
        let body ← Parser.block k
        return do
          let param ← v.mapM id
          return Node.mk s (.catchClause param (some (← body))))
      (do
        let body ← Parser.block l
        return do
          let param ← w.mapM id
          return Node.mk s' (.catchClause param (some (← body)))) := by
    refine fun v w hvw => .bind (block h) fun x y hxy => .pure ?_
    exact hvw.optional.bind fun c d hcd => hxy.bind fun a b hab =>
      .ok (alike_mk (by simp [hab, hcd]))
  refine .ite (fun _ => ?_) fun _ => .pureBind (hrest _ _ rfl)
  refine .bind (binding h) fun x y hxy => .bind (.punctuator _) fun _ _ _ => ?_
  exact .pureBind ((hrest _ _ (congrArg some hxy)).atLeast (by decide))

theorem switchCase : Follows extra false 1 Alike (switchCase k) (Parser.switchCase l) := by
  refine .bind place fun s s' _ => .bind (taken _) ?_
  rintro given _ rfl
  dsimp only
  have hrest : ∀ v w : Option (Shaped Node), Alike v w → Follows extra false 1 Alike
      (do
        Parser.punctuator .colon
        let body ← Parser.manyUntil k.statement endsCase ((← Parser.left) + 1)
        return do
          let test ← v.mapM id
          return Node.mk s (.switchCase test (← inOrder body)))
      (do
        Parser.punctuator .colon
        let body ← Parser.manyUntil l.statement endsCase ((← Parser.left) + 1)
        return do
          let test ← w.mapM id
          return Node.mk s' (.switchCase test (← inOrder body))) := by
    refine fun v w hvw => .bind (.punctuator _) fun _ _ _ => .bind left fun m n hmn => ?_
    refine .bind (manyUntil h.statement (hmn.succ)) fun xs ys hxs => .pure ?_
    exact hvw.optional.bind fun c d hcd => hxs.inOrder.bind fun as bs has =>
      .ok (alike_mk (by simp [hcd, has]))
  refine .ite (fun _ => .pureBind (hrest _ _ rfl)) fun _ => .bind (.word _) fun _ _ _ => ?_
  exact .bind (m := 0) (optional (innerExpression h)) fun v w hvw =>
    (hrest v w hvw).atLeast (by decide)

theorem switchStatement :
    Follows extra true 1 Alike (switchStatement k) (Parser.switchStatement l) := by
  refine .bind place fun s s' _ => .bind (.word _) fun _ _ _ => .bind (condition h) fun x y hxy => ?_
  refine .bind (.punctuator _) fun _ _ _ => .bind (itemsUntil (switchCase h)) fun xs ys hxs => ?_
  refine .pure (hxs.inOrder.bind fun as bs has => hxy.bind fun a b hab => ?_)
  exact .ok (alike_mk (by simp [hab, has]))

theorem expressionStatement :
    Follows extra true 2 Alike (expressionStatement k) (Parser.expressionStatement l) := by
  refine .bind place fun s s' _ => .bind (expression h) fun x y hxy => ?_
  refine .bind .terminator fun _ _ _ => .pure ?_
  exact hxy.bind fun a b hab => .ok (alike_mk (by simp [hab]))

end

/-! ## Statements -/

section

variable {extra : Sequel} {k l : Deeper} (hextra : Inert extra.tokens) (h : k.Follows extra l)
include hextra h

theorem ifStatement : Follows extra true 1 Alike (ifStatement k) (Parser.ifStatement l) := by
  refine .bind place fun s s' _ => .bind (.word _) fun _ _ _ => .bind (condition h) fun x y hxy => ?_
  refine .bind h.statement fun x' y' hxy' => .bind (takenProlonging hextra rfl) ?_
  rintro given _ rfl
  dsimp only
  refine .bindIte (m := 0) (fun _ => optional h.statement) (fun _ => .pure (Std.Refl.refl _)) ?_
  refine fun v w hvw => .pure (hvw.optional.bind fun c d hcd => hxy.bind fun a b hab => ?_)
  exact hxy'.bind fun a' b' hab' => .ok (alike_mk (by simp [hab, hab', hcd]))

theorem tryStatement : Follows extra true 1 Alike (tryStatement k) (Parser.tryStatement l) := by
  refine .bind place fun s s' _ => .bind (.word _) fun _ _ _ => .bind (block h) fun x y hxy => ?_
  refine .bind (lookProlonging hextra) fun t u htu => ?_
  simp only [htu (.word .kwCatch) rfl]
  refine .bindIte (m := 0) (fun _ => optional (catchClause h)) (fun _ => .pure (Std.Refl.refl _)) ?_
  refine fun v w hvw => .bind (takenProlonging hextra rfl) ?_
  rintro given _ rfl
  refine .bindIte (m := 0) (fun _ => optional (block h)) (fun _ => .pure (Std.Refl.refl _)) ?_
  refine fun v' w' hvw' => .pure ?_
  rw [hvw.isNone, hvw'.isNone]
  split
  · rfl
  · exact hxy.bind fun a b hab => hvw.optional.bind fun c d hcd => hvw'.optional.bind fun e f hef =>
      .ok (alike_mk (by simp [hab, hcd, hef]))

theorem statement : Follows extra true 1 Alike (statement k) (Parser.statement l) := by
  refine .bind place fun s s' _ => .bind look ?_
  rintro t _ rfl
  by_cases hasync : t = some (.word .kwAsync)
  · subst hasync
    refine .atLeast (m := 2) (.lookFurther (fun next => ?_) (.inr ?_)) (by decide)
    · exact .ite (fun _ => functionDeclaration h false) fun _ => expressionStatement h
    · exact expressionStatement h
  have hstarts : ∀ next, startsFunction t next = decide (t = some .functionDeclaration) := by
    simp [startsFunction, hasync]
  simp only [hstarts, lookFurther_bind_const]
  refine .ite (fun _ => (functionDeclaration h false).atLeast (by decide)) fun _ => ?_
  split
  · exact (classDeclaration h false).atLeast (by decide)
  · exact .bind .terminator fun _ _ _ => .pure (.ok (alike_mk rfl))
  · exact block h
  · exact variableStatement h
  · exact variableStatement h
  · exact variableStatement h
  · exact ifStatement hextra h
  · exact forStatement h
  · exact whileStatement h
  · exact doStatement h
  · exact returnStatement h
  · exact throwStatement h
  · exact wordStatement _ _
  · exact wordStatement _ _
  · exact tryStatement hextra h
  · exact switchStatement h
  · exact (expressionStatement h).atLeast (by decide)

end

/-! ## Names across modules -/

section

variable {extra : Sequel}

theorem exportName : Follows extra true 1 Alike exportName Parser.exportName := by
  refine .bind place fun s s' _ => .bind look ?_
  rintro t _ rfl
  split
  · exact stringLiteral
  · exact .bind (.word _) fun _ _ _ => .pure (.ok (alike_mk rfl))
  · exact .bind identifier fun a b hab => .pure (.ok hab)

/-! ## Imports -/

theorem importSpecifier : Follows extra false 1 Alike importSpecifier Parser.importSpecifier := by
  refine .bind place fun s s' _ => .bind exportName fun x y hxy => .bind (taken _) ?_
  rintro given _ rfl
  dsimp only
  refine .bindIte (m := 0) (fun _ => optional identifier) (fun _ => .pure (Std.Refl.refl _)) ?_
  refine fun v w hvw => .pure (hxy.bind fun a b hab => ?_)
  match v, w with
  | none, none =>
    exact (alike_localNameOf s s' hab).bind fun c d hcd => .ok (alike_mk (by simp [hab, hcd]))
  | some c, some d => exact .ok (alike_mk (by simp [hab, Option.some.inj hvw]))
  | none, some _ => cases hvw
  | some _, none => cases hvw

theorem namespaceImport : Follows extra true 1 Alike namespaceImport Parser.namespaceImport :=
  .bind place fun _ _ _ => .bind (.punctuator _) fun _ _ _ => .bind (.word _) fun _ _ _ =>
    .bind identifier fun _ _ hab => .pure (alike_mk (by simp [hab]))

theorem importedNames : Follows extra true 1 Alike importedNames Parser.importedNames := by
  refine .bind look ?_
  rintro t _ rfl
  refine .ite (fun _ => .bind namespaceImport fun a b hab => .pure ?_) fun _ => ?_
  · exact congrArg (fun c => Except.ok [c]) hab
  · exact .bind (takeAny _).discard fun _ _ _ => .bind (items importSpecifier) fun xs ys hxs =>
      .pure hxs.inOrder

theorem importClause : Follows extra false 1 Alike importClause Parser.importClause := by
  refine .bind place fun s s' _ => .bind look ?_
  rintro t _ rfl
  refine .ite (fun _ => .bind identifier fun a b hab => ?_) fun _ => importedNames.loose
  have hdefault : Alike (Node.mk s (.importDefaultSpecifier (some a)))
      (.mk s' (.importDefaultSpecifier (some b))) := alike_mk (by simp [hab])
  refine .ifTaken (.bind importedNames fun x y hxy => .pure ?_) (.pure ?_)
  · exact hxy.map fun as bs has => List.cons_eq_cons.2 ⟨hdefault, has⟩
  · exact congrArg (fun c => Except.ok [c]) hdefault

theorem importDeclaration :
    Follows extra true 2 Alike importDeclaration Parser.importDeclaration := by
  refine .bind place fun s s' _ => .bind (.word _) fun _ _ _ => .bind look ?_
  rintro t _ rfl
  refine .ite (fun _ => .bind stringLiteral fun x y hxy => .bind .terminator fun _ _ _ => .pure ?_)
    fun _ => .atLeast (m := 2) (.bind importClause fun x y hxy => ?_) (by decide)
  · exact hxy.bind fun a b hab => .ok (alike_mk (by simp [hab]))
  refine .bind (.word _) fun _ _ _ => .bind stringLiteral fun v w hvw => ?_
  refine .bind .terminator fun _ _ _ => .pure ?_
  exact hxy.bind fun as bs has => hvw.bind fun c d hcd => .ok (alike_mk (by simp [has, hcd]))

/-! ## Exports -/

theorem exportSpecifier : Follows extra false 1 Alike exportSpecifier Parser.exportSpecifier := by
  refine .bind place fun s s' _ => .bind exportName fun x y hxy => .bind (taken _) ?_
  rintro given _ rfl
  dsimp only
  refine .bindIte (m := 0) (fun _ => optional exportName) (fun _ => .pure (Std.Refl.refl _)) ?_
  refine fun v w hvw => .pure (hxy.bind fun a b hab => ?_)
  match v, w with
  | none, none => exact .ok (alike_mk (by simp [hab]))
  | some c, some d =>
    exact Alike.bind (Option.some.inj hvw) fun e f hef => .ok (alike_mk (by simp [hab, hef]))
  | none, some _ => cases hvw
  | some _, none => cases hvw

theorem namedExports (s s' : Option Position) :
    Follows extra true 2 Alike (namedExports s) (Parser.namedExports s') := by
  refine .atLeast (m := 3) ?_ (by decide)
  refine .bind (takeAny _).discard fun _ _ _ => .bind (items exportSpecifier) fun xs ys hxs => ?_
  refine .bind (taken _) ?_
  rintro given _ rfl
  dsimp only
  refine .bindIte (m := 0) (fun _ => optional stringLiteral) (fun _ => .pure (Std.Refl.refl _)) ?_
  refine fun v w hvw => .bind .terminator fun _ _ _ => .pure (hxs.inOrder.bind fun as bs has => ?_)
  exact hvw.optional.bind fun c d hcd => .ok (alike_mk (by simp [has, hcd]))

theorem wholeExport (s s' : Option Position) :
    Follows extra true 2 Alike (wholeExport s) (Parser.wholeExport s') := by
  refine .bind (.punctuator _) fun _ _ _ => .bind (taken _) ?_
  rintro given _ rfl
  dsimp only
  refine .bindIte (m := 0) (fun _ => optional exportName) (fun _ => .pure (Std.Refl.refl _)) ?_
  refine fun v w hvw => .bind (.word _) fun _ _ _ => .bind stringLiteral fun x y hxy => ?_
  refine .bind .terminator fun _ _ _ => .pure (hxy.bind fun a b hab => ?_)
  exact hvw.optional.bind fun c d hcd => .ok (alike_mk (by simp [hab, hcd]))

end

section

variable {extra : Sequel} {k l : Deeper} (h : k.Follows extra l)
include h

theorem defaultExport (s s' : Option Position) :
    Follows extra true 2 Alike (defaultExport k s) (Parser.defaultExport l s') := by
  refine .atLeast (m := 3) ?_ (by decide)
  refine .bind (.word _) fun _ _ _ => .bind look ?_
  rintro t _ rfl
  dsimp only
  have hrest : ∀ x y : Shaped Node, Alike x y → Follows extra true 0 Alike
      (return do return Node.mk s (.exportDefaultDeclaration (some (← x))))
      (return do return Node.mk s' (.exportDefaultDeclaration (some (← y)))) :=
    fun x y hxy => .pure (hxy.bind fun a b hab => .ok (alike_mk (by simp [hab])))
  have hbranch : ∀ next, Follows extra true 2 Alike _ _ := fun next =>
    .ite (c := startsFunction t next = true)
      (fun _ => .bind (functionDeclaration h true) hrest) fun _ =>
      .ite (c := t = some .classDeclaration) (fun _ => .bind (classDeclaration h true) hrest)
        fun _ => .bind (assignment h) fun x y hxy => .bind .terminator fun _ _ _ =>
          .pureBind (hrest x y hxy)
  exact .lookFurther hbranch (.inr (hbranch none))

theorem exportedDeclaration (s s' : Option Position) :
    Follows extra true 2 Alike (exportedDeclaration k s) (Parser.exportedDeclaration l s') := by
  refine .bind look ?_
  rintro t _ rfl
  refine .bind look ?_
  rintro u _ rfl
  dsimp only
  have hrest : ∀ x y : Shaped Node, Alike x y → Follows extra true 0 Alike
      (return do return Node.mk s (.exportNamedDeclaration (some (← x)) [] none))
      (return do return Node.mk s' (.exportNamedDeclaration (some (← y)) [] none)) :=
    fun x y hxy => .pure (hxy.bind fun a b hab => .ok (alike_mk (by simp [hab])))
  refine .ite (fun _ => .atLeast (m := 3) ?_ (by decide)) fun _ => .ite (fun _ => ?_) fun _ => ?_
  · exact .bind (declaredVariables h) fun x y hxy => .bind .terminator fun _ _ _ =>
      .pureBind (hrest x y hxy)
  · exact .bind (classDeclaration h false) hrest
  · exact .bind (functionDeclaration h false) hrest

theorem exportDeclaration :
    Follows extra true 1 Alike (exportDeclaration k) (Parser.exportDeclaration l) := by
  refine .atLeast (m := 2) ?_ (by decide)
  refine .bind place fun s s' _ => .bind (.word _) fun _ _ _ => .bind look ?_
  rintro t _ rfl
  split
  · exact (defaultExport h s s').atLeast (by decide)
  · exact (namedExports s s').atLeast (by decide)
  · exact (wholeExport s s').atLeast (by decide)
  · exact (exportedDeclaration h s s').atLeast (by decide)

/-! ## The module -/

theorem item (hextra : Inert extra.tokens) : Follows extra true 1 Alike (item k) (Parser.item l) := by
  refine .bind look ?_
  rintro t _ rfl
  split
  · exact exportDeclaration h
  · refine .lookFurther (fun next => ?_) (.inr importDeclaration)
    exact .ite (fun _ => statement hextra h) fun _ => importDeclaration.atLeast (by decide)
  · exact statement hextra h

end

end ModuleLowering.Parser.Follows

namespace ModuleLowering

/-- With more fuel the parsers for what lies deeper do the same. -/
theorem Deeper.follows_within (extra : Sequel) (hextra : Parser.Inert extra.tokens) {m n : Nat}
    (hn : extra.Fuels n m) : (Deeper.within n).Follows extra (Deeper.within m) := by
  induction n generalizing m with
  | zero =>
    exact
      { assignment := .exhausted (q := fun m => (within m).assignment) rfl hn
        exponent := .exhausted (q := fun m => (within m).exponent) rfl hn
        unary := .exhausted (q := fun m => (within m).unary) rfl hn
        leftHandSide := .exhausted (q := fun m => (within m).leftHandSide) rfl hn
        construction := .exhausted (q := fun m => (within m).construction) rfl hn
        binding := .exhausted (q := fun m => (within m).binding) rfl hn
        statement := .exhausted (q := fun m => (within m).statement) rfl hn }
  | succ n ih =>
    obtain ⟨m, rfl⟩ := hn.exists_succ
    have h := ih hn.of_succ
    exact
      { assignment := Parser.Follows.assignment h
        exponent := .bind (.exponent h) fun _ _ ho => .pure (Operand.alike_iff.1 ho).1
        unary := .bind (.unary h) fun _ _ ho => .pure (Operand.alike_iff.1 ho).1
        leftHandSide := .bind (.leftHandSide h) fun _ _ ho => .pure (Operand.alike_iff.1 ho).1
        construction := .construction h
        binding := (Parser.Follows.binding h).loose
        statement := .statement hextra h }

end ModuleLowering

/-! ## Modules -/

namespace ModuleLowering.Parser

variable {extra ts us vs : List Token} {as bs : List (Shaped Node)}

theorem run_manyUntil_nil {α : Type} (p : Parser α) (n : Nat) :
    (manyUntil p Option.isNone (n + 1)).run [] = .ok ([], []) := rfl

theorem run_manyUntil_cons {α : Type} (p : Parser α) (n : Nat) {t : Token} :
    (manyUntil p Option.isNone (n + 1)).run (t :: ts) =
      (do let a ← p; return a :: (← manyUntil p Option.isNone n) : Parser (List α)).run
        (t :: ts) := rfl

/-- A module is read to its end. -/
theorem manyUntil_reads_all {α : Type} {p : Parser α} {n : Nat} {as : List α} {rest : List Token}
    (h : (manyUntil p Option.isNone n).run ts = .ok (as, rest)) : rest = [] := by
  induction n generalizing ts as with
  | zero => cases h
  | succ n ih =>
    cases ts with
    | nil =>
      cases h
      rfl
    | cons t ts =>
      rw [run_manyUntil_cons] at h
      obtain ⟨a, mid, _, h⟩ := run_bind_ok.1 h
      obtain ⟨as', mid', has, hpure⟩ := run_bind_ok.1 h
      obtain ⟨_, rfl⟩ := run_pure_ok.1 hpure
      exact ih has

/-- The items of a list of tokens, and behind them those of what the list goes on with. -/
theorem Follows.manyUntil_append {p q : Parser (Shaped Node)}
    (h : Follows (.more extra) true 1 Alike p q)
    (hbs : ∀ m, extra.length < m →
      ∃ cs, (Parser.manyUntil q Option.isNone m).run extra = .ok (cs, []) ∧ Alike bs cs)
    {n m : Nat} (hts : (Parser.manyUntil p Option.isNone n).run ts = .ok (as, []))
    (hus : Continues extra ts us) (hm : us.length < m) :
    ∃ cs, (Parser.manyUntil q Option.isNone m).run us = .ok (cs, []) ∧ Alike (as ++ bs) cs := by
  induction n generalizing ts us as m with
  | zero => cases hts
  | succ n ih =>
    cases hus with
    | nil =>
      cases hts
      exact hbs m hm
    | @cons t u ts us htu hus =>
      obtain ⟨m, rfl⟩ := Nat.exists_eq_add_of_le' (Nat.lt_of_le_of_lt (Nat.zero_le _) hm)
      rw [run_manyUntil_cons] at hts ⊢
      obtain ⟨a, mid, ha, hts⟩ := run_bind_ok.1 hts
      obtain ⟨as', mid', has, hpure⟩ := run_bind_ok.1 hts
      obtain ⟨rfl, rfl⟩ := run_pure_ok.1 hpure
      obtain ⟨b, rest, hb, hab, hrest⟩ := h.goes (.cons htu hus) ha (.inl rfl)
      have htakes := h.takes ha
      have hlong := hus.length_eq
      have hleft : rest.length = mid.length + extra.length := hrest.length_eq
      simp only [List.length_cons] at htakes hm
      obtain ⟨cs, hcs, hall⟩ := ih has hrest (m := m) (by omega)
      refine ⟨b :: cs, run_bind_ok.2 ⟨b, rest, hb, run_bind_ok.2 ⟨cs, [], hcs, rfl⟩⟩, ?_⟩
      exact List.cons_eq_cons.2 ⟨hab, hall⟩

/-- Two modules one after the other: the items of the first, then those of the second. -/
theorem moduleItems_append (hextra : Inert extra) {k m n : Nat}
    (hts : (moduleItems (.within k)).run ts = .ok (as, []))
    (hvs : (moduleItems (.within m)).run vs = .ok (bs, []))
    (hus : Continues extra ts us) (hextra' : Continues [] vs extra) (hk : k ≤ n) (hm : m ≤ n) :
    ∃ cs, (moduleItems (.within n)).run us = .ok (cs, []) ∧ Alike (as ++ bs) cs := by
  have hdeeper := Deeper.follows_within (.more extra) hextra hk
  have hdeeper' := Deeper.follows_within (.more []) inert_nil hm
  have hitem : Follows (.more extra) true 1 Alike _ _ := Follows.item hdeeper hextra
  have hitem' : Follows (.more []) true 1 Alike _ _ := Follows.item hdeeper' inert_nil
  have hnothing : ∀ fuel, ([] : List Token).length < fuel →
      ∃ cs, (manyUntil (item (.within n)) Option.isNone fuel).run [] = .ok (cs, []) ∧
        Alike [] cs := by
    intro fuel hfuel
    obtain ⟨fuel, rfl⟩ := Nat.exists_eq_add_of_le' hfuel
    exact ⟨[], run_manyUntil_nil _ _, rfl⟩
  refine hitem.manyUntil_append (fun fuel hfuel => ?_) hts hus (Nat.lt_succ_self _)
  obtain ⟨cs, hcs, hall⟩ := hitem'.manyUntil_append hnothing hvs hextra' hfuel
  exact ⟨cs, hcs, by rwa [List.append_nil] at hall⟩

end ModuleLowering.Parser

namespace ModuleLowering

open ModuleLowering.Parser

/-- A text is a module if its tokens are those of a list of items that can be built. -/
theorem Node.ofSource_eq_ok {source : Text} {tree : Node} : ofSource source = .ok tree ↔
    ∃ ls ts items body, Lexeme.scan source = .ok ls ∧ TokenStream.ofLexemes ls = ⟨ts, none⟩ ∧
      (moduleItems (.within (ts.length + 1))).run ts = .ok (items, []) ∧
      inOrder items = .ok body ∧ tree = .mk (some .start) (.program body) := by
  have hitems : ∀ (stream : TokenStream) (items : List (Shaped Node)),
      stream.items = .ok items ↔ stream.stop = none ∧
        (moduleItems (.within (stream.tokens.length + 1))).run stream.tokens = .ok (items, []) := by
    intro stream items
    unfold TokenStream.items
    dsimp only
    cases hrun : (moduleItems (.within (stream.tokens.length + 1))).run stream.tokens with
    | error left => cases left <;> cases stream.stop <;> simp
    | ok r =>
      obtain ⟨found, rest⟩ := r
      obtain rfl := manyUntil_reads_all hrun
      cases stream.stop <;> simp
  constructor
  · intro h
    unfold ofSource at h
    cases hscan : Lexeme.scan source with
    | error stop =>
      rw [hscan] at h
      cases h
    | ok ls =>
      rw [hscan] at h
      cases hfound : (TokenStream.ofLexemes ls).items with
      | error e =>
        simp only [bind, Except.bind, hfound] at h
        cases h
      | ok items =>
        simp only [bind, Except.bind, hfound] at h
        cases hbody : inOrder items with
        | error fault =>
          rw [hbody] at h
          cases h
        | ok body =>
          rw [hbody] at h
          cases h
          obtain ⟨hstop, hrun⟩ := (hitems _ _).1 hfound
          exact ⟨ls, _, items, body, rfl, by rw [← hstop], hrun, hbody, rfl⟩
  · rintro ⟨ls, ts, items, body, hscan, hts, hrun, hbody, rfl⟩
    have hfound : (TokenStream.ofLexemes ls).items = .ok items :=
      (hitems _ _).2 (by rw [hts]; exact ⟨rfl, hrun⟩)
    unfold ofSource
    rw [hscan]
    simp only [bind, Except.bind, hfound, hbody]
    rfl

end ModuleLowering
