import ModuleLowering.Proofs.Following

set_option autoImplicit false

namespace ModuleLowering

/-- The parsers for what lies deeper follow those of another record. -/
structure Deeper.Follows (extra : Sequel) (k l : Deeper) : Prop where
  assignment : Parser.Follows extra false 1 Alike k.assignment l.assignment
  exponent : Parser.Follows extra false 1 Alike k.exponent l.exponent
  unary : Parser.Follows extra false 1 Alike k.unary l.unary
  leftHandSide : Parser.Follows extra false 1 Alike k.leftHandSide l.leftHandSide
  construction : Parser.Follows extra false 1 Alike k.construction l.construction
  binding : Parser.Follows extra false 1 Alike k.binding l.binding
  statement : Parser.Follows extra true 1 Alike k.statement l.statement

namespace Parser.Follows

variable {extra : Sequel} {k l : Deeper}

theorem optional {α : Type} [Placed α] {closed : Bool} {m : Nat} {p q : Parser α}
    (h : Follows extra closed m Alike p q) :
    Follows extra closed 0 Alike (some <$> p) (some <$> q) :=
  (h.map (S := Alike) fun _ _ hab => congrArg some hab).atLeast (Nat.zero_le _)

/-! ## Names and literals -/

theorem identifier : Follows extra true 1 Alike identifier Parser.identifier :=
  .bind (.takeIf rfl) fun t u htu => .pure (alike_mk (by simp [htu.text]))

theorem stringLiteral : Follows extra true 1 Alike stringLiteral Parser.stringLiteral :=
  .bind (.takeIf rfl) fun _ _ htu => .pure (alike_stringOf htu.text)

theorem numberLiteral : Follows extra true 1 Alike numberLiteral Parser.numberLiteral :=
  .bind (.takeIf rfl) fun _ _ htu => .pure (alike_numberOf htu.text)

variable (h : k.Follows extra l)
include h

theorem key : Follows extra false 1 Alike (key k) (Parser.key l) := by
  refine .bind look ?_
  rintro t _ rfl
  split
  · exact .bind stringLiteral fun x y hxy =>
      .pure (hxy.map fun a b hab => Key.alike_iff.2 ⟨hab, rfl⟩)
  · exact .bind numberLiteral fun x y hxy =>
      .pure (hxy.map fun a b hab => Key.alike_iff.2 ⟨hab, rfl⟩)
  · refine .bind (.punctuator _) fun _ _ _ => .bind h.assignment fun x y hxy => ?_
    exact .bind (.punctuator _) fun _ _ _ =>
      .pure (hxy.map fun a b hab => Key.alike_iff.2 ⟨hab, rfl⟩)
  · exact .bind identifier fun a b hab =>
      .pure (congrArg Except.ok (Key.alike_iff.2 ⟨hab, rfl⟩))

/-! ## Parameters and bodies -/

theorem block : Follows extra true 1 Alike (block k) (Parser.block l) := by
  refine .bind place fun s s' _ => .bind (.punctuator _) fun _ _ _ => ?_
  refine .bind (itemsUntil h.statement) fun xs ys hxs => .pure ?_
  exact hxs.inOrder.bind fun as bs has => .ok (alike_mk (by simp [has]))

theorem parameter : Follows extra false 1 Alike (parameter k) (Parser.parameter l) := by
  refine .bind place fun s s' _ => .ifTaken (.bind h.binding fun x y hxy => .pure ?_) ?_
  · exact hxy.bind fun a b hab => .ok (alike_mk (by simp [hab]))
  refine .bind h.binding fun x y hxy => .ifTaken (.bind h.assignment fun v w hvw => .pure ?_) ?_
  · exact hxy.bind fun a b hab => hvw.bind fun c d hcd => .ok (alike_mk (by simp [hab, hcd]))
  · exact .pure hxy

theorem parameters : Follows extra true 1 Alike (parameters k) (Parser.parameters l) := by
  refine .bind (.punctuator _) fun _ _ _ => ?_
  exact .bind (items (parameter h)) fun xs ys hxs => .pure hxs.inOrder

theorem functionRest : Follows extra true 1 Alike (functionRest k) (Parser.functionRest l) := by
  refine .bind (parameters h) fun x y hxy => .bind (block h) fun v w hvw => .pure ?_
  exact hxy.bind fun a b hab => hvw.bind fun c d hcd =>
    congrArg Except.ok (FunctionRest.alike_iff.2 ⟨hab, hcd⟩)

theorem functionExpression :
    Follows extra true 2 Alike (functionExpression k) (Parser.functionExpression l) := by
  refine .bind place fun s s' _ => .bind (taken _) ?_
  rintro isAsync _ rfl
  refine .bind (.word _) fun _ _ _ => .bind (taken _) ?_
  rintro generator _ rfl
  refine .bind look ?_
  rintro t _ rfl
  dsimp only
  refine .bindIte (m := 0) (fun _ => .pure (Std.Refl.refl _)) (fun _ => optional identifier) ?_
  intro name name' hname
  refine .bind (functionRest h) fun x y hxy => .pure (hxy.bind fun a b hab => ?_)
  obtain ⟨hparameters, hbody⟩ := FunctionRest.alike_iff.1 hab
  exact .ok (alike_mk (by simp [hname, hparameters, hbody]))

theorem functionDeclaration (nameless : Bool) :
    Follows extra true 2 Alike (functionDeclaration k nameless)
      (Parser.functionDeclaration l nameless) := by
  refine .bind place fun s s' _ => .bind (taken _) ?_
  rintro isAsync _ rfl
  refine .bind (takeAny _).discard fun _ _ _ => .bind (taken _) ?_
  rintro generator _ rfl
  refine .bind look ?_
  rintro t _ rfl
  dsimp only
  refine .bindIte (m := 0) (fun _ => .pure (Std.Refl.refl _)) (fun _ => optional identifier) ?_
  intro name name' hname
  refine .bind (functionRest h) fun x y hxy => .pure (hxy.bind fun a b hab => ?_)
  obtain ⟨hparameters, hbody⟩ := FunctionRest.alike_iff.1 hab
  exact .ok (alike_mk (by simp [hname, hparameters, hbody]))

/-! ## Methods -/

omit h in
/-- The marks before a name look one token further, so what comes next must take a token. -/
theorem methodMarks {β : Type} {n : Nat} {S : β → β → Prop}
    {f g : MethodMarks → Parser β} (hf : ∀ marks, Follows extra false n S (f marks) (g marks))
    (hn : 1 ≤ n) :
    Follows extra false n S (methodMarks >>= f) (Parser.methodMarks >>= g) := by
  unfold Parser.methodMarks
  rw [bind_assoc, bind_assoc]
  refine lookFurther (fun next => .bind (o := false) (R := Eq) (m := 0) ?_ ?_)
    (.inl ⟨rfl, hn⟩)
  · refine .bind look ?_
    rintro t _ rfl
    split
    · refine .bind (.word _) fun _ _ _ => .bind (taken _) ?_
      rintro generator _ rfl
      exact .pure rfl
    · exact .bind (.punctuator _) fun _ _ _ => .pure rfl
    · exact .ite (fun _ => .bind (.word _) fun _ _ _ => .pure rfl) fun _ => .pure rfl
    · exact .ite (fun _ => .bind (.word _) fun _ _ _ => .pure rfl) fun _ => .pure rfl
    · exact .pure rfl
  · rintro marks _ rfl
    exact hf marks

theorem methodRest (s s' : Option Position) (marks : MethodMarks) {x y : Shaped Key}
    (hxy : Alike x y) :
    Follows extra true 1 Alike (methodRest k s marks x) (Parser.methodRest l s' marks y) := by
  refine .bind (functionRest h) fun v w hvw => .pure ?_
  refine hxy.bind fun a b hab => hvw.bind fun c d hcd => congrArg Except.ok ?_
  obtain ⟨hparameters, hbody⟩ := FunctionRest.alike_iff.1 hcd
  exact Method.alike_iff.2 ⟨hab, alike_mk (by simp [hparameters, hbody]), rfl⟩

/-! ## Classes -/

theorem fieldRest (s s' : Option Position) (isStatic : Bool) {x y : Shaped Key}
    (hxy : Alike x y) :
    Follows extra true 1 Alike (fieldRest k s isStatic x) (Parser.fieldRest l s' isStatic y) := by
  refine .bind (taken _) ?_
  rintro given _ rfl
  dsimp only
  refine .bindIte (m := 0) (fun _ => optional h.assignment) (fun _ => .pure (Std.Refl.refl _)) ?_
  refine fun v w hvw => .bind .terminator fun _ _ _ => .pure ?_
  refine hxy.bind fun a b hab => hvw.optional.bind fun c d hcd => .ok (alike_mk ?_)
  obtain ⟨hnode, hcomputed⟩ := Key.alike_iff.1 hab
  simp [hnode, hcomputed, hcd]

theorem classMember : Follows extra false 1 Alike (classMember k) (Parser.classMember l) := by
  refine .ifTaken (.pure rfl) (.atLeast (m := 2) ?_ (by decide))
  refine .bind place fun s s' _ => .bind look ?_
  rintro t _ rfl
  refine .lookFurther (fun next => ?_) (.inl (by decide))
  dsimp only
  refine .ite (fun _ => .bind (.word _) fun _ _ _ => .pureBind ?_) fun _ => .pureBind ?_
  all_goals
    refine .bind place fun r r' _ => methodMarks (fun marks => .bind (key h) fun x y hxy => ?_)
      (by decide)
    refine .bind look ?_
    rintro t _ rfl
    refine .ite (fun _ => .bind (methodRest h r r' marks hxy) fun v w hvw => .pure ?_)
      fun _ => .bind (fieldRest h s s' _ hxy) fun v w hvw => .pure (congrArg some hvw)
    exact congrArg some (hvw.map fun a b hab => alike_memberOf s s' _ hab)

theorem heritage : Follows extra false 0 Alike (heritage k) (Parser.heritage l) :=
  .ifTaken (.bind h.leftHandSide fun _ _ hxy => .pure (congrArg some hxy)) (.pure rfl)

theorem classBody : Follows extra true 1 Alike (classBody k) (Parser.classBody l) := by
  refine .bind (.punctuator _) fun _ _ _ => .bind (itemsUntil (classMember h)) fun xs ys hxs => ?_
  exact .pure (Alike.inOrder hxs.filterMap)

theorem classRest : Follows extra true 1 Alike (classRest k) (Parser.classRest l) := by
  refine .bind (heritage h) fun x y hxy => .bind (classBody h) fun v w hvw => .pure ?_
  refine hvw.bind fun a b hab => hxy.optional.bind fun c d hcd => congrArg Except.ok ?_
  exact ClassRest.alike_iff.2 ⟨hcd, hab⟩

theorem classExpression :
    Follows extra true 2 Alike (classExpression k) (Parser.classExpression l) := by
  refine .bind place fun s s' _ => .bind (.word _) fun _ _ _ => .bind look ?_
  rintro t _ rfl
  dsimp only
  refine .bindIte (m := 0) (fun _ => optional identifier) (fun _ => .pure (Std.Refl.refl _)) ?_
  refine fun name name' hname => .bind (classRest h) fun x y hxy => .pure ?_
  refine hxy.bind fun a b hab => .ok (alike_mk ?_)
  obtain ⟨hsuperclass, hbody⟩ := ClassRest.alike_iff.1 hab
  simp [hname, hsuperclass, hbody]

theorem classDeclaration (nameless : Bool) :
    Follows extra true 2 Alike (classDeclaration k nameless)
      (Parser.classDeclaration l nameless) := by
  refine .bind place fun s s' _ => .bind (takeAny _).discard fun _ _ _ => .bind look ?_
  rintro t _ rfl
  dsimp only
  refine .bindIte (m := 0) (fun _ => optional identifier) (fun _ => .pure (Std.Refl.refl _)) ?_
  refine fun name name' hname => .bind (classRest h) fun x y hxy => .pure ?_
  refine hxy.bind fun a b hab => .ok (alike_mk ?_)
  obtain ⟨hsuperclass, hbody⟩ := ClassRest.alike_iff.1 hab
  simp [hname, hsuperclass, hbody]

end Parser.Follows

end ModuleLowering
