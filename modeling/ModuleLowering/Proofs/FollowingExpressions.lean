import ModuleLowering.Proofs.FollowingFunctions

set_option autoImplicit false

namespace ModuleLowering.Parser.Follows

variable {extra : Sequel} {k l : Deeper} (h : k.Follows extra l)
include h

/-! ## Arrays and objects -/

theorem arrayElement : Follows extra false 1 Alike (arrayElement k) (Parser.arrayElement l) := by
  refine .bind place fun s s' _ => .ifTaken (.bind h.assignment fun x y hxy => .pure ?_) h.assignment
  exact hxy.bind fun a b hab => .ok (alike_mk (by simp [hab]))

theorem arrayElements {m n : Nat} (hn : extra.Fuels n m) :
    Follows extra true 1 Alike (arrayElements k n) (Parser.arrayElements l m) := by
  induction n generalizing m with
  | zero => exact .exhausted rfl hn
  | succ n ih =>
    obtain ⟨m, rfl⟩ := hn.exists_succ
    have hrest := (ih (hn.of_succ)).atLeast (Nat.zero_le 1)
    refine .ifTaken (.pure rfl) (.ifTaken (.cons rfl hrest) ?_)
    refine .atLeast (m := 2) (.bind (arrayElement h) fun x y hxy => ?_) (by decide)
    refine .ifTaken (.cons (congrArg some hxy) hrest) (.bind (.punctuator _) fun _ _ _ => .pure ?_)
    exact congrArg (fun z => [some z]) hxy

theorem array : Follows extra true 1 Alike (array k) (Parser.array l) := by
  refine .bind place fun s s' _ => .bind (.punctuator _) fun _ _ _ => .bind left fun m n hmn => ?_
  refine .bind (arrayElements h (hmn.succ)) fun xs ys hxs => .pure ?_
  exact hxs.sparse.bind fun as bs has => .ok (alike_mk (by simp [has]))

theorem namedProperty (s s' : Option Position) (isName : Bool) {x y : Shaped Key}
    (hxy : Alike x y) :
    Follows extra false 0 Alike (namedProperty k s isName x)
      (Parser.namedProperty l s' isName y) := by
  refine .ifTaken (.bind h.assignment fun v w hvw => .pure ?_) (.bind look ?_)
  · refine hxy.bind fun a b hab => hvw.bind fun c d hcd => .ok (alike_mk ?_)
    obtain ⟨hnode, hcomputed⟩ := Key.alike_iff.1 hab
    simp [hnode, hcomputed, hcd]
  rintro t _ rfl
  refine .ite (fun _ => ?_) fun _ => ?_
  · exact .bind (methodRest h s s' _ hxy) fun v w hvw =>
      .pure (hvw.map fun a b hab => alike_propertyOf s s' hab)
  dsimp only
  refine .ite (fun _ => .failBind) fun _ => .ifTaken (.bind h.assignment fun v w hvw => .pure ?_)
    (.pure ?_)
  · refine hxy.bind fun a b hab => hvw.bind fun c d hcd => .ok (alike_shorthandOf s s' ?_ ?_)
    · exact (Key.alike_iff.1 hab).1
    · exact congrArg some hcd
  · exact hxy.map fun a b hab => alike_shorthandOf s s' (Key.alike_iff.1 hab).1 rfl

theorem objectProperty :
    Follows extra false 1 Alike (objectProperty k) (Parser.objectProperty l) := by
  refine .bind place fun s s' _ => .ifTaken (.bind h.assignment fun x y hxy => .pure ?_) ?_
  · exact hxy.bind fun a b hab => .ok (alike_mk (by simp [hab]))
  refine methodMarks (fun marks => .bind look ?_) (by decide)
  rintro t _ rfl
  refine .bind (key h) fun x y hxy => .ite (fun _ => ?_) fun _ => namedProperty h s s' _ hxy
  exact .bind (methodRest h s s' _ hxy) fun v w hvw =>
    .pure (hvw.map fun a b hab => alike_propertyOf s s' hab)

theorem object : Follows extra true 1 Alike (object k) (Parser.object l) := by
  refine .bind place fun s s' _ => .bind (takeAny _).discard fun _ _ _ => ?_
  refine .bind (items (objectProperty h)) fun xs ys hxs => .pure ?_
  exact hxs.inOrder.bind fun as bs has => .ok (alike_mk (by simp [has]))

theorem binding : Follows extra true 1 Alike (binding k) (Parser.binding l) := by
  refine .bind look ?_
  rintro t _ rfl
  split
  · exact .bind (array h) fun x y hxy => .pure (hxy.bind fun a b hab => hab.asPattern)
  · exact .bind (object h) fun x y hxy => .pure (hxy.bind fun a b hab => hab.asPattern)
  · exact .bind identifier fun a b hab => .pure (.ok hab)

/-! ## Primary expressions -/

omit h in
theorem commaExpression {p q : Parser (Shaped Node)} (hpq : Follows extra false 1 Alike p q) :
    Follows extra false 1 Alike (commaExpression p) (Parser.commaExpression q) := by
  refine .bind place fun s s' _ => .bind (parts hpq) fun xs ys hxs => ?_
  cases xs with
  | nil =>
    cases ys with
    | nil => exact .fail
    | cons _ _ => cases hxs
  | cons x xs =>
    cases ys with
    | nil => cases hxs
    | cons y ys =>
      obtain ⟨hxy, hrest⟩ := List.cons.inj hxs
      exact .pure (alike_joinAll s s' hxy hrest)

theorem restParameter :
    Follows extra false 1 Alike (restParameter k) (Parser.restParameter l) :=
  .bind h.binding fun x y hxy => .pure (hxy.map fun a b hab => alike_mk (by simp [hab]))

theorem moreInParentheses {m n : Nat} (hn : extra.Fuels n m) :
    Follows extra true 1 Alike (moreInParentheses k n) (Parser.moreInParentheses l m) := by
  induction n generalizing m with
  | zero => exact .exhausted rfl hn
  | succ n ih =>
    obtain ⟨m, rfl⟩ := hn.exists_succ
    refine .ifTaken (.pure rfl) (.atLeast (m := 2) (.bind (.punctuator _) fun _ _ _ => ?_) (by decide))
    refine .atLeast (m := 2) (.ifTaken (.atLeast (m := 2) ?_ (by decide)) ?_) (by decide)
    · refine .bind (restParameter h) fun x y hxy => .bind (.punctuator _) fun _ _ _ => .pure ?_
      exact InParentheses.alike_iff.2 ⟨rfl, congrArg some hxy⟩
    · refine .bind h.assignment fun x y hxy => ?_
      refine .bind (ih (hn.of_succ)) fun found found' hfound => .pure ?_
      obtain ⟨hmore, hrest⟩ := InParentheses.alike_iff.1 hfound
      exact InParentheses.alike_iff.2 ⟨List.cons_eq_cons.2 ⟨hxy, hmore⟩, hrest⟩

theorem parenthesized :
    Follows extra true 1 Alike (parenthesized k) (Parser.parenthesized l) := by
  refine .bind place fun s s' _ => .bind (.punctuator _) fun _ _ _ => .atLeast (m := 1) ?_ (by decide)
  refine .ifTaken (.pure rfl) (.ifTaken (.atLeast (m := 2) ?_ (by decide)) ?_)
  · refine .bind (restParameter h) fun x y hxy => .bind (.punctuator _) fun _ _ _ => .pure ?_
    refine Operand.alike_iff.2 ⟨rfl, congrArg some ?_⟩
    exact hxy.bind fun a b hab => congrArg (fun z => Except.ok [z]) hab
  refine .bind place fun r r' _ => .atLeast (m := 2) (.bind h.assignment fun x y hxy => ?_) (by decide)
  refine .bind left fun m n hmn => ?_
  refine .bind (moreInParentheses h (hmn.succ)) fun found found' hfound => ?_
  obtain ⟨more, rest⟩ := found
  obtain ⟨more', rest'⟩ := found'
  obtain ⟨hmore, hrest⟩ := InParentheses.alike_iff.1 hfound
  have hnode := alike_joinAll r r' hxy hmore
  have hparameters := hnode.bind fun a b hab => hab.asParameters
  match rest, rest' with
  | none, none => exact .pure (Operand.alike_iff.2 ⟨hnode, congrArg some hparameters⟩)
  | some v, some w =>
    refine .pure (Operand.alike_iff.2 ⟨rfl, congrArg some ?_⟩)
    refine hparameters.bind fun as bs has => Alike.bind (Option.some.inj hrest) fun a b hab => ?_
    refine congrArg Except.ok ?_
    rw [bare_append, bare_append, has, bare_cons, bare_cons, hab]
  | none, some _ => cases hrest
  | some _, none => cases hrest

omit h in
theorem memberName : Follows extra true 1 Alike memberName Parser.memberName :=
  .bind (.takeIf rfl) fun t u htu => .pure (alike_mk (by simp [htu.text]))

omit h in
theorem metaProperty (s s' : Option Position) (object expected : Text) :
    Follows extra true 2 Alike (metaProperty s object expected)
      (Parser.metaProperty s' object expected) := by
  refine .bind (.punctuator _) fun _ _ _ => .bind memberName fun a b hab => .pure ?_
  rw [hab.isNamed, hab.name?]
  split
  · exact .ok (alike_mk (by simp [hab]))
  · rfl

omit h in
theorem wordLiteral (w : Word) (value : Value) :
    Follows extra true 1 Alike (wordLiteral w value) (Parser.wordLiteral w value) :=
  .bind place fun _ _ _ => .bind (.word _) fun _ _ _ => .pure (alike_plain (.ok (alike_mk rfl)))

theorem primary : Follows extra true 1 Alike (primary k) (Parser.primary l) := by
  refine .bind place fun s s' _ => .bind look ?_
  rintro t _ rfl
  split
  · exact .bind numberLiteral fun x y hxy => .pure (alike_plain hxy)
  · exact .bind stringLiteral fun x y hxy => .pure (alike_plain hxy)
  · exact .bind (.takeIf rfl) fun t u htu => .pure (alike_plain (.ok (alike_mk (by simp [htu.text]))))
  · exact .bind (.takeIf rfl) fun t u htu => .pure (alike_plain (.ok (alike_mk (by simp [htu.text]))))
  · exact .bind (object h) fun x y hxy => .pure (alike_plain hxy)
  · exact .bind (array h) fun x y hxy => .pure (alike_plain hxy)
  · exact parenthesized h
  · exact wordLiteral _ _
  · exact wordLiteral _ _
  · exact wordLiteral _ _
  · exact .bind (.word _) fun _ _ _ => .pure (alike_plain (.ok (alike_mk rfl)))
  · exact .bind (.word _) fun _ _ _ => .pure (alike_plain (.ok (alike_mk rfl)))
  · exact .bind (.word _) fun _ _ _ => .bind (metaProperty s s' _ _) fun x y hxy =>
      .pure (alike_plain hxy)
  · exact .bind (functionExpression h) fun x y hxy => .pure (alike_plain hxy)
  · exact .bind (functionExpression h) fun x y hxy => .pure (alike_plain hxy)
  · exact .bind (classExpression h) fun x y hxy => .pure (alike_plain hxy)
  · exact .bind identifier fun a b hab =>
      .pure (Operand.alike_iff.2 ⟨.ok hab, congrArg (fun c => some (Except.ok [c])) hab⟩)

/-! ## Members and calls -/

theorem arguments : Follows extra true 1 Alike (arguments k) (Parser.arguments l) :=
  .bind (.punctuator _) fun _ _ _ => .bind (items (arrayElement h)) fun _ _ hxs =>
    .pure hxs.inOrder

section

variable (s s' : Option Position) {x y : Shaped Node} (hxy : Alike x y)
include hxy

omit h in
theorem memberOfName (isOptional : Bool) :
    Follows extra true 1 Alike (memberOfName s isOptional x)
      (Parser.memberOfName s' isOptional y) := by
  refine .bind memberName fun c d hcd => .pure (hxy.map fun a b hab => alike_mk ?_)
  simp [hab, hcd]

theorem memberOfIndex (isOptional : Bool) :
    Follows extra true 1 Alike (memberOfIndex k s isOptional x)
      (Parser.memberOfIndex l s' isOptional y) := by
  refine .atLeast (m := 3) ?_ (by decide)
  refine .bind (.punctuator _) fun _ _ _ => .bind (commaExpression h.assignment) fun v w hvw => ?_
  refine .bind (.punctuator _) fun _ _ _ => .pure ?_
  exact hxy.bind fun a b hab => hvw.bind fun c d hcd => .ok (alike_mk (by simp [hab, hcd]))

omit h in
theorem tagged : Follows extra true 1 Alike (tagged s x) (Parser.tagged s' y) := by
  refine .bind (.takeIf rfl) fun t u htu => .pure (hxy.map fun a b hab => alike_mk ?_)
  simp [hab, htu.text]

theorem call (isOptional : Bool) :
    Follows extra true 1 Alike (call k s isOptional x) (Parser.call l s' isOptional y) := by
  refine .bind (arguments h) fun v w hvw => .pure ?_
  exact hxy.bind fun a b hab => hvw.bind fun c d hcd => .ok (alike_mk (by simp [hab, hcd]))

theorem optionalAccess :
    Follows extra true 2 Alike (optionalAccess k s x) (Parser.optionalAccess l s' y) := by
  refine .bind (.punctuator _) fun _ _ _ => .bind look ?_
  rintro t _ rfl
  split
  · exact memberOfIndex h s s' hxy true
  · exact call h s s' hxy true
  · exact memberOfName s s' hxy true

theorem access? (calls : Bool) :
    Follows extra false 0 Alike (access? k s calls x) (Parser.access? l s' calls y) := by
  refine .bind look ?_
  rintro t _ rfl
  split
  · exact .bind (.punctuator _) fun _ _ _ => .bind (memberOfName s s' hxy false) fun v w hvw =>
      .pure (congrArg some hvw)
  · exact .bind (memberOfIndex h s s' hxy false) fun v w hvw => .pure (congrArg some hvw)
  · exact .bind (tagged s s' hxy) fun v w hvw => .pure (congrArg some hvw)
  · exact .ite (fun _ => .bind (call h s s' hxy false) fun v w hvw => .pure (congrArg some hvw))
      fun _ => .pure rfl
  · exact .ite (fun _ => .bind (optionalAccess h s s' hxy) fun v w hvw =>
      .pure (congrArg some hvw)) fun _ => .pure rfl
  · exact .pure rfl

end

theorem accesses (s s' : Option Position) (calls : Bool) {m n : Nat} {x y : Shaped Node}
    (hn : extra.Fuels n m) (hxy : Alike x y) :
    Follows extra false 0 Alike (accesses k s calls n x) (Parser.accesses l s' calls m y) := by
  induction n generalizing m x y with
  | zero => exact .exhausted (q := fun m => Parser.accesses l s' calls m y) rfl hn
  | succ n ih =>
    obtain ⟨m, rfl⟩ := hn.exists_succ
    refine .bind (access? h s s' hxy calls) fun o o' ho => ?_
    match o, o' with
    | none, none => exact .pure hxy
    | some v, some w => exact ih (hn.of_succ) (Option.some.inj ho)
    | none, some _ => cases ho
    | some _, none => cases ho

theorem constructed :
    Follows extra false 1 Alike (constructed k) (Parser.constructed l) := by
  refine .bind place fun s s' _ => .bind look ?_
  rintro t _ rfl
  dsimp only
  have hrest : ∀ c d : Construction, Alike c d → Follows extra false 0 Alike
      (if c.extensible = true then do
        let more ← Parser.accesses k s false ((← Parser.left) + 1) c.node
        return ⟨more, true⟩
      else return c)
      (if d.extensible = true then do
        let more ← Parser.accesses l s' false ((← Parser.left) + 1) d.node
        return ⟨more, true⟩
      else return d) := by
    intro c d hcd
    obtain ⟨hnode, hextensible⟩ := Construction.alike_iff.1 hcd
    rw [hextensible]
    refine .ite (fun _ => ?_) fun _ => .pure hcd
    refine .bind left fun m n hmn => ?_
    refine .bind (accesses h s s' false (hmn.succ) hnode) fun v w hvw => .pure ?_
    exact Construction.alike_iff.2 ⟨hvw, rfl⟩
  refine .ite (fun _ => .bind h.construction hrest) fun _ => ?_
  refine .bind (primary h) fun o o' ho => .pureBind (hrest _ _ ?_)
  exact Construction.alike_iff.2 ⟨(Operand.alike_iff.1 ho).1, rfl⟩

theorem construction :
    Follows extra false 1 Alike (construction k) (Parser.construction l) := by
  refine .bind place fun s s' _ => .bind (.word _) fun _ _ _ => .bind look ?_
  rintro t _ rfl
  refine .ite (fun _ => .bind (metaProperty s s' _ _) fun x y hxy => .pure ?_) fun _ => ?_
  · exact Construction.alike_iff.2 ⟨hxy, rfl⟩
  refine .bind (constructed h) fun c d hcd => .bind look ?_
  rintro t _ rfl
  obtain ⟨hnode, hextensible⟩ := Construction.alike_iff.1 hcd
  rw [hextensible]
  refine .ite (fun _ => .bind (arguments h) fun x y hxy => .pure ?_) fun _ => .pure ?_
  · refine Construction.alike_iff.2 ⟨?_, rfl⟩
    exact hnode.bind fun a b hab => hxy.bind fun as bs has => .ok (alike_mk (by simp [hab, has]))
  · exact Construction.alike_iff.2 ⟨hnode.bind fun a b hab => .ok (alike_mk (by simp [hab])), rfl⟩

theorem importCall (s s' : Option Position) :
    Follows extra true 2 Alike (importCall k s) (Parser.importCall l s') := by
  refine .atLeast (m := 4) ?_ (by decide)
  refine .bind (.word _) fun _ _ _ => .bind (.punctuator _) fun _ _ _ => ?_
  refine .bind h.assignment fun x y hxy => .bind (.punctuator _) fun _ _ _ => .pure ?_
  exact hxy.bind fun a b hab => .ok (alike_mk (by simp [hab]))

theorem leading (s s' : Option Position) :
    Follows extra false 1 Alike (leading k s) (Parser.leading l s') := by
  have hwhole : ∀ x y : Shaped Node, Alike x y → Alike (Construction.mk x true) ⟨y, true⟩ :=
    fun x y hxy => Construction.alike_iff.2 ⟨hxy, rfl⟩
  refine .bind look ?_
  rintro t _ rfl
  split
  · exact .bind (construction h) fun c d hcd =>
      .pure (alike_pair_iff.2 ⟨hcd, alike_plain (Construction.alike_iff.1 hcd).1⟩)
  · refine .lookFurther (fun next => .ite (fun _ => ?_) fun _ => ?_) (.inl (by decide))
    · exact .bind (importCall h s s') fun x y hxy =>
        .pure (alike_pair_iff.2 ⟨hwhole x y hxy, alike_plain hxy⟩)
    · exact .bind (primary h) fun o o' ho =>
        have hnode := (Operand.alike_iff.1 ho).1
        .pureBind (.pure (alike_pair_iff.2 ⟨hwhole _ _ hnode, alike_plain hnode⟩))
  · exact .bind (primary h) fun o o' ho =>
      .pure (alike_pair_iff.2 ⟨hwhole _ _ (Operand.alike_iff.1 ho).1, ho⟩)

theorem extended (s s' : Option Position) {c d : Construction} {o o' : Operand}
    (hcd : Alike c d) (ho : Alike o o') :
    Follows extra false 0 Alike (extended k s c o) (Parser.extended l s' d o') := by
  obtain ⟨hnode, hextensible⟩ := Construction.alike_iff.1 hcd
  unfold Parser.extended
  rw [hextensible]
  refine .ite (fun _ => .pure ho) fun _ => .bind (access? h s s' hnode true) fun v w hvw => ?_
  cases v with
  | none =>
    cases w with
    | none => exact .pure ho
    | some _ => cases hvw
  | some x =>
    cases w with
    | none => cases hvw
    | some y =>
      refine .bind left fun m n hmn => ?_
      exact .bind (accesses h s s' true hmn.succ (Option.some.inj hvw)) fun x y hxy =>
        .pure (alike_plain hxy)

theorem leftHandSide :
    Follows extra false 1 Alike (leftHandSide k) (Parser.leftHandSide l) := by
  refine .bind place fun s s' _ => .bind (leading h s s') fun r r' hr => ?_
  obtain ⟨hcd, ho⟩ := alike_pair_iff.1 hr
  exact extended h s s' hcd ho

/-! ## Operators -/

theorem update : Follows extra false 1 Alike (update k) (Parser.update l) := by
  refine .bind place fun s s' _ => .bind look ?_
  rintro t _ rfl
  refine .ite (fun _ => .bind (.takeIf rfl) fun t u htu => .bind h.unary fun x y hxy => .pure ?_)
    fun _ => .bind (leftHandSide h) fun o o' ho => .bind look ?_
  · rw [htu.text]
    exact alike_plain (alike_countingOf s s' u.text true hxy)
  rintro t _ rfl
  refine .ite (fun _ => .bind (.takeIf rfl) fun t u htu => .pure ?_) fun _ => .pure ho
  rw [htu.text]
  exact alike_plain (alike_countingOf s s' u.text false (Operand.alike_iff.1 ho).1)

theorem prefixed : Follows extra false 1 Alike (prefixed k) (Parser.prefixed l) := by
  refine .bind place fun s s' _ => .ifTaken (.bind h.unary fun x y hxy => .pure ?_) ?_
  · exact hxy.bind fun a b hab => .ok (alike_mk (by simp [hab]))
  refine .bind (.takeIf rfl) fun t u htu => .bind h.unary fun x y hxy => .pure ?_
  exact hxy.bind fun a b hab => .ok (alike_mk (by simp [hab, htu.text]))

theorem unary : Follows extra false 1 Alike (unary k) (Parser.unary l) := by
  refine .bind look ?_
  rintro t _ rfl
  exact .ite (fun _ => .bind (prefixed h) fun x y hxy => .pure (alike_plain hxy)) fun _ => update h

theorem exponent : Follows extra false 1 Alike (exponent k) (Parser.exponent l) := by
  refine .bind place fun s s' _ => .bind look ?_
  rintro t _ rfl
  refine .ite (fun _ => .bind (prefixed h) fun x y hxy => .pure (alike_plain hxy)) fun _ => ?_
  refine .bind (update h) fun o o' ho => .bind look ?_
  rintro t _ rfl
  refine .ite (fun _ => .bind (.takeIf rfl) fun t u htu => ?_) fun _ => .pure ho
  refine .bind h.exponent fun x y hxy => .pure ?_
  rw [htu.text]
  exact alike_plain (alike_binaryOf s s' _ u.text (Operand.alike_iff.1 ho).1 hxy)

omit h in
theorem not_levelOperators_terminator (n : Nat) :
    (levelOperators n).contains Terminal.terminator = false := by
  unfold levelOperators
  split <;> rfl

omit h in
theorem moreOperands (n : Nat) (s s' : Option Position) {p q : Parser Operand}
    (hpq : Follows extra false 1 Alike p q) {fuel fuel' : Nat} {o o' : Operand}
    (hfuel : extra.Fuels fuel fuel') (ho : Alike o o') :
    Follows extra false 0 Alike (moreOperands n s p fuel o) (Parser.moreOperands n s' q fuel' o') := by
  induction fuel generalizing fuel' o o' with
  | zero => exact .exhausted (q := fun n' => Parser.moreOperands n s' q n' o') rfl hfuel
  | succ fuel ih =>
    obtain ⟨fuel', rfl⟩ := hfuel.exists_succ
    refine .bind look ?_
    rintro t _ rfl
    refine .ite (fun _ => ?_) fun _ => .pure ho
    refine .bind (.takeIf (not_levelOperators_terminator n)) fun t u htu => ?_
    refine .bind hpq fun r r' hr => ih (hfuel.of_succ) ?_
    rw [htu.text]
    exact alike_plain
      (alike_binaryOf s s' _ u.text (Operand.alike_iff.1 ho).1 (Operand.alike_iff.1 hr).1)

theorem level (n : Nat) : Follows extra false 1 Alike (level k n) (Parser.level l n) := by
  induction n with
  | zero => exact exponent h
  | succ n ih =>
    refine .bind place fun s s' _ => .bind ih fun o o' ho => .bind left fun fuel fuel' hfuel => ?_
    exact moreOperands (n + 1) s s' ih (hfuel.succ) ho

/-! ## Conditions, assignments, arrow functions -/

theorem conditional : Follows extra false 1 Alike (conditional k) (Parser.conditional l) := by
  refine .bind place fun s s' _ => .bind (level h loosestLevel) fun o o' ho => ?_
  refine .ifTaken (.bind h.assignment fun x y hxy => .bind (.punctuator _) fun _ _ _ => ?_) (.pure ho)
  refine .bind h.assignment fun v w hvw => .pure (alike_plain ?_)
  exact (Operand.alike_iff.1 ho).1.bind fun a b hab => hxy.bind fun c d hcd =>
    hvw.bind fun e f hef => .ok (alike_mk (by simp [hab, hcd, hef]))

theorem arrowRest (s s' : Option Position) (isAsync : Bool) {x y : Shaped (List Node)}
    (hxy : Alike x y) :
    Follows extra false 1 Alike (arrowRest k s isAsync x) (Parser.arrowRest l s' isAsync y) := by
  refine .bind (.punctuator _) fun _ _ _ => .bind look ?_
  rintro t _ rfl
  dsimp only
  refine .bindIte (m := 1) (fun _ => (block h).loose) (fun _ => h.assignment) ?_
  refine fun v w hvw => .pure ?_
  exact hvw.bind fun c d hcd => hxy.bind fun a b hab => .ok (alike_mk (by simp [hcd, hab]))

theorem asyncArrow : Follows extra false 1 Alike (asyncArrow k) (Parser.asyncArrow l) := by
  refine .bind place fun s s' _ => .bind (.word _) fun _ _ _ => .bind look ?_
  rintro t _ rfl
  dsimp only
  refine .bindIte (m := 1) (fun _ => parenthesized h) (fun _ => primary h) ?_
  intro o o' ho
  have hparameters := (Operand.alike_iff.1 ho).2
  obtain ⟨node, parameters⟩ := o
  obtain ⟨node', parameters'⟩ := o'
  match parameters, parameters' with
  | none, none => exact .fail
  | some x, some y => exact (arrowRest h s s' true (Option.some.inj hparameters)).atLeast (Nat.zero_le _)
  | none, some _ => cases hparameters
  | some _, none => cases hparameters

theorem yieldExpression :
    Follows extra false 1 Alike (yieldExpression k) (Parser.yieldExpression l) := by
  refine .bind place fun s s' _ => .bind (.word _) fun _ _ _ => ?_
  refine .ifTaken (.atLeast (m := 1) (.bind h.assignment fun x y hxy => .pure ?_) (by decide))
    (.bind look ?_)
  · exact hxy.bind fun a b hab => .ok (alike_mk (by simp [hab]))
  rintro t _ rfl
  refine .ite (fun _ => .bind h.assignment fun x y hxy => .pure ?_) fun _ => .pure (.ok (alike_mk rfl))
  exact hxy.bind fun a b hab => .ok (alike_mk (by simp [hab]))

theorem assignmentRest (s s' : Option Position) {x y : Shaped Node} (hxy : Alike x y) :
    Follows extra false 1 Alike (assignmentRest k s x) (Parser.assignmentRest l s' y) := by
  refine .bind (.takeIf rfl) fun t u htu => .bind h.assignment fun v w hvw => .pure ?_
  rw [htu.text]
  refine hxy.bind fun a b hab => (hab.asTarget u.text s s').bind fun c d hcd => ?_
  exact hvw.bind fun e f hef => .ok (alike_mk (by simp [hcd, hef]))

theorem assignment : Follows extra false 1 Alike (assignment k) (Parser.assignment l) := by
  refine .bind place fun s s' _ => .bind look ?_
  rintro t _ rfl
  refine .ite (fun _ => ?_) fun _ => .lookFurther (fun next => .ite (fun _ => ?_) fun _ => ?_) (.inl (by decide))
  · exact yieldExpression h
  · exact asyncArrow h
  refine .bind (conditional h) fun o o' ho => .bind look ?_
  rintro t _ rfl
  obtain ⟨hnode, hparameters⟩ := Operand.alike_iff.1 ho
  have hplain : ∀ next : Terminal, Follows extra false 0 Alike
      (if next.isAssignmentOperator = true then Parser.assignmentRest k s o.node
        else return o.node)
      (if next.isAssignmentOperator = true then Parser.assignmentRest l s' o'.node
        else return o'.node) := fun next =>
    .ite (fun _ => (assignmentRest h s s' hnode).atLeast (Nat.zero_le _)) fun _ => .pure hnode
  cases t with
  | none => exact .pure hnode
  | some next =>
    by_cases harrow : next = .punctuator .arrow
    · rw [harrow]
      match hx : o.parameters, hy : o'.parameters with
      | none, none => exact hplain _
      | some x, some y =>
        rw [hx, hy] at hparameters
        exact (arrowRest h s s' false (Option.some.inj hparameters)).atLeast (Nat.zero_le _)
      | none, some _ => rw [hx, hy] at hparameters; cases hparameters
      | some _, none => rw [hx, hy] at hparameters; cases hparameters
    · simpa [harrow] using hplain next

theorem expression : Follows extra false 1 Alike (expression k) (Parser.expression l) :=
  commaExpression (assignment h)

end ModuleLowering.Parser.Follows
