import ModuleLowering.Proofs.SituatingFunctions
import ModuleLowering.Syntax.Parse.Expression

/-!
# Where expressions are built

One lemma for each rule of the grammar. A rule that goes on with an operand is given the place where
the operand starts and says where the whole lies if the operand lies there.
-/

set_option autoImplicit false

namespace ModuleLowering

open Sited

section

variable {K : Region} {s : Option Position}

theorem Sited.InRegion.append {α : Type} [Sited α] {as bs : List α} (h : InRegion K as)
    (hbs : InRegion K bs) : InRegion K (as ++ bs) := List.forall_mem_append.2 ⟨h, hbs⟩

instance : Sited Parser.InParentheses :=
  ⟨fun K found => InRegion K found.more ∧ InRegion K found.rest, fun h hK =>
    ⟨Sited.mono h.1 hK, Sited.mono h.2 hK⟩⟩

end

namespace Parser.Situates

variable {K : Region} {every : Bool} {s : Option Position} {x y : Shaped Node} {k : Deeper}
  (h : k.Situates)
include h

/-! ## Arrays and objects -/

theorem arrayElement : Situates K every true (arrayElement k) (InRegion K) := by
  refine place fun K s => ifTaken nofun (bind h.assignment.loose fun _ => ?_)
    (h.assignment.mono fun _ hx _ => hx)
  exact pure fun hx hs => .bind hx fun _ hn => .ok (.node hs (.one (.some hn) .nil))

theorem arrayElements (n : Nat) : Situates K every false (arrayElements k n) (InRegion K) := by
  induction n with
  | zero => exact fail
  | succ n ih =>
    refine ifTaken nofun (pure .nil) (ifTaken nofun (bind ih fun _ => ?_) ?_)
    · exact pure fun hxs => .cons .none hxs
    refine (bind (arrayElement h) fun x => ifTaken nofun (bind ih fun xs => ?_) ?_).loose
    · exact pure fun hxs hx => .cons (.some hx) hxs
    · exact (next (punctuator _) fun _ => pure fun hx => .cons (.some hx) .nil).loose

theorem array : Situates K every true (array k) (InRegion K) := by
  refine place fun K s => next (punctuator _) fun _ => left fun n => ?_
  refine bind (arrayElements h (n + 1)) fun elements => pure fun helements hs => ?_
  refine .bind (.mapM fun element helement => .part (helements element helement)) ?_
  exact fun _ hparts => .ok (.node hs (.sparse hparts .nil))

omit h in
theorem inRegion_propertyOf {method : Method} (hs : K.StartsAt s) (hmethod : InRegion K method) :
    InRegion K (propertyOf s method) :=
  .node hs (.one (.some hmethod.1) (.one (.some hmethod.2) .nil))

omit h in
theorem inRegion_shorthandOf {name : Node} {default? : Option Node} (hs : K.StartsAt s)
    (hname : InRegion K name) (hdefault : InRegion K default?) :
    InRegion K (shorthandOf s name default?) := by
  refine .node hs (.one (.some hname) (.one (.some ?_) .nil))
  cases default? with
  | none => exact hname
  | some d => exact .node hs (.one (.some hname) (.one hdefault .nil))

theorem namedProperty (isName : Bool) (name : Shaped Key) :
    Situates K every false (namedProperty k s isName name)
      fun property => K.StartsAt s → InRegion K name → InRegion K property := by
  refine ifTaken nofun (bind h.assignment.loose fun value => ?_)
    (look fun t => ite (fun _ => ?_) fun _ => ?_)
  · refine pure fun hvalue hs hname => .bind hname fun _ hname => .bind hvalue fun _ hvalue => ?_
    exact .ok (.node hs (.one (.some hname) (.one (.some hvalue) .nil)))
  · refine (bind (methodRest h _ name) fun method => pure fun hmethod hs hname => ?_).loose
    exact .map (hmethod hs hname) fun _ hm => inRegion_propertyOf hs hm
  dsimp only
  refine ite (fun _ => next fail fun _ => ?_) fun _ => ?_
  all_goals
    refine ifTaken nofun (bind h.assignment.loose fun value => ?_) (pure fun hs hname => ?_)
    · refine pure fun hvalue hs hname => .bind hname fun _ hname => .bind hvalue fun _ hvalue => ?_
      exact .ok (inRegion_shorthandOf hs hname (.some hvalue))
    · exact .map hname fun _ hname => inRegion_shorthandOf hs hname .none

theorem objectProperty : Situates K every true (objectProperty k) (InRegion K) := by
  refine place fun K s => ifTaken nofun (bind h.assignment.loose fun _ => ?_) ?_
  · exact pure fun hx hs => .bind hx fun _ hn => .ok (.node hs (.one (.some hn) .nil))
  refine methodMarks fun marks => look fun t => bind (key h) fun name => ite (fun _ => ?_) fun _ => ?_
  · refine (bind (methodRest h marks name) fun method => pure fun hmethod hname hs => ?_).loose
    exact .map (hmethod hs hname) fun _ hm => inRegion_propertyOf hs hm
  · exact (namedProperty h _ name).mono fun _ hproperty hname hs => hproperty hs hname

theorem object : Situates K every true (object k) (InRegion K) := by
  refine place fun K s => next (take nofun) fun _ => bind (items (objectProperty h)) fun xs => ?_
  exact pure fun hxs hs => .bind (.inOrder hxs) fun _ hns => .ok (.node hs (.many hns .nil))

omit h in
theorem inRegion_pattern (hx : InRegion K x) : InRegion K (x >>= Node.asPattern) :=
  .bind hx fun _ hn => Node.inRegion_asPattern hn

theorem binding : Situates K every true (binding k) (InRegion K) := by
  refine look fun t => ?_
  split
  · exact bind (array h) fun _ => pure inRegion_pattern
  · exact bind (object h) fun _ => pure inRegion_pattern
  · exact bind identifier fun _ => pure fun hn => .ok hn

/-! ## Primary expressions -/

omit h in
theorem inRegion_joinByComma (hs : K.StartsAt s) (hx : InRegion K x) (hy : InRegion K y) :
    InRegion K (joinByComma s x y) := by
  refine .bind hx fun left hleft => .bind hy fun right hright => .ok (.node hs (.many ?_ .nil))
  exact .append (Node.inRegion_commaParts hleft) (.cons hright .nil)

omit h in
theorem inRegion_joinAll {xs : List (Shaped Node)} (hs : K.StartsAt s) (hx : InRegion K x)
    (hxs : InRegion K xs) : InRegion K (joinAll s x xs) := by
  unfold joinAll
  induction xs generalizing x with
  | nil => exact hx
  | cons y xs ih =>
    obtain ⟨hy, hxs⟩ := List.forall_mem_cons.1 hxs
    exact ih (inRegion_joinByComma hs hx hy) hxs

omit h in
theorem commaExpression {p : Parser (Shaped Node)}
    (hp : ∀ K, Situates K every true p (InRegion K)) :
    Situates K every true (commaExpression p) (InRegion K) := by
  refine place fun K s => bind (parts (hp K)) fun xs => ?_
  cases xs with
  | nil => exact fail
  | cons x xs =>
    refine pure fun hxs hs => ?_
    obtain ⟨hx, hxs⟩ := List.forall_mem_cons.1 hxs
    exact inRegion_joinAll hs hx hxs

theorem restParameter : Situates K every true (restParameter k) (InRegion K) := by
  refine bind h.binding fun _ => pure fun hx => .map hx fun target htarget => ?_
  obtain ⟨K', hK, hloc, htarget, -⟩ := htarget.exists_since
  exact Sited.mono (.node hloc (.one (.some htarget) .nil)) hK

theorem moreInParentheses (n : Nat) :
    Situates K every false (moreInParentheses k n) (InRegion K) := by
  induction n with
  | zero => exact fail
  | succ n ih =>
    refine ifTaken nofun (pure ⟨.nil, .none⟩) (next (punctuator _) fun _ => ?_).loose
    refine ifTaken nofun (bind (restParameter h).loose fun rest => ?_) ?_
    · exact (next (punctuator _) fun _ => pure fun hrest => ⟨.nil, .some hrest⟩).loose
    refine (bind h.assignment fun x => bind ih fun found => pure fun hfound hx => ?_).loose
    exact ⟨.cons hx hfound.1, hfound.2⟩

/-- The place of the parenthesis is only told of in errors. -/
theorem parenthesized : Situates K every true (parenthesized k) (InRegion K) := by
  refine unplaced fun s => next (punctuator _) fun _ => ifTaken nofun (pure ?_) ?_
  · exact ⟨.error, .some (.ok .nil)⟩
  refine ifTaken nofun (bind (restParameter h).loose fun rest => ?_) ?_
  · refine (next (punctuator _) fun _ => pure fun hrest => ⟨.error, .some ?_⟩).loose
    exact .bind hrest fun _ hrest => .ok (.cons hrest .nil)
  refine (placed fun inner => bind h.assignment fun first => left fun n => ?_).loose
  refine bind (moreInParentheses h (n + 1)) fun found => ?_
  have hnode (hfound : InRegion (K.since inner) found) (hfirst : InRegion (K.since inner) first)
      (hK : ∀ q, K.since inner q → K q) (hs : (K.since inner).StartsAt inner) :
      InRegion K (joinAll inner first found.more) :=
    Sited.mono (inRegion_joinAll hs hfirst hfound.1) hK
  dsimp only
  split
  · refine pure fun hfound hfirst hK hs => ?_
    have hnode := hnode hfound hfirst hK hs
    exact ⟨hnode, .some (.bind hnode fun _ hn => Node.inRegion_asParameters hn)⟩
  · rename_i rest hrest
    refine pure fun hfound hfirst hK hs => ⟨.error, .some ?_⟩
    refine .bind (.bind (hnode hfound hfirst hK hs) fun _ hn => Node.inRegion_asParameters hn) ?_
    refine fun params hparams => .bind (Sited.mono (hfound.2 rest hrest) hK) fun _ hrest => ?_
    exact .ok (.append hparams (.cons hrest .nil))

omit h in
theorem memberName : Situates K every true memberName (InRegion K) :=
  bind (takeIf rfl) fun _ => pure fun ht => inRegion_leaf ht rfl

omit h in
theorem metaProperty (object expected : Text) :
    Situates K every true (metaProperty s object expected)
      fun node => K.StartsAt s → InRegion K node := by
  refine next (punctuator _) fun _ => (bind memberName fun name => pure fun hname hs => ?_).loose
  split
  · exact .ok (.node hs (.one (.some (.node hs .nil)) (.one (.some hname) .nil)))
  · exact .error

omit h in
theorem wordLiteral (w : Word) (value : Value) :
    Situates K every true (wordLiteral w value) (InRegion K) :=
  place fun _ _ => next (word _) fun _ => pure fun hs => .plain (.ok (.node hs .nil))

theorem primary : Situates K every true (primary k) (InRegion K) := by
  refine place fun K s => look fun t => ?_
  split
  · exact bind numberLiteral fun _ => pure fun hx _ => .plain hx
  · exact bind stringLiteral fun _ => pure fun hx _ => .plain hx
  · exact bind (takeIf rfl) fun _ => pure fun _ hs => .plain (.ok (.node hs .nil))
  · exact bind (takeIf rfl) fun _ => pure fun _ hs => .plain (.ok (.node hs .nil))
  · exact bind (object h) fun _ => pure fun hx _ => .plain hx
  · exact bind (array h) fun _ => pure fun hx _ => .plain hx
  · exact (parenthesized h).mono fun _ ho _ => ho
  · exact (wordLiteral _ _).mono fun _ ho _ => ho
  · exact (wordLiteral _ _).mono fun _ ho _ => ho
  · exact (wordLiteral _ _).mono fun _ ho _ => ho
  · exact next (word _) fun _ => pure fun hs => .plain (.ok (.node hs .nil))
  · exact next (word _) fun _ => pure fun hs => .plain (.ok (.node hs .nil))
  · refine next (word _) fun _ => (bind (metaProperty _ _) fun _ => ?_).loose
    exact pure fun hx hs => .plain (hx hs)
  · exact bind (functionExpression h) fun _ => pure fun hx _ => .plain hx
  · exact bind (functionExpression h) fun _ => pure fun hx _ => .plain hx
  · exact bind (classExpression h) fun _ => pure fun hx _ => .plain hx
  · exact bind identifier fun _ => pure fun hn _ => ⟨.ok hn, .some (.ok (.cons hn .nil))⟩

/-! ## Members and calls -/

theorem arguments : Situates K every true (arguments k) (InRegion K) :=
  next (punctuator _) fun _ => bind (items (arrayElement h)) fun _ => pure fun hxs => .inOrder hxs

omit h in
theorem memberOfName (isOptional : Bool) : Situates K every true (memberOfName s isOptional x)
    fun y => K.StartsAt s → InRegion K x → InRegion K y := by
  refine bind memberName fun name => pure fun hname hs hx => .map hx fun _ hobject => ?_
  exact .node hs (.one (.some hobject) (.one (.some hname) .nil))

theorem memberOfIndex (isOptional : Bool) : Situates K every true (memberOfIndex k s isOptional x)
    fun y => K.StartsAt s → InRegion K x → InRegion K y := by
  refine next (punctuator _) fun _ => ?_
  refine (bind (commaExpression fun _ => h.assignment) fun index => ?_).loose
  refine (next (punctuator _) fun _ => pure fun hindex hs hx => ?_).loose
  refine .bind hx fun _ hobject => .bind hindex fun _ hindex => .ok ?_
  exact .node hs (.one (.some hobject) (.one (.some hindex) .nil))

omit h in
theorem tagged : Situates K every true (tagged s x)
    fun y => K.StartsAt s → InRegion K x → InRegion K y := by
  refine bind (takeIf rfl) fun t => pure fun ht hs hx => .map hx fun _ htag => ?_
  exact .node hs (.one (.some htag) (.one (.some (inRegion_leaf ht rfl)) .nil))

theorem call (isOptional : Bool) : Situates K every true (call k s isOptional x)
    fun y => K.StartsAt s → InRegion K x → InRegion K y := by
  refine bind (arguments h) fun args => pure fun hargs hs hx => ?_
  refine .bind hx fun _ hcallee => .bind hargs fun _ hargs => .ok ?_
  exact .node hs (.one (.some hcallee) (.many hargs .nil))

theorem optionalAccess : Situates K every true (optionalAccess k s x)
    fun y => K.StartsAt s → InRegion K x → InRegion K y := by
  refine next (punctuator _) fun _ => look fun t => ?_
  split
  · exact (memberOfIndex h true).loose
  · exact (call h true).loose
  · exact (memberOfName true).loose

theorem access? (calls : Bool) : Situates K every false (access? k s calls x)
    fun y => K.StartsAt s → InRegion K x → InRegion K y := by
  have hsome {p : Parser (Shaped Node)}
      (hp : Situates K every true p fun y => K.StartsAt s → InRegion K x → InRegion K y) :
      Situates K every false (do return some (← p))
        fun y => K.StartsAt s → InRegion K x → InRegion K y :=
    (bind hp fun _ => pure fun hy hs hx => .some (hy hs hx)).loose
  refine look fun t => ?_
  split
  · exact (next (punctuator _) fun _ => hsome (memberOfName false)).loose
  · exact hsome (memberOfIndex h false)
  · exact hsome tagged
  · exact ite (fun _ => hsome (call h false)) fun _ => pure fun _ _ => .none
  · exact ite (fun _ => hsome (optionalAccess h)) fun _ => pure fun _ _ => .none
  · exact pure fun _ _ => .none

theorem accesses (calls : Bool) (n : Nat) : Situates K every false (accesses k s calls n x)
    fun y => K.StartsAt s → InRegion K x → InRegion K y := by
  induction n generalizing x with
  | zero => exact fail
  | succ n ih =>
    refine bind (access? h calls) fun found => ?_
    cases found with
    | none => exact pure fun _ _ hx => hx
    | some longer => exact ih.mono fun _ hy hlonger hs hx => hy hs (hlonger hs hx longer rfl)

theorem constructed : Situates K every true (constructed k) (InRegion K) := by
  refine place fun K s => look fun t => ?_
  dsimp only
  have hrest (made : Construction) : Situates K every false
      (if made.extensible = true then do
        let more ← Parser.accesses k s false ((← Parser.left) + 1) made.node
        return (⟨more, true⟩ : Construction)
      else return made) fun longer => InRegion K made → K.StartsAt s → InRegion K longer := by
    refine ite (fun _ => left fun n => ?_) fun _ => pure fun hmade _ => hmade
    exact bind (accesses h false (n + 1)) fun _ => pure fun hmore hmade hs => hmore hs hmade
  refine ite (fun _ => bind h.construction hrest) fun _ => bind (primary h) fun o => pureBind ?_
  exact (hrest ⟨o.node, true⟩).mono fun _ hlonger ho => hlonger ho.1

theorem construction : Situates K every true (construction k) (InRegion K) := by
  refine place fun K s => next (word _) fun _ => look fun t => ite (fun _ => ?_) fun _ => ?_
  · exact (bind (metaProperty _ _) fun _ => pure fun hx hs => hx hs).loose
  refine (bind (constructed h) fun made => look fun t => ite (fun _ => ?_) fun _ => ?_).loose
  · refine (bind (arguments h) fun args => pure fun hargs hmade hs => ?_).loose
    refine .bind hmade fun _ hcallee => .bind hargs fun _ hargs => .ok ?_
    exact .node hs (.one (.some hcallee) (.many hargs .nil))
  · refine pure fun hmade hs => .bind hmade fun _ hcallee => .ok ?_
    exact .node hs (.one (.some hcallee) (.many .nil .nil))

theorem importCall : Situates K every true (importCall k s)
    fun x => K.StartsAt s → InRegion K x := by
  refine next (word _) fun _ => (next (punctuator _) fun _ => ?_).loose
  refine (bind h.assignment fun source => (next (punctuator _) fun _ => ?_).loose).loose
  exact pure fun hx hs => .bind hx fun _ hn => .ok (.node hs (.one (.some hn) .nil))

theorem leading : Situates K every true (leading k s) fun r => K.StartsAt s → InRegion K r := by
  refine look fun t => ?_
  split
  · exact bind (construction h) fun _ => pure fun hmade _ => ⟨hmade, .plain hmade⟩
  · refine lookFurther fun next => ?_
    dsimp only
    refine ite (fun _ => bind (importCall h) fun _ => ?_) fun _ => bind (primary h) fun o => ?_
    · exact pure fun hx hs => ⟨hx hs, .plain (hx hs)⟩
    · exact pureBind (pure fun ho _ => ⟨ho.1, .plain ho.1⟩)
  · exact bind (primary h) fun _ => pure fun ho _ => ⟨ho.1, ho⟩

theorem extended (first : Construction) (alone : Operand) :
    Situates K every false (extended k s first alone)
      fun o => K.StartsAt s → InRegion K first → InRegion K alone → InRegion K o := by
  refine ite (fun _ => pure fun _ _ halone => halone) fun _ => bind (access? h true) fun found => ?_
  cases found with
  | none => exact pure fun _ _ _ halone => halone
  | some longer =>
    refine left fun n => bind (accesses h true (n + 1)) fun _ => ?_
    exact pure fun hmore hlonger hs hfirst _ => .plain (hmore hs (hlonger hs hfirst longer rfl))

theorem leftHandSide : Situates K every true (leftHandSide k) (InRegion K) := by
  refine place fun K s => bind (leading h) fun first => ?_
  exact (extended h first.1 first.2).mono fun _ ho hfirst hs =>
    ho hs (hfirst hs).1 (hfirst hs).2

/-! ## Operators -/

omit h in
theorem inRegion_countingOf (operator : Text) (before : Bool) (hs : K.StartsAt s)
    (hx : InRegion K x) : InRegion K (countingOf s operator before x) := by
  refine .bind hx fun target htarget => ?_
  split
  · exact .ok (.node hs (.one (.some htarget) .nil))
  · exact .error

theorem update : Situates K every true (update k) (InRegion K) := by
  refine place fun K s => look fun t => ite (fun _ => ?_) fun _ => ?_
  · refine bind (takeIf rfl) fun operator => (bind h.unary fun x => ?_).loose
    exact pure fun hx _ hs => .plain (inRegion_countingOf _ _ hs hx)
  refine bind (leftHandSide h) fun o => look fun t => ite (fun _ => ?_) fun _ => ?_
  · refine (bind (takeIf rfl) fun operator => pure fun _ ho hs => ?_).loose
    exact .plain (inRegion_countingOf _ _ hs ho.1)
  · exact pure fun ho _ => ho

theorem prefixed : Situates K every true (prefixed k) (InRegion K) := by
  refine place fun K s => ifTaken nofun (bind h.unary.loose fun x => ?_) ?_
  · exact pure fun hx hs => .bind hx fun _ hn => .ok (.node hs (.one (.some hn) .nil))
  refine bind (takeIf rfl) fun operator => (bind h.unary fun x => ?_).loose
  exact pure fun hx _ hs => .bind hx fun _ hn => .ok (.node hs (.one (.some hn) .nil))

theorem unary : Situates K every true (unary k) (InRegion K) :=
  look fun _ => ite (fun _ => bind (prefixed h) fun _ => pure fun hx => .plain hx) fun _ => update h

omit h in
theorem inRegion_binaryOf (logical : Bool) (operator : Text) (hs : K.StartsAt s)
    (hx : InRegion K x) (hy : InRegion K y) : InRegion K (binaryOf s logical operator x y) := by
  refine .bind hx fun left hleft => .bind hy fun right hright => .ok ?_
  split
  · exact .node hs (.one (.some hleft) (.one (.some hright) .nil))
  · exact .node hs (.one (.some hleft) (.one (.some hright) .nil))

theorem exponent : Situates K every true (exponent k) (InRegion K) := by
  refine place fun K s => look fun t => ite (fun _ => ?_) fun _ => ?_
  · exact bind (prefixed h) fun _ => pure fun hx _ => .plain hx
  refine bind (update h) fun base => look fun t => ite (fun _ => ?_) fun _ => ?_
  · refine (bind (takeIf rfl) fun operator => (bind h.exponent fun power => ?_).loose).loose
    exact pure fun hpower _ hbase hs => .plain (inRegion_binaryOf _ _ hs hbase.1 hpower)
  · exact pure fun hbase _ => hbase

omit h in
theorem levelOperators_terminator (n : Nat) :
    (levelOperators n).contains Terminal.terminator = false := by
  unfold levelOperators
  split <;> rfl

omit h in
theorem moreOperands (n : Nat) {p : Parser Operand} (hp : Situates K every true p (InRegion K))
    (fuel : Nat) (first : Operand) : Situates K every false (moreOperands n s p fuel first)
      fun o => K.StartsAt s → InRegion K first → InRegion K o := by
  induction fuel generalizing first with
  | zero => exact fail
  | succ fuel ih =>
    refine look fun t => ite (fun _ => ?_) fun _ => pure fun _ hfirst => hfirst
    refine (bind (takeIf (levelOperators_terminator n)) fun operator => ?_).loose
    refine (bind hp fun right => (ih _).mono fun _ ho hright _ hs hfirst => ?_).loose
    exact ho hs (.plain (inRegion_binaryOf _ _ hs hfirst.1 hright.1))

theorem level (n : Nat) : Situates K every true (level k n) (InRegion K) := by
  induction n generalizing K with
  | zero => exact exponent h
  | succ n ih =>
    refine place fun K s => bind ih fun first => left fun m => ?_
    exact (moreOperands (n + 1) ih (m + 1) first).mono fun _ ho hfirst hs => ho hs hfirst

/-! ## Conditions, assignments, arrow functions -/

theorem conditional : Situates K every true (conditional k) (InRegion K) := by
  refine place fun K s => bind (level h loosestLevel) fun test => ?_
  refine ifTaken nofun (bind h.assignment.loose fun consequent => ?_) (pure fun htest _ => htest)
  refine (next (punctuator _) fun _ => (bind h.assignment fun alternate => ?_).loose).loose
  refine pure fun halternate hconsequent htest hs => .plain ?_
  refine .bind htest.1 fun _ htest => .bind hconsequent fun _ hconsequent => ?_
  refine .bind halternate fun _ halternate => .ok (.node hs ?_)
  exact .one (.some htest) (.one (.some hconsequent) (.one (.some halternate) .nil))

theorem arrowRest (isAsync : Bool) (params : Shaped (List Node)) :
    Situates K every true (arrowRest k s isAsync params)
      fun x => K.StartsAt s → InRegion K params → InRegion K x := by
  refine next (punctuator _) fun _ => look fun t => ?_
  dsimp only
  have hbody (body : Shaped Node) : Situates K every false
      (Pure.pure (body >>= fun body => params >>= fun params =>
        Pure.pure (Node.mk s (.arrowFunctionExpression params (some body) isAsync))))
      fun x => InRegion K body → K.StartsAt s → InRegion K params → InRegion K x := by
    refine pure fun hbody hs hparams => .bind hbody fun _ hbody => .bind hparams fun _ hparams => ?_
    exact .ok (.node hs (.many hparams (.one (.some hbody) .nil)))
  exact ite (fun _ => (bind (block h) hbody).loose) fun _ => (bind h.assignment hbody).loose

theorem asyncArrow : Situates K every true (asyncArrow k) (InRegion K) := by
  refine place fun K s => next (word _) fun _ => look fun t => ?_
  dsimp only
  refine ite (fun _ => (bind (parenthesized h) fun head => ?_).loose)
    fun _ => (bind (primary h) fun head => ?_).loose
  all_goals
    split
    · rename_i params hparams
      exact (arrowRest h true params).loose.mono fun _ hx hhead hs => hx hs (hhead.2 params hparams)
    · exact fail

theorem yieldExpression : Situates K every true (yieldExpression k) (InRegion K) := by
  refine place fun K s => next (word _) fun _ => ?_
  refine ifTaken nofun (bind h.assignment.loose fun _ => ?_)
    (look fun t => ite (fun _ => (bind h.assignment fun _ => ?_).loose) fun _ => ?_)
  · exact pure fun hx hs => .bind hx fun _ hn => .ok (.node hs (.one (.some hn) .nil))
  · exact pure fun hx hs => .bind hx fun _ hn => .ok (.node hs (.one (.some hn) .nil))
  · exact pure fun hs => .ok (.node hs (.one .none .nil))

theorem assignmentRest : Situates K every true (assignmentRest k s x)
    fun y => K.StartsAt s → InRegion K x → InRegion K y := by
  refine bind (takeIf rfl) fun operator => (bind h.assignment fun value => ?_).loose
  refine pure fun hvalue _ hs hx => .bind hx fun _ htarget => ?_
  refine .bind (Node.inRegion_asTarget _ htarget) fun _ htarget => .bind hvalue fun _ hvalue => ?_
  exact .ok (.node hs (.one (.some htarget) (.one (.some hvalue) .nil)))

theorem assignment : Situates K every true (assignment k) (InRegion K) := by
  refine place fun K s => look fun first => ite (fun _ => ?_) fun _ => lookFurther fun second => ?_
  · exact (yieldExpression h).mono fun _ hx _ => hx
  refine ite (fun _ => ?_) fun _ => bind (conditional h) fun operand => look fun t => ?_
  · exact (asyncArrow h).mono fun _ hx _ => hx
  split
  · rename_i params hparams
    exact (arrowRest h false params).loose.mono fun _ hx hoperand hs =>
      hx hs (hoperand.2 params hparams)
  · refine ite (fun _ => ?_) fun _ => pure fun hoperand _ => hoperand.1
    exact (assignmentRest h).loose.mono fun _ hx hoperand hs => hx hs hoperand.1
  · exact pure fun hoperand _ => hoperand.1

theorem expression : Situates K every true (expression k) (InRegion K) :=
  commaExpression fun _ => assignment h

end Parser.Situates

end ModuleLowering
