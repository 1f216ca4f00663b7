import ModuleLowering.Proofs.SituatingExpressions
import ModuleLowering.Syntax.Parse.Item

/-!
# Where statements and module items are built

One lemma for each rule of the grammar. A statement that ends with another one is only known to lie
in a region if all of its tokens do, because the other one may be a terminator alone. Every other
statement, import or export lies in the region of its tokens wherever the terminator is that ends
it.
-/

set_option autoImplicit false

namespace ModuleLowering

open Sited

namespace Parser

/-! ## Loops that declare something -/

/-- What a loop over the parts of something declares. -/
def loopDeclaration (k : Deeper) : Parser (Shaped Node) := do
  let kind ← declaringWord
  let start ← place
  return loopVariable kind start (← binding k)

/-- A loop that declares something goes over items or keys, or it has three parts. -/
theorem run_forDeclaring_ok {k : Deeper} {start : Option Position} {isAwait : Bool}
    {ts rest : List Token} {x : Shaped Node}
    (h : (forDeclaring k start isAwait).run ts = .ok (x, rest)) :
    (∃ isAwait, (loopDeclaration k >>= forOfRest k start isAwait).run ts = .ok (x, rest)) ∨
      (loopDeclaration k >>= forInRest k start).run ts = .ok (x, rest) ∨
      (declaredVariables k >>= fun declared => forRest k start (some declared)).run ts =
        .ok (x, rest) := by
  obtain ⟨kind, mid, hkind, h⟩ := run_bind_ok.1 h
  obtain ⟨s, mid', hplace, h⟩ := run_bind_ok.1 h
  obtain ⟨target, mid'', htarget, h⟩ := run_bind_ok.1 h
  have hdeclared : (loopDeclaration k).run ts = .ok (loopVariable kind s target, mid'') :=
    run_bind_ok.2 ⟨kind, mid, hkind, run_bind_ok.2 ⟨s, mid', hplace,
      run_bind_ok.2 ⟨target, mid'', htarget, rfl⟩⟩⟩
  dsimp only at h
  split at h
  · exact .inl ⟨true, run_bind_ok.2 ⟨_, _, hdeclared, h⟩⟩
  obtain ⟨t, _, hlook, h⟩ := run_bind_ok.1 h
  cases hlook
  split at h
  · exact .inr (.inl (run_bind_ok.2 ⟨_, _, hdeclared, h⟩))
  · exact .inl ⟨false, run_bind_ok.2 ⟨_, _, hdeclared, h⟩⟩
  · obtain ⟨first, mid₁, hfirst, h⟩ := run_bind_ok.1 h
    obtain ⟨n, mid₂, hleft, h⟩ := run_bind_ok.1 h
    obtain ⟨more, mid₃, hmore, h⟩ := run_bind_ok.1 h
    have hdeclarator : (declarator k).run mid = .ok (first, mid₁) :=
      run_bind_ok.2 ⟨s, mid', hplace, run_bind_ok.2 ⟨target, mid'', htarget, hfirst⟩⟩
    have hparts : (parts (declarator k)).run mid = .ok (first :: more, mid₃) :=
      run_bind_ok.2 ⟨first, mid₁, hdeclarator, run_bind_ok.2 ⟨n, mid₂, hleft,
        run_bind_ok.2 ⟨more, mid₃, hmore, rfl⟩⟩⟩
    refine .inr (.inr (run_bind_ok.2 ⟨_, mid₃, run_bind_ok.2 ⟨kind, mid, hkind, ?_⟩, h⟩))
    exact run_bind_ok.2 ⟨_, mid₃, hparts, rfl⟩

end Parser

namespace Parser.Situates

variable {K : Region} {every : Bool} {s : Option Position} {k : Deeper}

/-! ## What statements with a statement inside are built of -/

section

variable {test body declared right : Shaped Node} {init? test? step? alternate? : Option (Shaped Node)}
  (hs : K.StartsAt s)
include hs

theorem inRegion_ifStatement (htest : InRegion K test) (hbody : InRegion K body)
    (halternate : InRegion K alternate?) : InRegion (α := Shaped Node) K do
      let alternate ← alternate?.mapM id
      let test ← test
      return .mk s (.ifStatement (some test) (some (← body)) alternate) := by
  refine .bind (.part halternate) fun _ halternate => .bind htest fun _ htest => ?_
  refine .bind hbody fun _ hbody => .ok (.node hs ?_)
  exact .one (.some htest) (.one (.some hbody) (.one halternate .nil))

theorem inRegion_whileStatement (htest : InRegion K test) (hbody : InRegion K body) :
    InRegion (α := Shaped Node) K do
      let test ← test
      return .mk s (.whileStatement (some test) (some (← body))) := by
  refine .bind htest fun _ htest => .bind hbody fun _ hbody => .ok (.node hs ?_)
  exact .one (.some htest) (.one (.some hbody) .nil)

theorem inRegion_forStatement (hinit : InRegion K init?) (htest : InRegion K test?)
    (hstep : InRegion K step?) (hbody : InRegion K body) : InRegion (α := Shaped Node) K do
      let init ← init?.mapM id
      let test ← test?.mapM id
      let step ← step?.mapM id
      return .mk s (.forStatement init test step (some (← body))) := by
  refine .bind (.part hinit) fun _ hinit => .bind (.part htest) fun _ htest => ?_
  refine .bind (.part hstep) fun _ hstep => .bind hbody fun _ hbody => .ok (.node hs ?_)
  exact .one hinit (.one htest (.one hstep (.one (.some hbody) .nil)))

/-- A loop over the parts of something: what it declares, what it goes through, and its body. -/
theorem inRegion_loop (form : Node → Node → Node → Form Node)
    (hform : ∀ a b c, (form a b c).slots = [.one (some a), .one (some b), .one (some c)])
    (hdeclared : InRegion K declared) (hright : InRegion K right) (hbody : InRegion K body) :
    InRegion (α := Shaped Node) K do
      let declared ← declared
      let right ← right
      return .mk s (form declared right (← body)) := by
  refine .bind hdeclared fun _ hdeclared => .bind hright fun _ hright => ?_
  refine .bind hbody fun _ hbody => .ok (.node hs ?_)
  rw [hform]
  exact .one (.some hdeclared) (.one (.some hright) (.one (.some hbody) .nil))

end

variable (h : k.Situates)
include h

theorem innerExpression : Situates K every true (innerExpression k) (InRegion K) :=
  commaExpression fun _ => h.assignment

theorem condition : Situates K every true (condition k) (InRegion K) := by
  refine next (punctuator _) fun _ => (bind (innerExpression h) fun test => ?_).loose
  exact (next (punctuator _) fun _ => pure id).loose

/-! ## Variables -/

theorem declaratorRest (target : Shaped Node) : Situates K every false (declaratorRest k s target)
    fun x => K.StartsAt s → InRegion K target → InRegion K x := by
  refine mark nofun fun _ => ?_
  dsimp only
  refine perhaps h.assignment fun value => pure fun hvalue hs htarget => ?_
  refine .bind (.part hvalue) fun _ hvalue => .bind htarget fun _ htarget => .ok ?_
  exact .node hs (.one (.some htarget) (.one hvalue .nil))

theorem declarator : Situates K every true (declarator k) (InRegion K) := by
  refine place fun K s => bind (binding h) fun target => ?_
  exact (declaratorRest h target).mono fun _ hx htarget hs => hx hs htarget

omit h in
theorem inRegion_declarationOf {kind : Token} {declarators : List (Shaped Node)}
    (hs : K.StartsAt (some kind.start)) (h : InRegion K declarators) :
    InRegion K (declarationOf kind declarators) :=
  .bind (.inOrder h) fun _ hns => .ok (.node hs (.many hns .nil))

theorem declaredVariables : Situates K every true (declaredVariables k) (InRegion K) := by
  refine takeIfBind rfl fun kind => (bind (parts (declarator h)) fun declarators => ?_).loose
  exact pure fun hdeclarators hs =>
    Sited.mono (inRegion_declarationOf hs hdeclarators) fun _ hq => hq.1

/-! ## Conditions and loops -/

theorem ifStatement : Situates K true true (ifStatement k) (InRegion K) := by
  refine place fun K s => next (word _) fun _ => (bind (condition h) fun test => ?_).loose
  refine (bind h.statement fun consequent => mark nofun fun _ => ?_).loose
  dsimp only
  refine perhaps h.statement fun alternate => pure fun halternate hconsequent htest hs => ?_
  exact inRegion_ifStatement hs htest hconsequent halternate

theorem whileStatement : Situates K true true (whileStatement k) (InRegion K) := by
  refine place fun K s => next (word _) fun _ => (bind (condition h) fun test => ?_).loose
  exact (bind h.statement fun body => pure fun hbody htest hs =>
    inRegion_whileStatement hs htest hbody).loose

/-- The body of a `do` ends before its `while`. -/
theorem doStatement : Situates K every true (doStatement k) (InRegion K) := by
  refine place fun K s => next (word _) fun _ => before h.statement fun body => ?_
  refine next (word _) fun _ => (bind (condition h) fun test => next terminator.loose fun _ => ?_).loose
  refine pure fun htest hbody hs => .bind hbody fun _ hbody => .bind htest fun _ htest => ?_
  exact .ok (.node hs (.one (.some hbody) (.one (.some htest) .nil)))

theorem expressionUnless (stop : Punctuator) :
    Situates K every false (expressionUnless k stop) (InRegion K) :=
  look fun _ => ite (fun _ => pure .none)
    fun _ => (bind (innerExpression h) fun _ => pure fun hx => .some hx).loose

omit h in
/-- A variable that a loop declares is placed behind the word that declares it. -/
theorem inRegion_loopVariable {K' : Region} {kind : Token} {target : Shaped Node}
    (hkind : K.StartsAt (some kind.start)) (hK : ∀ q, K' q → K q) (hs : K'.StartsAt s)
    (htarget : InRegion K' target) : InRegion K (loopVariable kind s target) := by
  refine Shaped.Builds.bind htarget fun _ htarget => .ok (.node hkind (.many (.cons ?_ .nil) .nil))
  exact Sited.mono (.node hs (.one (.some htarget) (.one .none .nil))) hK

theorem loopDeclaration : Situates K every true (loopDeclaration k) (InRegion K) := by
  refine takeIfBind rfl fun kind => (placed fun s' => bind (binding h) fun target => ?_).loose
  refine pure fun htarget hK hs' hkind => ?_
  exact Sited.mono (inRegion_loopVariable hkind hK hs' htarget) fun _ hq => hq.1

theorem forRest (init : Option (Shaped Node)) : Situates K true true (forRest k s init)
    fun x => K.StartsAt s → InRegion K init → InRegion K x := by
  refine next (punctuator _) fun _ => (bind (expressionUnless h _) fun test => ?_).loose
  refine (next (punctuator _) fun _ => (bind (expressionUnless h _) fun step => ?_).loose).loose
  refine (next (punctuator _) fun _ => (bind h.statement fun body => ?_).loose).loose
  exact pure fun hbody hstep htest hs hinit => inRegion_forStatement hs hinit htest hstep hbody

theorem forInRest (declared : Shaped Node) : Situates K true true (forInRest k s declared)
    fun x => K.StartsAt s → InRegion K declared → InRegion K x := by
  refine next (word _) fun _ => (bind (innerExpression h) fun right => ?_).loose
  refine (next (punctuator _) fun _ => (bind h.statement fun body => ?_).loose).loose
  exact pure fun hbody hright hs hdeclared =>
    inRegion_loop hs (fun a b c => .forInStatement (some a) (some b) (some c))
      (fun _ _ _ => rfl) hdeclared hright hbody

theorem forOfRest (isAwait : Bool) (declared : Shaped Node) :
    Situates K true true (forOfRest k s isAwait declared)
      fun x => K.StartsAt s → InRegion K declared → InRegion K x := by
  refine next (word _) fun _ => (bind h.assignment fun right => ?_).loose
  refine (next (punctuator _) fun _ => (bind h.statement fun body => ?_).loose).loose
  exact pure fun hbody hright hs hdeclared =>
    inRegion_loop hs (fun a b c => .forOfStatement (some a) (some b) (some c) isAwait)
      (fun _ _ _ => rfl) hdeclared hright hbody

theorem forDeclaring (isAwait : Bool) : Situates K true true (forDeclaring k s isAwait)
    fun x => K.StartsAt s → InRegion K x where
  reads hp := by
    have hloop {rest : Shaped Node → Parser (Shaped Node)}
        (hrest : ∀ declared, Situates K true true (rest declared)
          fun x => K.StartsAt s → InRegion K declared → InRegion K x) :
        Situates K true true (Parser.loopDeclaration k >>= rest)
          fun x => K.StartsAt s → InRegion K x :=
      bind (loopDeclaration h) fun declared =>
        (hrest declared).loose.mono fun _ hx hdeclared hs => hx hs hdeclared
    have hparts : Situates K true true
        (Parser.declaredVariables k >>= fun declared => Parser.forRest k s (some declared))
        fun x => K.StartsAt s → InRegion K x :=
      bind (declaredVariables h) fun declared =>
        (forRest h (some declared)).loose.mono fun _ hx hdeclared hs => hx hs (.some hdeclared)
    rcases run_forDeclaring_ok hp with ⟨isAwait, hp⟩ | hp | hp
    · exact (hloop fun declared => forOfRest h isAwait declared).reads hp
    · exact (hloop fun declared => forInRest h declared).reads hp
    · exact hparts.reads hp

theorem forStatement : Situates K true true (forStatement k) (InRegion K) := by
  refine place fun K s => next (word _) fun _ => mark nofun fun isAwait => ?_
  refine (next (punctuator _) fun _ => look fun t => ite (fun _ => ?_) fun _ => ?_).loose
  · exact (forDeclaring h isAwait).loose
  · refine bind (expressionUnless h _) fun init => (forRest h init).loose.mono ?_
    exact fun x hx hinit hs => hx hs hinit

/-! ## Jumps -/

theorem returnStatement : Situates K every true (returnStatement k) (InRegion K) := by
  refine place fun K s => next (word _) fun _ => ifTaken nofun (pure fun hs => ?_) ?_
  · exact .ok (.node hs (.one .none .nil))
  refine (bind (innerExpression h) fun value => next terminator.loose fun _ => ?_).loose
  exact pure fun hx hs => .bind hx fun _ hn => .ok (.node hs (.one (.some hn) .nil))

theorem throwStatement : Situates K every true (throwStatement k) (InRegion K) := by
  refine place fun K s => next (word _) fun _ => (bind (innerExpression h) fun value => ?_).loose
  refine next terminator.loose fun _ => pure fun hx hs => .bind hx fun _ hn => ?_
  exact .ok (.node hs (.one (.some hn) .nil))

omit h in
theorem wordStatement (w : Word) {form : Form Node} (hform : form.slots = []) :
    Situates K every true (wordStatement w form) (InRegion K) := by
  refine place fun K s => next (word _) fun _ => next terminator.loose fun _ => pure fun hs => ?_
  exact .ok (.node hs (by rw [hform]; exact .nil))

/-! ## `try` and `switch` -/

theorem catchClause : Situates K every true (catchClause k) (InRegion K) := by
  refine place fun K s => next (word _) fun _ => ?_
  dsimp only
  have hbody (param : Option (Shaped Node)) : Situates K every false
      (do
        let body ← Parser.block k
        return do
          let param ← param.mapM id
          return Node.mk s (.catchClause param (some (← body))))
      fun x => InRegion K param → K.StartsAt s → InRegion K x := by
    refine (bind (block h) fun body => pure fun hbody hparam hs => ?_).loose
    refine .bind (.part hparam) fun _ hparam => .bind hbody fun _ hbody => .ok (.node hs ?_)
    exact .one hparam (.one (.some hbody) .nil)
  refine ifTaken nofun ?_ (pureBind ((hbody none).mono fun _ hx => hx .none))
  refine (bind (binding h) fun param => (next (punctuator _) fun _ => pureBind ?_).loose).loose
  exact (hbody (some param)).mono fun _ hx hparam => hx (.some hparam)

theorem tryStatement : Situates K every true (tryStatement k) (InRegion K) := by
  refine place fun K s => next (word _) fun _ => (bind (block h) fun body => look fun t => ?_).loose
  dsimp only
  refine perhaps (catchClause h) fun handler => mark nofun fun _ => ?_
  refine perhaps (block h) fun finalizer => pure fun hfinalizer hhandler hbody hs => ?_
  refine .ite (fun _ => Shaped.Builds.bind (P := fun _ => False) nofun fun _ => False.elim) ?_
  intro _
  refine .bind hbody fun _ hbody => .bind (.part hhandler) fun _ hhandler => ?_
  refine .bind (.part hfinalizer) fun _ hfinalizer => .ok (.node hs ?_)
  exact .one (.some hbody) (.one hhandler (.one hfinalizer .nil))

theorem switchCase : Situates K true true (switchCase k) (InRegion K) := by
  refine place fun K s => ?_
  dsimp only
  have hbody (test : Option (Shaped Node)) : Situates K true true
      (do
        Parser.punctuator .colon
        let body ← Parser.manyUntil k.statement endsCase ((← Parser.left) + 1)
        return do
          let test ← test.mapM id
          return Node.mk s (.switchCase test (← inOrder body)))
      fun x => InRegion K test → K.StartsAt s → InRegion K x := by
    refine next (punctuator _) fun _ => left fun n => bind (manyUntil h.statement) fun body => ?_
    refine pure fun hbody htest hs => .bind (.part htest) fun _ htest => ?_
    exact .bind (.inOrder hbody) fun _ hbody => .ok (.node hs (.one htest (.many hbody .nil)))
  refine ifTaken nofun (pureBind ((hbody none).loose.mono fun _ hx => hx .none)) ?_
  refine next (word _) fun _ => (bind ((innerExpression h).map fun _ hx => InRegion.some hx) ?_).loose
  exact fun test => (hbody test).loose

theorem switchStatement : Situates K every true (switchStatement k) (InRegion K) := by
  refine place fun K s => next (word _) fun _ => (bind (condition h) fun value => ?_).loose
  refine (next (punctuator _) fun _ => ?_).loose
  refine bind (itemsUntil nofun (switchCase h)) fun cases => pure fun hcases hvalue hs => ?_
  refine .bind (.inOrder hcases) fun _ hcases => .bind hvalue fun _ hvalue => .ok (.node hs ?_)
  exact .one (.some hvalue) (.many hcases .nil)

/-! ## Statements -/

theorem expressionStatement : Situates K every true (expressionStatement k) (InRegion K) := by
  refine place fun K s => bind (expression h) fun e => next terminator.loose fun _ => ?_
  exact pure fun hx hs => .bind hx fun _ hn => .ok (.node hs (.one (.some hn) .nil))

theorem variableStatement : Situates K every true (do
    let declared ← Parser.declaredVariables k
    Parser.terminator
    return declared) (InRegion K) :=
  bind (declaredVariables h) fun _ => next terminator.loose fun _ => pure id

omit h in
/-- A terminator alone is read as a statement at its place. -/
theorem emptyStatement : Situates K true true (do
    Parser.terminator
    return (.ok (.mk s .emptyStatement) : Shaped Node)) fun x => K.StartsAt s → InRegion K x :=
  next terminator fun _ => pure fun hs => .ok (.node hs .nil)

theorem statement : Situates K true true (statement k) (InRegion K) := by
  refine place fun K s => look fun t => lookFurther fun u => ite (fun _ => ?_) fun _ => ?_
  · exact (functionDeclaration h false).mono fun _ hx _ => hx
  split
  · exact (classDeclaration h false).mono fun _ hx _ => hx
  · exact emptyStatement
  · exact (block h).mono fun _ hx _ => hx
  · exact (variableStatement h).mono fun _ hx _ => hx
  · exact (variableStatement h).mono fun _ hx _ => hx
  · exact (variableStatement h).mono fun _ hx _ => hx
  · exact (ifStatement h).mono fun _ hx _ => hx
  · exact (forStatement h).mono fun _ hx _ => hx
  · exact (whileStatement h).mono fun _ hx _ => hx
  · exact (doStatement h).mono fun _ hx _ => hx
  · exact (returnStatement h).mono fun _ hx _ => hx
  · exact (throwStatement h).mono fun _ hx _ => hx
  · exact (wordStatement _ rfl).mono fun _ hx _ => hx
  · exact (wordStatement _ rfl).mono fun _ hx _ => hx
  · exact (tryStatement h).mono fun _ hx _ => hx
  · exact (switchStatement h).mono fun _ hx _ => hx
  · exact (expressionStatement h).mono fun _ hx _ => hx

/-! ## Names across modules -/

omit h

theorem exportName : Situates K every true exportName (InRegion K) := by
  refine place fun K s => look fun t => ?_
  split
  · exact stringLiteral.mono fun _ hx _ => hx
  · exact next (word _) fun _ => pure fun hs => .ok (.node hs .nil)
  · exact bind identifier fun _ => pure fun hn _ => .ok hn

/-! ## Imports -/

theorem inRegion_localNameOf {n : Node} (hn : InRegion K n) : InRegion K (localNameOf s n) := by
  unfold localNameOf
  split
  · exact .ite (fun _ => .error) fun _ => .ok hn
  · exact .error

theorem importSpecifier : Situates K every true importSpecifier (InRegion K) := by
  refine place fun K s => bind exportName fun imported => mark nofun fun _ => ?_
  dsimp only
  refine perhaps identifier fun renamed => pure fun hrenamed himported hs => ?_
  refine .bind himported fun imported himported => ?_
  have hname (name : Node) (hname : InRegion K name) :
      InRegion K (Node.mk s (.importSpecifier (some name) (some imported))) :=
    .node hs (.one (.some hname) (.one (.some himported) .nil))
  cases renamed with
  | none => exact .bind (inRegion_localNameOf himported) fun _ h => .ok (hname _ h)
  | some name => exact .ok (hname name (hrenamed name rfl))

theorem namespaceImport : Situates K every true namespaceImport (InRegion K) := by
  refine place fun K s => next (punctuator _) fun _ => (next (word _) fun _ => ?_).loose
  exact (bind identifier fun _ => pure fun hn hs => .node hs (.one (.some hn) .nil)).loose

theorem importedNames : Situates K every true importedNames (InRegion K) := by
  refine look fun t => ite (fun _ => ?_) fun _ => ?_
  · exact bind namespaceImport fun _ => pure fun hn => .ok (.cons hn .nil)
  · exact next (take nofun) fun _ => bind (items importSpecifier) fun _ => pure fun hxs => .inOrder hxs

theorem importClause : Situates K every true importClause (InRegion K) := by
  refine place fun K s => look fun t => ite (fun _ => ?_) fun _ => importedNames.mono fun _ hx _ => hx
  refine bind identifier fun name => ?_
  have hdefault (hname : InRegion K name) (hs : K.StartsAt s) :
      InRegion K (Node.mk s (.importDefaultSpecifier (some name))) :=
    .node hs (.one (.some hname) .nil)
  dsimp only
  refine ifTaken nofun (bind importedNames.loose fun _ => ?_) ?_
  · exact pure fun hx hname hs => .map hx fun _ hns => .cons (hdefault hname hs) hns
  · exact pure fun hname hs => .ok (.cons (hdefault hname hs) .nil)

theorem importDeclaration : Situates K every true importDeclaration (InRegion K) := by
  refine place fun K s => next (word _) fun _ => look fun t => ite (fun _ => ?_) fun _ => ?_
  · refine (bind stringLiteral fun source => next terminator.loose fun _ => ?_).loose
    refine pure fun hx hs => .bind hx fun _ hsource => .ok (.node hs ?_)
    exact .many .nil (.one (.some hsource) .nil)
  · refine (bind importClause fun clause => (next (word _) fun _ => ?_).loose).loose
    refine (bind stringLiteral fun source => next terminator.loose fun _ => ?_).loose
    refine pure fun hx hclause hs => .bind hclause fun _ hclause => .bind hx fun _ hsource => ?_
    exact .ok (.node hs (.many hclause (.one (.some hsource) .nil)))

/-! ## Exports -/

theorem exportSpecifier : Situates K every true exportSpecifier (InRegion K) := by
  refine place fun K s => bind exportName fun name => mark nofun fun _ => ?_
  dsimp only
  refine perhaps exportName fun renamed => pure fun hrenamed hname hs => ?_
  refine .bind hname fun name hname => ?_
  have hspecifier (exported : Node) (hexported : InRegion K exported) :
      InRegion K (Node.mk s (.exportSpecifier (some name) (some exported))) :=
    .node hs (.one (.some hname) (.one (.some hexported) .nil))
  cases renamed with
  | none => exact .ok (hspecifier name hname)
  | some exported => exact .bind (hrenamed exported rfl) fun _ h => .ok (hspecifier _ h)

theorem namedExports : Situates K every true (namedExports s)
    fun x => K.StartsAt s → InRegion K x := by
  refine next (take nofun) fun _ => bind (items exportSpecifier) fun specifiers => ?_
  refine mark nofun fun _ => ?_
  dsimp only
  refine perhaps stringLiteral fun source => next terminator.loose fun _ => ?_
  refine pure fun hsource hspecifiers hs => .bind (.inOrder hspecifiers) fun _ hspecifiers => ?_
  refine .bind (.part hsource) fun _ hsource => .ok (.node hs ?_)
  exact .one .none (.many hspecifiers (.one hsource .nil))

theorem wholeExport : Situates K every true (wholeExport s)
    fun x => K.StartsAt s → InRegion K x := by
  refine next (punctuator _) fun _ => mark nofun fun _ => ?_
  dsimp only
  refine perhaps exportName fun exported => (next (word _) fun _ => ?_).loose
  refine (bind stringLiteral fun source => next terminator.loose fun _ => ?_).loose
  refine pure fun hsource hexported hs => .bind hsource fun _ hsource => ?_
  refine .bind (.part hexported) fun _ hexported => .ok (.node hs ?_)
  exact .one (.some hsource) (.one hexported .nil)

section

variable (h : k.Situates)
include h

theorem defaultExport : Situates K every true (defaultExport k s)
    fun x => K.StartsAt s → InRegion K x := by
  refine next (word _) fun _ => look fun t => lookFurther fun u => ?_
  dsimp only
  have hexport (x : Shaped Node) (hx : InRegion K x) (hs : K.StartsAt s) :
      InRegion (α := Shaped Node) K do
        return .mk s (.exportDefaultDeclaration (some (← x))) :=
    .bind hx fun _ hn => .ok (.node hs (.one (.some hn) .nil))
  refine ite (fun _ => ?_) fun _ => ite (fun _ => ?_) fun _ => ?_
  · exact (bind (functionDeclaration h true) fun _ => pure fun hx hs => hexport _ hx hs).loose
  · exact (bind (classDeclaration h true) fun _ => pure fun hx hs => hexport _ hx hs).loose
  · refine (bind (assignment h) fun value => next terminator.loose fun _ => pureBind ?_).loose
    exact pure fun hx hs => hexport _ hx hs

theorem exportedDeclaration : Situates K every true (exportedDeclaration k s)
    fun x => K.StartsAt s → InRegion K x := by
  refine look fun t => look fun u => ?_
  dsimp only
  have hexport (x : Shaped Node) (hx : InRegion K x) (hs : K.StartsAt s) :
      InRegion (α := Shaped Node) K do
        return .mk s (.exportNamedDeclaration (some (← x)) [] none) :=
    .bind hx fun _ hn => .ok (.node hs (.one (.some hn) (.many .nil (.one .none .nil))))
  refine ite (fun _ => ?_) fun _ => ite (fun _ => ?_) fun _ => ?_
  · refine bind (declaredVariables h) fun declared => next terminator.loose fun _ => pureBind ?_
    exact pure fun hx hs => hexport _ hx hs
  · exact bind (classDeclaration h false) fun _ => pure fun hx hs => hexport _ hx hs
  · exact bind (functionDeclaration h false) fun _ => pure fun hx hs => hexport _ hx hs

theorem exportDeclaration : Situates K every true (exportDeclaration k) (InRegion K) := by
  refine place fun K s => next (word _) fun _ => look fun t => ?_
  split
  · exact (defaultExport h).loose
  · exact namedExports.loose
  · exact wholeExport.loose
  · exact (exportedDeclaration h).loose

end

end Parser.Situates

open Parser.Situates in
/-- The parsers for what lies deeper build in the region where their tokens are. -/
theorem Deeper.situates_within (n : Nat) : (Deeper.within n).Situates := by
  induction n with
  | zero =>
    exact
      { assignment := fail
        exponent := fail
        unary := fail
        leftHandSide := fail
        construction := fail
        binding := fail
        statement := fail }
  | succ n ih =>
    exact
      { assignment := Parser.Situates.assignment ih
        exponent := bind (Parser.Situates.exponent ih) fun _ => pure fun ho => ho.1
        unary := bind (Parser.Situates.unary ih) fun _ => pure fun ho => ho.1
        leftHandSide := bind (Parser.Situates.leftHandSide ih) fun _ => pure fun ho => ho.1
        construction := Parser.Situates.construction ih
        binding := Parser.Situates.binding ih
        statement := Parser.Situates.statement ih }

end ModuleLowering
