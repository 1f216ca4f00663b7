import ModuleLowering.Proofs.Items
import ModuleLowering.Proofs.Printing
import ModuleLowering.Proofs.Redirecting
import ModuleLowering.Proofs.Resolving

/-!
# What lowering makes of well-formed trees

The statements that a lowered module is given are well formed, so is what is left of its own
statements, and so is everything in which assignments to export slots and required modules have been
changed.
-/

set_option autoImplicit false

namespace ModuleLowering

namespace Node

variable {n c : Node} {r : Role}

/-! ## Kinds of nodes -/

/-- A well-formed tree has no placeholder at its top. -/
theorem Fits.isInvalid_eq_false (h : n.Fits r) : n.isInvalid = false := by
  induction h <;> first | rfl | assumption

/-- Whatever is found in a well-formed tree is well formed. -/
theorem Fits.exists_of_mem_walk {m : Node} (h : n.Fits r) (hm : m ∈ n.walk) :
    ∃ r', m.Fits r' := by
  induction n using induction_children generalizing r with
  | step n ih =>
    rw [walk_eq_cons] at hm
    rcases List.mem_cons.1 hm with rfl | hm
    · exact ⟨r, h⟩
    · obtain ⟨c, hc, hmc⟩ := List.mem_flatMap.1 hm
      obtain ⟨r', hc'⟩ := h.exists_of_mem_children hc
      exact ih c hc hc' hmc

/-- A well-formed tree has no placeholders. -/
theorem Fits.walk_isInvalid (h : n.Fits r) : ∀ m ∈ n.walk, m.isInvalid = false := by
  intro m hm
  obtain ⟨r', hm'⟩ := h.exists_of_mem_walk hm
  exact hm'.isInvalid_eq_false

/-- Import and export forms stand at the top of a module only. -/
theorem Fits.isModuleForm_eq_false (h : n.Fits r) (hr : r ≠ .item) : n.isModuleForm = false := by
  induction h <;> first | rfl | exact absurd rfl hr | rename_i ih; exact ih nofun

/-! ## Statements that are given -/

section

variable {loc : Option Position}

theorem fits_name (x : Text) : (identifier x).Fits .expression := .nameExpression (.name .named)

theorem fits_memberNamed (h : n.Fits .expression) (name : Text) :
    (n.memberNamed name).Fits .expression :=
  .member h (.name .named)

theorem fits_memberPath (h : n.Fits .expression) (names : List Text) :
    (n.memberPath names).Fits .expression := by
  induction names generalizing n with
  | nil => exact h
  | cons name names ih => exact ih (fits_memberNamed h name)

theorem fits_callOf {arguments : List Node} (hcallee : c.Fits .expression)
    (harguments : ∀ a ∈ arguments, a.Fits .expression) : (c.callOf arguments).Fits .expression :=
  .callExpression hcallee fun a ha => .expressionArgument (harguments a ha)

/-- A constant that is bound where something else stood. -/
theorem fits_constant (name : Text) (h : n.Fits .expression) :
    (mk loc (constant name (some n)).form).Fits .item := by
  refine .statementItem (.declaredStatement (.declaredVariables (.variableDeclaration ?_)))
  refine List.forall_mem_singleton.2 (.variableDeclarator (.target (fits_name name) rfl) ?_)
  rintro e ⟨⟩
  exact h

theorem fits_asStatement (h : n.Fits .expression) : n.asStatement.Fits .item :=
  .statementItem (.expressionStatement h)

theorem fits_importOf (h : n.Fits .importSpecifier) (source : Value) :
    (importOf n source).Fits .item :=
  .importDeclaration (List.forall_mem_singleton.2 h) .literal

end

end Node

open Node

namespace Registry

theorem fits_call (entry : Text) {arguments : List Node}
    (h : ∀ a ∈ arguments, a.Fits .expression) : (call entry arguments).Fits .expression :=
  fits_callOf (fits_memberPath (fits_name _) _) h

theorem fits_textLiteral (t : Text) : (textLiteral t).Fits .expression :=
  .literalExpression .literal

/-- What requires a module from the registry where something else stood. -/
theorem fits_require (loc : Option Position) (path : Text) :
    (Node.mk loc (require path).form).Fits .expression := by
  refine .callExpression (fits_memberPath (fits_name _) _) ?_
  exact List.forall_mem_singleton.2 (.expressionArgument (fits_textLiteral path))

theorem fits_boundary (name moduleId : Text) : (boundary name moduleId).Fits .item :=
  fits_constant name (fits_call _ (List.forall_mem_singleton.2 (fits_textLiteral moduleId)))

theorem fits_publishedProperty (key name : Text) : (publishedProperty key name).Fits .property := by
  unfold publishedProperty
  by_cases h : key = name
  · subst h
    rw [decide_eq_true rfl]
    exact .shorthandProperty .named (.shorthandName .named)
  · rw [decide_eq_false h]
    exact .property (.nameKey (.name .named)) (fits_name name)

/-- What tells the registry what a module publishes. -/
theorem fits_publication (moduleId : Text) {properties : List Node} (wildcards : List Text)
    (h : ∀ p ∈ properties, p.Fits .property) :
    (publication moduleId properties wildcards).Fits .item := by
  refine fits_asStatement (fits_call _ ?_)
  refine List.forall_mem_cons.2 ⟨fits_textLiteral moduleId, ?_⟩
  refine List.forall_mem_cons.2 ⟨.objectExpression h, ?_⟩
  exact List.forall_mem_map.2 fun name _ => fits_name name

end Registry

/-- What makes a module available. -/
theorem ModuleKey.fits_registration (key : ModuleKey) (ident : Text) :
    ∀ s ∈ key.registration ident, s.Fits .item := by
  unfold registration
  split
  · refine List.forall_mem_cons.2 ⟨fits_importOf (.importNamespaceSpecifier (.name .named)) _, ?_⟩
    refine List.forall_mem_singleton.2 (fits_asStatement (Registry.fits_call _ ?_))
    refine List.forall_mem_cons.2 ⟨Registry.fits_textLiteral key.path, ?_⟩
    exact List.forall_mem_singleton.2 (fits_name ident)
  · refine List.forall_mem_singleton.2 (fits_constant ident (Registry.fits_call _ ?_))
    exact List.forall_mem_singleton.2 (Registry.fits_textLiteral key.path)

namespace ImportRecord

theorem fits_importForm (record : ImportRecord) : record.importForm.Fits .item := by
  unfold importForm
  split
  case h_3 =>
    exact fits_importOf (.importSpecifier (.name .named) (.nameOfModule (.name .named))) _
  case h_4 => exact fits_importOf (.importNamespaceSpecifier (.name .named)) _
  all_goals exact fits_importOf (.importDefaultSpecifier (.name .named)) _

theorem fits_value (record : ImportRecord) (ident : Text) :
    (record.value ident).Fits .expression := by
  unfold value
  split
  case h_4 =>
    exact fits_callOf (fits_memberPath (fits_name _) _)
      (List.forall_mem_singleton.2 (fits_name ident))
  all_goals exact fits_memberNamed (fits_name ident) _

end ImportRecord

/-- What binds something taken from another module. -/
theorem Bound.fits {runtimeModule : Bool} {r : Resolver} {record : ImportRecord} {s : Node}
    (h : Bound runtimeModule r record s) : s.Fits .item := by
  cases h with
  | read specifier m hsource hm hkey hs =>
    rw [hs]
    exact fits_constant record.name (record.fits_value m.ident)
  | imported hmode hhost hs =>
    rw [hs]
    exact record.fits_importForm

/-- What tells the registry what is published. -/
theorem ExportRecord.fits_publication (moduleId : Text) (exports : List ExportRecord) :
    (publication moduleId exports).Fits .item := by
  refine Registry.fits_publication moduleId _ fun p hp => ?_
  obtain ⟨record, -, hproperty⟩ := List.mem_filterMap.1 hp
  unfold property? at hproperty
  split at hproperty
  case h_1 => cases hproperty
  case h_2 =>
    cases hproperty
    exact Registry.fits_publishedProperty _ _

namespace Node

variable {n : Node} {r : Role}

/-! ## What is left of a statement -/

section

variable {loc : Option Position} {id : Option Node} {runtimeModule : Bool}

theorem isSome_of_partName? (h : (partName? id).isSome = true) : id.isSome = true := by
  cases id with
  | none => cases h
  | some x => rfl

/-- A function or class declaration has a name once it has been given one. -/
theorem Fits.withName (h : n.Fits (.definition true)) (nameless : Bool) (name : Text) :
    (n.withName (defaultId? (some n)) name).Fits (.definition nameless) := by
  unfold Node.withName
  cases h with
  | functionDefinition _ hname hparams hbody =>
    split
    case isTrue hnamed =>
      exact .functionDefinition (fun _ => isSome_of_partName? hnamed) hname hparams hbody
    case isFalse =>
      refine .functionDefinition (fun _ => rfl) ?_ hparams hbody
      rintro x ⟨⟩
      exact .name .named
  | classDefinition _ hname hsuperclass hbody =>
    split
    case isTrue hnamed =>
      exact .classDefinition (fun _ => isSome_of_partName? hnamed) hname hsuperclass hbody
    case isFalse =>
      refine .classDefinition (fun _ => rfl) ?_ hsuperclass hbody
      rintro x ⟨⟩
      exact .name .named

theorem fits_defaultRemainder (h : n.Fits .defaultExport) (name : Text) :
    ∀ t ∈ defaultRemainder runtimeModule (.mk loc (.exportDefaultDeclaration (some n))) (some n)
      name, t.Fits .item := by
  let published (m : Node) : Node := .mk loc (.exportDefaultDeclaration (some m))
  cases h with
  | defaultDefinition h =>
    let declaration := n.withName (defaultId? (some n)) name
    have hrest : defaultRemainder runtimeModule (published n) (some n) name =
        if runtimeModule then [declaration] else [published declaration] := by
      cases h <;> rfl
    rw [hrest]
    split
    · refine List.forall_mem_singleton.2 (.statementItem (.declaredStatement ?_))
      exact .declaredDefinition (h.withName false name)
    · exact List.forall_mem_singleton.2 (.exportDefault (.defaultDefinition (h.withName true name)))
  | defaultExpression h =>
    let binding : Node := .mk loc (constant name (some n)).form
    have hrest : defaultRemainder runtimeModule (published n) (some n) name =
        if runtimeModule then [binding] else [binding, published (identifier name)] := by
      have hstatement := h.printsAs.isStatement_eq_false
      obtain ⟨_, form⟩ := n
      cases form <;> first | rfl | cases hstatement
    have hbinding : binding.Fits .item := fits_constant name h
    rw [hrest]
    split
    · exact List.forall_mem_singleton.2 hbinding
    · refine List.forall_mem_cons.2 ⟨hbinding, List.forall_mem_singleton.2 ?_⟩
      exact .exportDefault (.defaultExpression (fits_name name))

/-- What is left of a statement is well formed. -/
theorem Fits.remainder (h : n.Fits .item) (runtimeModule : Bool) (names : List Text) :
    ∀ t ∈ n.remainder runtimeModule names, t.Fits .item := by
  have hgone : ∀ t ∈ (if runtimeModule then [] else [n]), t.Fits .item := by
    split
    · exact fun t ht => absurd ht List.not_mem_nil
    · exact List.forall_mem_singleton.2 h
  cases hidle : Collecting.isIdle n with
  | true =>
    rw [Node.remainder, hidle, if_pos rfl]
    exact fun t ht => absurd ht List.not_mem_nil
  | false =>
    cases h with
    | exportDefault h =>
      rw [Node.remainder, hidle]
      exact fits_defaultRemainder h _
    | @exportDeclared _ declaration hdeclaration =>
      rw [Node.remainder, hidle]
      show ∀ t ∈ (if runtimeModule then [declaration] else [_]), t.Fits .item
      split
      · exact List.forall_mem_singleton.2 (.statementItem (.declaredStatement hdeclaration))
      · exact List.forall_mem_singleton.2 (.exportDeclared hdeclaration)
    | statementItem hstatement =>
      rw [remainder_of_not_moduleForm (hstatement.isModuleForm_eq_false (by simp)) hidle]
      exact List.forall_mem_singleton.2 (.statementItem hstatement)
    | importDeclaration | exportNames | exportAll =>
      rw [Node.remainder, hidle]
      exact hgone

end

/-! ## What is changed throughout -/

section

variable {d : Redirection} {loc : Option Position} {form : Form Node} {p : Option Node}
  {ns : List Node} {ps : List (Option Node)}

theorem isTarget_redirected (d : Redirection) (n : Node) :
    (n.redirected d).isTarget = n.isTarget :=
  test_redirected (fun form => (made form).isTarget) (fun form => by cases form <;> rfl)
    (fun _ _ _ _ _ _ => rfl) (fun _ _ _ _ => rfl) n

theorem isAssignable_redirected (d : Redirection) (operator : Text) (n : Node) :
    (n.redirected d).isAssignable operator = n.isAssignable operator :=
  test_redirected (fun form => (made form).isAssignable operator)
    (fun form => by cases form <;> rfl) (fun _ _ _ _ _ _ => rfl) (fun _ _ _ _ => rfl) n

/-- The assignment that publishes a value. -/
theorem fits_mirror (d : Redirection) (name : Text) (h : n.Fits .expression) :
    (d.mirror name (some n)).Fits .expression :=
  .assignmentExpression (.target (fits_memberPath (fits_name d.boundary) _) rfl) rfl h

/-- Where nothing is to be changed, it is enough that the changed parts fit. -/
theorem Fits.rebuilt (h : (mk loc (foldForm d.node form)).Fits r)
    (hslot : (mk loc form).assignedSlot? = none := by rfl)
    (hrequired : (mk loc form).requiredLiteral? = none := by rfl) :
    ((mk loc form).redirected d).Fits r := by
  rw [redirected_of_none (redirect?_eq_none hslot hrequired)]
  exact h

theorem forall_foldPart (h : ∀ m ∈ p, (m.redirected d).Fits r) :
    ∀ m ∈ foldPart d.node p, m.Fits r := by
  cases p with
  | none => nofun
  | some m =>
    rintro _ ⟨⟩
    exact h m rfl

theorem forall_foldList (h : ∀ m ∈ ns, (m.redirected d).Fits r) :
    ∀ m ∈ foldList d.node ns, m.Fits r := by
  rw [foldList_eq_map]
  exact List.forall_mem_map.2 h

theorem forall_foldSparse (h : ∀ p ∈ ps, ∀ m ∈ p, (m.redirected d).Fits r) :
    ∀ p ∈ foldSparse d.node ps, ∀ m ∈ p, m.Fits r := by
  rw [foldSparse_eq_map]
  refine List.forall_mem_map.2 fun p hp => ?_
  rw [← foldPart_eq_map]
  exact forall_foldPart (h p hp)

/-- A tree in which everything has been changed that is to be fits where it did. -/
theorem Fits.redirected (h : n.Fits r) (d : Redirection) : (n.redirected d).Fits r := by
  induction h
  -- What is changed
  case callExpression loc callee arguments optional _ _ ihcallee iharguments =>
    cases h : d.redirect? (mk loc (.callExpression (some callee) arguments optional)) with
    | none =>
      rw [redirected_of_none h]
      exact .callExpression ihcallee (forall_foldList iharguments)
    | some redirect =>
      cases redirect with
      | published name => cases assignedSlot?_of_published h
      | required specifier path =>
        rw [redirected_of_required h]
        exact Registry.fits_require loc path
  case assignmentExpression loc operator left right _ hassignable _ ihleft ihright =>
    rw [← isAssignable_redirected d] at hassignable
    cases h : d.redirect? (mk loc (.assignmentExpression operator (some left) (some right))) with
    | none =>
      rw [redirected_of_none h]
      exact .assignmentExpression ihleft hassignable ihright
    | some redirect =>
      cases redirect with
      | published name =>
        rw [redirected_of_published h rfl]
        exact .assignmentExpression ihleft hassignable (fits_mirror d name ihright)
      | required specifier path => cases (requiredLiteral?_of_required h).2.1
  -- What stands for what it holds
  case name ih => exact .name ih
  case nameKey ih => exact .nameKey ih
  case literalKey ih => exact .literalKey ih
  case computedKey ih => exact .computedKey ih
  case nameOfModule ih => exact .nameOfModule ih
  case literalOfModule ih => exact .literalOfModule ih
  case nameExpression ih => exact .nameExpression ih
  case literalExpression ih => exact .literalExpression ih
  case templateExpression ih => exact .templateExpression ih
  case blockBody ih => exact .blockBody ih
  case expressionBody ih => exact .expressionBody ih
  case expressionArgument ih => exact .expressionArgument ih
  case shorthandName ih => exact .shorthandName ih
  case target htarget ih => exact .target ih ((isTarget_redirected d _).trans htarget)
  case declaredDefinition ih => exact .declaredDefinition ih
  case declaredVariables ih => exact .declaredVariables ih
  case declaredStatement ih => exact .declaredStatement ih
  case blockStatement ih => exact .blockStatement ih
  case variablesInit ih => exact .variablesInit ih
  case expressionInit ih => exact .expressionInit ih
  case defaultDefinition ih => exact .defaultDefinition ih
  case defaultExpression ih => exact .defaultExpression ih
  case statementItem ih => exact .statementItem ih
  -- Names, literals and expressions
  case named => exact .rebuilt .named
  case literal => exact .rebuilt .literal
  case template => exact .rebuilt .template
  case regExpLiteral => exact .rebuilt .regExpLiteral
  case thisExpression => exact .rebuilt .thisExpression
  case superExpression => exact .rebuilt .superExpression
  case taggedTemplate ihtag ihquasi => exact .rebuilt (.taggedTemplate ihtag ihquasi)
  case arrayExpression ih => exact .rebuilt (.arrayExpression (forall_foldSparse ih))
  case objectExpression ih => exact .rebuilt (.objectExpression (forall_foldList ih))
  case functionExpression ihid ihparams ihbody =>
    exact .rebuilt
      (.functionExpression (forall_foldPart ihid) (forall_foldList ihparams) ihbody)
  case arrowFunction ihparams ihbody =>
    exact .rebuilt (.arrowFunction (forall_foldList ihparams) ihbody)
  case classExpression ihid ihsuperclass ihbody =>
    exact .rebuilt (.classExpression (forall_foldPart ihid) (forall_foldPart ihsuperclass)
      (forall_foldList ihbody))
  case unaryExpression ih => exact .rebuilt (.unaryExpression ih)
  case awaitExpression ih => exact .rebuilt (.awaitExpression ih)
  case updateExpression htarget ih =>
    exact .rebuilt (.updateExpression ih ((isTarget_redirected d _).trans htarget))
  case binaryExpression hoperator _ _ ihleft ihright =>
    exact .rebuilt (.binaryExpression hoperator ihleft ihright)
  case logicalExpression hoperator _ _ ihleft ihright =>
    exact .rebuilt (.logicalExpression hoperator ihleft ihright)
  case conditionalExpression ihtest ihconsequent ihalternate =>
    exact .rebuilt (.conditionalExpression ihtest ihconsequent ihalternate)
  case newExpression ihcallee iharguments =>
    exact .rebuilt (.newExpression ihcallee (forall_foldList iharguments))
  case member ihobject ihmember => exact .rebuilt (.member ihobject ihmember)
  case index ihobject ihmember => exact .rebuilt (.index ihobject ihmember)
  case importExpression ih => exact .rebuilt (.importExpression ih)
  case metaProperty ihobject ihmember => exact .rebuilt (.metaProperty ihobject ihmember)
  case sequenceExpression hlength _ ih =>
    refine .rebuilt (.sequenceExpression ?_ (forall_foldList ih))
    rw [foldList_eq_map, List.length_map]
    exact hlength
  case yieldExpression hdelegate ih =>
    refine .rebuilt (.yieldExpression (forall_foldPart ih) fun h => ?_)
    rw [foldPart_eq_map, Option.isSome_map]
    exact hdelegate h
  case spreadArgument ih => exact .rebuilt (.spreadArgument ih)
  -- Properties and patterns
  case property ihkey ihvalue => exact .rebuilt (.property ihkey ihvalue)
  case shorthandProperty ihkey ihvalue => exact .rebuilt (.shorthandProperty ihkey ihvalue)
  case methodProperty ihkey ihvalue => exact .rebuilt (.methodProperty ihkey ihvalue)
  case accessor hkind _ _ ihkey ihvalue => exact .rebuilt (.accessor hkind ihkey ihvalue)
  case spreadProperty ih => exact .rebuilt (.spreadProperty ih)
  case shorthandDefault ihkey ihvalue => exact .rebuilt (.shorthandDefault ihkey ihvalue)
  case arrayPattern ih => exact .rebuilt (.arrayPattern (forall_foldSparse ih))
  case objectPattern ih => exact .rebuilt (.objectPattern (forall_foldList ih))
  case assignmentPattern ihleft ihright => exact .rebuilt (.assignmentPattern ihleft ihright)
  case restElement ih => exact .rebuilt (.restElement ih)
  case patternProperty ihkey ihvalue => exact .rebuilt (.patternProperty ihkey ihvalue)
  case shorthandPattern ihkey ihvalue => exact .rebuilt (.shorthandPattern ihkey ihvalue)
  case restProperty ih => exact .rebuilt (.restProperty ih)
  -- Functions and classes
  case block ih => exact .rebuilt (.block (forall_foldList ih))
  case method ihparams ihbody => exact .rebuilt (.method (forall_foldList ihparams) ihbody)
  case methodDefinition ihkey ihvalue => exact .rebuilt (.methodDefinition ihkey ihvalue)
  case propertyDefinition ihkey ihvalue =>
    exact .rebuilt (.propertyDefinition ihkey (forall_foldPart ihvalue))
  case functionDefinition hnamed _ _ _ ihid ihparams ihbody =>
    refine .rebuilt (.functionDefinition (fun h => ?_) (forall_foldPart ihid)
      (forall_foldList ihparams) ihbody)
    rw [foldPart_eq_map, Option.isSome_map]
    exact hnamed h
  case classDefinition hnamed _ _ _ ihid ihsuperclass ihbody =>
    refine .rebuilt (.classDefinition (fun h => ?_) (forall_foldPart ihid)
      (forall_foldPart ihsuperclass) (forall_foldList ihbody))
    rw [foldPart_eq_map, Option.isSome_map]
    exact hnamed h
  -- Statements
  case variableDeclarator ihid ihinit =>
    exact .rebuilt (.variableDeclarator ihid (forall_foldPart ihinit))
  case variableDeclaration ih => exact .rebuilt (.variableDeclaration (forall_foldList ih))
  case expressionStatement ih => exact .rebuilt (.expressionStatement ih)
  case emptyStatement => exact .rebuilt .emptyStatement
  case returnStatement ih => exact .rebuilt (.returnStatement (forall_foldPart ih))
  case ifStatement ihtest ihconsequent ihalternate =>
    exact .rebuilt (.ifStatement ihtest ihconsequent (forall_foldPart ihalternate))
  case forStatement ihinit ihtest ihupdate ihbody =>
    exact .rebuilt (.forStatement (forall_foldPart ihinit) (forall_foldPart ihtest)
      (forall_foldPart ihupdate) ihbody)
  case forInStatement ihleft ihright ihbody =>
    exact .rebuilt (.forInStatement ihleft ihright ihbody)
  case forOfStatement ihleft ihright ihbody =>
    exact .rebuilt (.forOfStatement ihleft ihright ihbody)
  case whileStatement ihtest ihbody => exact .rebuilt (.whileStatement ihtest ihbody)
  case doWhileStatement ihbody ihtest => exact .rebuilt (.doWhileStatement ihbody ihtest)
  case throwStatement ih => exact .rebuilt (.throwStatement ih)
  case tryStatement hends ihblock ihhandler ihfinalizer =>
    refine .rebuilt (.tryStatement ihblock (forall_foldPart ihhandler)
      (forall_foldPart ihfinalizer) ?_)
    rw [foldPart_eq_map, foldPart_eq_map, Option.isSome_map, Option.isSome_map]
    exact hends
  case catchClause ihparam ihbody => exact .rebuilt (.catchClause (forall_foldPart ihparam) ihbody)
  case switchStatement ihdiscriminant ihcases =>
    exact .rebuilt (.switchStatement ihdiscriminant (forall_foldList ihcases))
  case switchCase ihtest ihconsequent =>
    exact .rebuilt (.switchCase (forall_foldPart ihtest) (forall_foldList ihconsequent))
  case breakStatement => exact .rebuilt .breakStatement
  case continueStatement => exact .rebuilt .continueStatement
  -- Imports, exports and the module
  case importSpecifier ihname ihimported => exact .rebuilt (.importSpecifier ihname ihimported)
  case importDefaultSpecifier ih => exact .rebuilt (.importDefaultSpecifier ih)
  case importNamespaceSpecifier ih => exact .rebuilt (.importNamespaceSpecifier ih)
  case importDeclaration ihspecifiers ihsource =>
    exact .rebuilt (.importDeclaration (forall_foldList ihspecifiers) ihsource)
  case exportSpecifier ihname ihexported => exact .rebuilt (.exportSpecifier ihname ihexported)
  case exportNames ihspecifiers ihsource =>
    exact .rebuilt (.exportNames (forall_foldList ihspecifiers) (forall_foldPart ihsource))
  case exportDeclared ih => exact .rebuilt (.exportDeclared ih)
  case exportDefault ih => exact .rebuilt (.exportDefault ih)
  case exportAll ihsource ihexported =>
    exact .rebuilt (.exportAll ihsource (forall_foldPart ihexported))
  case program ih => exact .rebuilt (.program (forall_foldList ih))

end

end Node

end ModuleLowering
