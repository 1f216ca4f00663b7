import ModuleLowering.Proofs.Collecting

/-!
# Forms that are rejected

Not every form of import and export can be lowered. Which of them cannot is said here of a statement
alone. Collecting a module goes through its statements and stops at the first one that has such a
form, and otherwise it succeeds: what was collected before, and the names that were allocated, do
not matter.
-/

set_option autoImplicit false

namespace ModuleLowering

open Collecting (namePart? importedPart? exportedPart? idPart?)

namespace Node

/-! ## What is there to be read -/

/-- A specifier of an import: the parts that name something are there, and the name in this module
is an identifier. -/
def IsImportSpecifier (n : Node) : Prop :=
  match n.form with
  | .importDefaultSpecifier name | .importNamespaceSpecifier name => (partName? name).isSome
  | .importSpecifier name imported => (partName? name).isSome ∧ imported.isSome
  | _ => False

/-- A specifier of an export: both names are there. -/
def IsExportSpecifier (n : Node) : Prop :=
  match n.form with
  | .exportSpecifier name exported => name.isSome ∧ exported.isSome
  | _ => False

/-- A declaration: variables are declared by declarators, and the name of a function or class is an
identifier if it has one. -/
def IsDeclaration (n : Node) : Prop :=
  match n.form with
  | .variableDeclaration _ declarations =>
    ∀ d ∈ declarations, ∃ id init, d.form = .variableDeclarator id init
  | .functionDeclaration id .. | .classDeclaration id .. => ∀ name ∈ id, name.name?.isSome
  | _ => True

/-- The parts of an import or export are of the kinds that its form asks for. -/
def HasParts (s : Node) : Prop :=
  match s.form with
  | .importDeclaration specifiers source =>
    (literalValue? source).isSome ∧ ∀ n ∈ specifiers, n.IsImportSpecifier
  | .exportDefaultDeclaration declaration => ∀ d ∈ declaration, d.IsDeclaration
  | .exportNamedDeclaration (some declaration) _ _ => declaration.IsDeclaration
  | .exportNamedDeclaration none specifiers source =>
    (∀ n ∈ source, (literalValue? (some n)).isSome) ∧ ∀ n ∈ specifiers, n.IsExportSpecifier
  | .exportAllDeclaration source _ => (literalValue? source).isSome
  | _ => True

/-! ## What is not supported -/

/-- A name is given that is no identifier. -/
def NotIdentifier (role : NameRole) (part : Option Node) (f : UnsupportedForm)
    (place : Option Position) : Prop :=
  ∃ n ∈ part, n.name? = none ∧ f = .nameNotIdentifier role ∧ place = n.loc

/-- A declaration that cannot be exported: a variable takes a value apart, or no name is declared
at all. -/
def NotExportable (s declaration : Node) (f : UnsupportedForm) (place : Option Position) : Prop :=
  match declaration.form with
  | .variableDeclaration _ declarations =>
    ∃ d ∈ declarations, (idPart? d).bind partName? = none ∧ f = .destructuredVariable ∧
      place = d.loc.orElse fun _ => s.loc
  | .functionDeclaration (some _) .. | .classDeclaration (some _) .. => False
  | _ => f = .notExportable declaration.typeName ∧ place = s.loc

/-- A statement has a form that cannot be lowered, and the place that is told of it. -/
def Unsupported (runtimeModule : Bool) (s : Node) (f : UnsupportedForm)
    (place : Option Position) : Prop :=
  match s.form with
  | .importDeclaration specifiers _ =>
    runtimeModule = true ∧ ∃ n ∈ specifiers, NotIdentifier .imported (importedPart? n) f place
  | .exportNamedDeclaration (some declaration) _ _ => s.NotExportable declaration f place
  | .exportNamedDeclaration none specifiers (some _) =>
    ∃ n ∈ specifiers, NotIdentifier .reexported (namePart? n) f place ∨
      NotIdentifier .reexported (exportedPart? n) f place
  | .exportNamedDeclaration none specifiers none =>
    ∃ n ∈ specifiers, NotIdentifier .exported (namePart? n) f place ∨
      NotIdentifier .exported (exportedPart? n) f place ∨
        (partName? (namePart? n) = some "default" ∧ f = .defaultWithoutSource ∧ place = n.loc)
  | .exportAllDeclaration _ exported => NotIdentifier .reexportedWhole exported f place
  | _ => False

/-- None of the statements before this one has a form that cannot be lowered, and it has one. -/
structure FirstUnsupported (runtimeModule : Bool) (before : List Node) (s : Node)
    (f : UnsupportedForm) (place : Option Position) : Prop where
  earlier : ∀ r ∈ before, ∀ f p, ¬r.Unsupported runtimeModule f p
  unsupported : s.Unsupported runtimeModule f place

end Node

open Node

/-! ## Work that stops -/

section

variable {ε σ α β : Type}

/-- From the state `s`, work fails with the error `e`. -/
def Stops (m : ExceptT ε (StateM σ) α) (s : σ) (e : ε) : Prop :=
  ((ExceptT.run m).run s).1 = .error e

namespace Stops

variable {m : ExceptT ε (StateM σ) α} {f : α → ExceptT ε (StateM σ) β} {s s' : σ} {e : ε} {a : α}

theorem throw : Stops (throw e : ExceptT ε (StateM σ) α) s e := rfl

/-- Work in a row stops where its first part does. -/
theorem bind (h : Stops m s e) : Stops (m >>= f) s e := by
  unfold Stops at h ⊢
  rw [Yields.run_bind]
  rcases hm : (ExceptT.run m).run s with ⟨r, s'⟩
  rw [hm] at h
  subst h
  rfl

/-- Work in a row stops where its second part does. -/
theorem of_yields (h : Yields m s a s') (hf : Stops (f a) s' e) : Stops (m >>= f) s e := by
  unfold Stops at hf ⊢
  rw [Yields.run_bind, h]
  exact hf

end Stops

end

namespace Collecting

/-- Whatever has been collected, work succeeds if nothing is unsupported, and stops at something
that is otherwise. -/
def Rejects {α : Type} (m : Collecting α) (P : UnsupportedForm → Option Position → Prop) : Prop :=
  ∀ c, (∃ a c', Yields m c a c' ∧ ∀ f p, ¬P f p) ∨ ∃ f p, Stops m c (.unsupported f p) ∧ P f p

/-- Nothing is unsupported. -/
abbrev Nothing : UnsupportedForm → Option Position → Prop := fun _ _ => False

namespace Rejects

variable {α β : Type} {m : Collecting α} {g : α → Collecting β}
  {P Q : UnsupportedForm → Option Position → Prop}

theorem of_yields (h : ∀ c, ∃ a c', Yields m c a c') : Rejects m Nothing := by
  intro c
  obtain ⟨a, c', hm⟩ := h c
  exact .inl ⟨a, c', hm, fun _ _ => id⟩

theorem pure (a : α) : Rejects (Pure.pure a) Nothing := of_yields fun c => ⟨a, c, rfl⟩

theorem unsupported (f : UnsupportedForm) (p : Option Position) :
    Rejects (throw (.unsupported f p) : Collecting α) fun f' p' => f' = f ∧ p' = p := by
  intro c
  exact .inr ⟨f, p, Stops.throw, rfl, rfl⟩

theorem congr (h : Rejects m P) (hPQ : ∀ f p, P f p ↔ Q f p) : Rejects m Q := by
  intro c
  rcases h c with ⟨a, c', hm, hnone⟩ | ⟨f, p, hm, hP⟩
  · exact .inl ⟨a, c', hm, fun f p hQ => hnone f p ((hPQ f p).2 hQ)⟩
  · exact .inr ⟨f, p, hm, (hPQ f p).1 hP⟩

/-- Two pieces of work in a row, the second one with what the first one answers. -/
theorem bind (h : Rejects m P) (hg : ∀ c a c', Yields m c a c' → Rejects (g a) Q) :
    Rejects (m >>= g) fun f p => P f p ∨ Q f p := by
  intro c
  rcases h c with ⟨a, c', hm, hnone⟩ | ⟨f, p, hm, hP⟩
  · rcases hg c a c' hm c' with ⟨b, c'', hb, hnone'⟩ | ⟨f, p, hstop, hQ⟩
    · refine .inl ⟨b, c'', Yields.bind_iff.2 ⟨a, c', hm, hb⟩, ?_⟩
      rintro f p (hP | hQ)
      · exact hnone f p hP
      · exact hnone' f p hQ
    · exact .inr ⟨f, p, .of_yields hm hstop, .inr hQ⟩
  · exact .inr ⟨f, p, hm.bind, .inl hP⟩

/-- Work behind some that cannot be rejected. -/
theorem andThen (h : Rejects m Nothing) (hg : ∀ a, Rejects (g a) P) : Rejects (m >>= g) P :=
  (h.bind fun _ a _ _ => hg a).congr fun f p => by simp

/-- Work before some that cannot be rejected. -/
theorem before (h : Rejects m P) (hg : ∀ a, Rejects (g a) Nothing) : Rejects (m >>= g) P :=
  (h.bind fun _ a _ _ => hg a).congr fun f p => by simp

/-- Going through a list stops at an element that is rejected. -/
theorem forM {step : Node → Collecting Unit} {P : Node → UnsupportedForm → Option Position → Prop}
    {ns : List Node} (h : ∀ n ∈ ns, Rejects (step n) (P n)) :
    Rejects (ns.forM step) fun f p => ∃ n ∈ ns, P n f p := by
  induction ns with
  | nil => exact (pure ()).congr fun f p => by simp
  | cons n ns ih =>
    obtain ⟨hn, hns⟩ := List.forall_mem_cons.1 h
    have hboth : Rejects (step n >>= fun _ => ns.forM step) _ := hn.bind fun _ _ _ _ => ih hns
    exact hboth.congr fun f p => by simp

/-! ### Parts of forms -/

theorem add (f : Finding) : Rejects (Collecting.add f) Nothing := of_yields fun _ => ⟨_, _, rfl⟩

theorem freshName (base : Text) : Rejects (Collecting.freshName base) Nothing :=
  of_yields fun _ => ⟨_, _, rfl⟩

theorem identifierName {part : Option Node} (h : (partName? part).isSome) :
    Rejects (Collecting.identifierName part) Nothing := by
  obtain ⟨x, hx⟩ := Option.isSome_iff_exists.1 h
  unfold partName? at hx
  unfold Collecting.identifierName
  rw [hx]
  exact pure x

theorem sourceValue {source : Option Node} (h : (literalValue? source).isSome) :
    Rejects (Collecting.sourceValue source) Nothing := by
  unfold literalValue? at h
  unfold Collecting.sourceValue
  generalize source.map form = part at h ⊢
  split at h
  case h_1 value raw => exact pure value
  case h_2 => cases h

theorem formName (role : NameRole) {part : Option Node} (h : part.isSome) :
    Rejects (Collecting.formName role part) (NotIdentifier role part) := by
  obtain ⟨n, rfl⟩ := Option.isSome_iff_exists.1 h
  cases hname : n.name? with
  | some x =>
    have hpure : Collecting.formName role (some n) = Pure.pure x := by
      simp only [Collecting.formName, hname]
    rw [hpure]
    exact (pure x).congr fun f p => by simp [NotIdentifier, hname]
  | none =>
    have hthrow : Collecting.formName role (some n) =
        throw (.unsupported (.nameNotIdentifier role) n.loc) := by
      simp only [Collecting.formName, hname]
    rw [hthrow]
    exact (unsupported _ _).congr fun f p => by simp [NotIdentifier, hname]

/-! ### Specifiers -/

theorem importSpecifier (source : Value) {n : Node} (h : n.IsImportSpecifier) :
    Rejects (Collecting.importSpecifier source n)
      (NotIdentifier .imported (importedPart? n)) := by
  unfold IsImportSpecifier at h
  unfold Collecting.importSpecifier
  split at h
  case h_1 name hform | h_2 name hform =>
    have himported : importedPart? n = none := by simp only [importedPart?, hform]
    rw [hform, himported]
    refine ((identifierName h).andThen fun x => add _).congr fun f p => ?_
    simp [NotIdentifier]
  case h_3 name imported hform =>
    obtain ⟨hname, himported⟩ := h
    have hparts : importedPart? n = imported ∧ namePart? n = name := by
      simp only [importedPart?, namePart?, hform, and_self]
    rw [hform, hparts.1, hparts.2]
    refine (formName .imported himported).before fun x => ?_
    exact (identifierName hname).andThen fun y => add _
  case h_4 => cases h

/-- The two names of a specifier of an export. -/
theorem exists_parts {n : Node} (h : n.IsExportSpecifier) :
    (namePart? n).isSome ∧ (exportedPart? n).isSome := by
  unfold IsExportSpecifier at h
  split at h
  case h_1 name exported hform => simpa only [namePart?, exportedPart?, hform] using h
  case h_2 => cases h

theorem exportSpecifier {n : Node} (h : n.IsExportSpecifier) :
    Rejects (Collecting.exportSpecifier n) fun f p =>
      NotIdentifier .exported (namePart? n) f p ∨ NotIdentifier .exported (exportedPart? n) f p ∨
        (partName? (namePart? n) = some "default" ∧ f = .defaultWithoutSource ∧ p = n.loc) := by
  obtain ⟨hname, hexported⟩ := exists_parts h
  refine (formName .exported hname).bind fun c x c' hx => ?_
  refine (formName .exported hexported).bind fun d y d' hy => ?_
  rw [(yields_formName hx).1]
  by_cases hdefault : x = "default"
  · rw [if_pos hdefault]
    refine ((unsupported _ _).before fun _ => add _).congr fun f p => ?_
    simp [hdefault]
  · rw [if_neg hdefault]
    refine ((pure _).andThen fun _ => add _).congr fun f p => ?_
    simp [hdefault]

theorem reexportSpecifier (source : Value) {n : Node} (h : n.IsExportSpecifier) :
    Rejects (Collecting.reexportSpecifier source n) fun f p =>
      NotIdentifier .reexported (namePart? n) f p ∨
        NotIdentifier .reexported (exportedPart? n) f p := by
  obtain ⟨hname, hexported⟩ := exists_parts h
  refine (formName .reexported hname).bind fun c x c' hx => ?_
  refine (formName .reexported hexported).before fun y => ?_
  exact (freshName _).andThen fun z => add _

/-! ### Statements -/

theorem exportedVariable (s : Node) (kind : Text) {d : Node}
    (h : ∃ id init, d.form = .variableDeclarator id init) :
    Rejects (Collecting.exportedVariable s kind d) fun f p =>
      (idPart? d).bind partName? = none ∧ f = .destructuredVariable ∧
        p = d.loc.orElse fun _ => s.loc := by
  obtain ⟨id, init, hform⟩ := h
  have hid : idPart? d = some id := by simp only [idPart?, hform]
  unfold Collecting.exportedVariable
  simp only [hid, Option.bind_some]
  cases hname : id.bind name? with
  | some x =>
    refine (add _).congr fun f p => ?_
    simp [partName?, hname]
  | none =>
    refine (unsupported _ _).congr fun f p => ?_
    simp [partName?, hname]

/-- A function or class that has a name can be exported. -/
theorem exportedName (d : Node) {name : Node} (h : (partName? (some name)).isSome) :
    Rejects (do Collecting.add (.exportedDeclaration d.typeName
      (← Collecting.identifierName (some name)))) Nothing :=
  (identifierName h).andThen fun _ => add _

theorem exportedDeclaration (s : Node) {d : Node} (h : d.IsDeclaration) :
    Rejects (Collecting.exportedDeclaration s d) (s.NotExportable d) := by
  obtain ⟨loc, form⟩ := d
  cases form
  case variableDeclaration kind declarations =>
    exact forM fun n hn => exportedVariable s kind (h n hn)
  case functionDeclaration id params body isAsync generator =>
    cases id with
    | some name => exact exportedName _ (h name rfl)
    | none => exact unsupported _ _
  case classDeclaration id superclass body =>
    cases id with
    | some name => exact exportedName _ (h name rfl)
    | none => exact unsupported _ _
  all_goals exact unsupported _ _

theorem defaultDeclaration (d : Node) {id : Option Node} (base : Text)
    (h : ∀ name ∈ id, name.name?.isSome) :
    Rejects (Collecting.defaultDeclaration d id base) Nothing := by
  unfold Collecting.defaultDeclaration
  cases id with
  | none => exact (freshName base).andThen fun x => (add _).andThen fun _ => pure _
  | some id =>
    have hname : (partName? (some id)).isSome := h id rfl
    exact (identifierName hname).andThen fun x => (add _).andThen fun _ => pure _

theorem defaultForm (runtimeModule : Bool) (s : Node) {declaration : Option Node}
    (h : ∀ d ∈ declaration, d.IsDeclaration) :
    Rejects (Collecting.defaultForm runtimeModule s declaration) Nothing := by
  unfold Collecting.defaultForm
  dsimp only
  split
  case h_1 d id params body isAsync generator hform =>
    have hd := h d rfl
    rw [IsDeclaration, Option.some.inj hform] at hd
    exact (defaultDeclaration d _ hd).andThen fun _ => pure _
  case h_2 d id superclass body hform =>
    have hd := h d rfl
    rw [IsDeclaration, Option.some.inj hform] at hd
    exact (defaultDeclaration d _ hd).andThen fun _ => pure _
  case h_3 =>
    refine (freshName _).andThen fun x => (add _).andThen fun _ => ?_
    split
    · exact pure _
    · exact pure _

section

variable {loc : Option Position} {specifiers : List Node} {source : Option Node}

theorem importForm (runtimeModule : Bool) {s : Node}
    (hs : s = .mk loc (.importDeclaration specifiers source)) (h : s.HasParts) :
    Rejects (Collecting.importForm runtimeModule s specifiers source)
      (s.Unsupported runtimeModule) := by
  subst hs
  obtain ⟨hsource, hspecifiers⟩ := h
  cases runtimeModule with
  | false => exact (pure _).congr fun f p => by simp [Unsupported, form]
  | true =>
    have hall : ∀ v, Rejects (specifiers.forM (Collecting.importSpecifier v)) _ := fun v =>
      forM fun n hn => importSpecifier v (hspecifiers n hn)
    refine ((sourceValue hsource).andThen fun v => (hall v).before fun _ => pure _).congr ?_
    intro f p
    simp [Unsupported, form]

theorem namedForm (runtimeModule : Bool) {s : Node} {declaration : Option Node}
    (hs : s = .mk loc (.exportNamedDeclaration declaration specifiers source)) (h : s.HasParts) :
    Rejects (Collecting.namedForm runtimeModule s declaration specifiers source)
      (s.Unsupported runtimeModule) := by
  subst hs
  match declaration, source with
  | some d, _ => exact (exportedDeclaration _ h).before fun _ => pure _
  | none, some source =>
    obtain ⟨hsource, hspecifiers⟩ := h
    have hall : ∀ v, Rejects (specifiers.forM (Collecting.reexportSpecifier v)) _ := fun v =>
      forM fun n hn => reexportSpecifier v (hspecifiers n hn)
    exact (sourceValue (hsource source rfl)).andThen fun v => (hall v).before fun _ => pure _
  | none, none =>
    obtain ⟨-, hspecifiers⟩ := h
    have hall : Rejects (specifiers.forM Collecting.exportSpecifier) _ :=
      forM fun n hn => exportSpecifier (hspecifiers n hn)
    exact hall.before fun _ => pure _

theorem wholeForm (runtimeModule : Bool) {s : Node} {exported : Option Node}
    (hs : s = .mk loc (.exportAllDeclaration source exported)) (h : s.HasParts) :
    Rejects (Collecting.wholeForm runtimeModule s source exported)
      (s.Unsupported runtimeModule) := by
  subst hs
  refine (sourceValue h).andThen fun v => ?_
  cases exported with
  | none =>
    refine ((freshName _).andThen fun x => (add _).andThen fun _ => pure _).congr fun f p => ?_
    simp [Unsupported, form, NotIdentifier]
  | some exported =>
    have hname : Rejects (Collecting.formName .reexportedWhole (some exported)) _ := formName _ rfl
    refine hname.before fun x => ?_
    exact (freshName _).andThen fun y => (add _).andThen fun _ => pure _

end

theorem remains (runtimeModule : Bool) {s : Node} (h : s.HasParts) :
    Rejects (Collecting.remains runtimeModule s) (s.Unsupported runtimeModule) := by
  obtain ⟨loc, form⟩ := s
  cases form
  case importDeclaration => exact importForm runtimeModule rfl h
  case exportDefaultDeclaration => exact defaultForm runtimeModule _ h
  case exportNamedDeclaration => exact namedForm runtimeModule rfl h
  case exportAllDeclaration => exact wholeForm runtimeModule rfl h
  all_goals exact pure _

variable {s : Node}

/-- A statement that says nothing has no form that cannot be lowered. -/
theorem not_unsupported_of_isIdle {runtimeModule : Bool} (h : isIdle s = true)
    (f : UnsupportedForm) (p : Option Position) : ¬s.Unsupported runtimeModule f p := by
  unfold isIdle at h
  split at h
  case h_1 hform => simp [Unsupported, hform]
  case h_2 hform => simp [Unsupported, hform]
  case h_3 => cases h

theorem statement (runtimeModule : Bool) (h : s.HasParts) :
    Rejects (Collecting.statement runtimeModule s) (s.Unsupported runtimeModule) := by
  unfold Collecting.statement
  split
  case isTrue hidle =>
    refine (pure _).congr fun f p => ?_
    simp [not_unsupported_of_isIdle hidle]
  case isFalse => exact (remains runtimeModule h).before fun kept => of_yields fun _ => ⟨_, _, rfl⟩

/-- Statements are collected in order, up to the first one that cannot be lowered. -/
theorem statements (runtimeModule : Bool) {body : List Node} (h : ∀ s ∈ body, s.HasParts)
    (c : Collection) :
    (∃ c', Yields (body.forM (Collecting.statement runtimeModule)) c () c' ∧
      ∀ s ∈ body, ∀ f p, ¬s.Unsupported runtimeModule f p) ∨
    ∃ before s after f p, body = before ++ s :: after ∧
      FirstUnsupported runtimeModule before s f p ∧
      Stops (body.forM (Collecting.statement runtimeModule)) c (.unsupported f p) := by
  induction body generalizing c with
  | nil => exact .inl ⟨c, rfl, List.forall_mem_nil _⟩
  | cons s body ih =>
    obtain ⟨hs, hbody⟩ := List.forall_mem_cons.1 h
    rcases statement runtimeModule hs c with ⟨_, c', hyields, hnone⟩ | ⟨f, p, hstops, hunsupported⟩
    · rcases ih hbody c' with ⟨c'', hall, hnone'⟩ | ⟨before, r, after, f, p, rfl, hfirst, hstops⟩
      · exact .inl ⟨c'', Yields.bind_iff.2 ⟨_, c', hyields, hall⟩,
          List.forall_mem_cons.2 ⟨hnone, hnone'⟩⟩
      · exact .inr ⟨s :: before, r, after, f, p, rfl,
          ⟨List.forall_mem_cons.2 ⟨hnone, hfirst.earlier⟩, hfirst.unsupported⟩,
          .of_yields hyields hstops⟩
    · exact .inr ⟨[], s, body, f, p, rfl, ⟨List.forall_mem_nil _, hunsupported⟩, hstops.bind⟩

end Rejects

end Collecting

/-- A module is collected, or the first of its statements that cannot be lowered is told of. -/
theorem Collection.ofProgram_cases (runtimeModule : Bool) (names : Names) {program : Node}
    {body : List Node} (hform : program.form = .program body) (h : ∀ s ∈ body, s.HasParts) :
    ((ofProgram runtimeModule names program).1 = .ok () ∧
      ∀ s ∈ body, ∀ f p, ¬s.Unsupported runtimeModule f p) ∨
    ∃ before s after f p, body = before ++ s :: after ∧
      FirstUnsupported runtimeModule before s f p ∧
      (ofProgram runtimeModule names program).1 = .error (.unsupported f p) := by
  unfold ofProgram
  rw [hform]
  rcases Collecting.Rejects.statements runtimeModule h { names } with
    ⟨c, hyields, hnone⟩ | ⟨before, s, after, f, p, hbody, hfirst, hstops⟩
  · exact .inl ⟨congrArg Prod.fst hyields, hnone⟩
  · exact .inr ⟨before, s, after, f, p, hbody, hfirst, hstops⟩

end ModuleLowering
