import ModuleLowering.Proofs.Folds
import ModuleLowering.Proofs.Rewriting

/-!
# What rewriting makes of a module

The module that rewriting a CommonJS module gives, said of each node on its own and without a state:
an assignment to an export slot goes by way of the same slot of another object, on the registry a
required module comes from there, and everything else stays. None of the tests that decide about
this tells a changed node from the node that it was, so what a walk finds in the changed module
follows from what a walk finds in the module.
-/

set_option autoImplicit false

namespace ModuleLowering

open Node

/-- How a module is changed: in which mode, by which paths, and which object it publishes by. -/
structure Redirection where
  onRegistry : Bool
  resolution : Resolution
  boundary : Text

namespace Redirection

/-- The slot of the object for a name. -/
def slot (d : Redirection) (name : Text) : Node :=
  (identifier d.boundary).memberPath ["exports", name]

/-- The assignment that publishes a value. -/
def mirror (d : Redirection) (name : Text) (value : Option Node) : Node :=
  made (.assignmentExpression "=" (some (d.slot name)) value)

/-- What is to be changed at a node: an assignment to an export slot, and on the registry a call
that requires a module by a literal. -/
def redirect? (d : Redirection) (n : Node) : Option Redirect :=
  match n.assignedSlot? with
  | some name => some (.published name)
  | none =>
    (if d.onRegistry then n.requiredLiteral? else none).map fun specifier =>
      .required specifier (d.resolution.actualPath specifier)

/-- A node with the changed parts that `form` holds. -/
def node (d : Redirection) (n : Node) (form : Form Node) : Node :=
  match d.redirect? n with
  | none => n.withForm form
  | some (.required _ path) => .mk n.loc (Registry.require path).form
  | some (.published name) =>
    match form with
    | .assignmentExpression operator left right =>
      n.withForm (.assignmentExpression operator left (some (d.mirror name right)))
    | form => n.withForm form

end Redirection

namespace Node

/-- A tree with everything changed that is to be. -/
def redirected (d : Redirection) (n : Node) : Node := n.fold d.node

/-- A node with its parts changed. -/
def partsRedirected (d : Redirection) (n : Node) : Node := n.withForm (foldForm d.node n.form)

/-- The changes in a tree, those in the parts of a node before that at the node. -/
def redirects (d : Redirection) (n : Node) : List Redirect :=
  n.fold fun n form => form.parts.flatten ++ (d.redirect? n).toList

/-- The text that a node is a literal of. -/
def text? (n : Node) : Option Text :=
  match n.form with
  | .literal (.text t) _ => some t
  | _ => none

/-- The name that a node reads from the member `member` of the object named `object`. -/
def readFrom? (object member : Text) (n : Node) : Option Text :=
  match n.staticMember? with
  | none => none
  | some (outer, name) =>
    match outer.staticMember? with
    | none => none
    | some (inner, m) => if inner.isNamed object && m = member then some name else none

/-- The path of a module that a call requires from the registry. -/
def registryPath? (n : Node) : Option Text :=
  match n.form with
  | .callExpression (some callee) [argument] false =>
    if callee.readFrom? "global" "__modules" = some "require" then argument.text? else none
  | _ => none

variable {d : Redirection} {n : Node}

theorem redirects_eq (n : Node) :
    n.redirects d = n.children.flatMap (redirects d) ++ (d.redirect? n).toList := by
  unfold redirects
  rw [fold_eq, parts_foldForm]
  rfl

/-! ## What is changed at a node -/

theorem assignedSlot?_of_published {name : Text} (h : d.redirect? n = some (.published name)) :
    n.assignedSlot? = some name := by
  unfold Redirection.redirect? at h
  split at h
  case h_1 x hslot => simp_all
  case h_2 => simp at h

theorem requiredLiteral?_of_required {specifier path : Text}
    (h : d.redirect? n = some (.required specifier path)) :
    d.onRegistry = true ∧ n.requiredLiteral? = some specifier ∧
      path = d.resolution.actualPath specifier := by
  unfold Redirection.redirect? at h
  split at h
  case h_1 x hslot => simp at h
  case h_2 =>
    cases hmode : d.onRegistry with
    | false => simp [hmode] at h
    | true =>
      rw [hmode] at h
      obtain ⟨s, hs, hpath⟩ := Option.map_eq_some_iff.1 h
      cases hpath
      exact ⟨rfl, hs, rfl⟩

/-- Where nothing is to be changed, no slot is assigned and on the registry nothing required. -/
theorem tests_of_redirect?_eq_none (h : d.redirect? n = none) :
    n.assignedSlot? = none ∧ (d.onRegistry = true → n.requiredLiteral? = none) := by
  unfold Redirection.redirect? at h
  split at h
  case h_1 => simp at h
  case h_2 hslot =>
    refine ⟨hslot, ?_⟩
    intro hmode
    rw [hmode] at h
    exact Option.map_eq_none_iff.1 h

theorem form_of_assignedSlot? {name : Text} (h : n.assignedSlot? = some name) :
    ∃ left right, n.form = .assignmentExpression "=" (some left) right ∧
      left.exportSlot? = some name := by
  unfold assignedSlot? at h
  split at h
  case h_1 operator left right hform =>
    split at h
    case isTrue heq =>
      subst heq
      exact ⟨left, right, hform, h⟩
    case isFalse => cases h
  case h_2 => cases h

/-- A call of one part with one argument, as far as both are tested. -/
theorem requiredLiteral?_eq {callee argument : Node}
    (h : n.form = .callExpression (some callee) [argument] false) :
    n.requiredLiteral? = if callee.isNamed "require" then argument.text? else none := by
  unfold requiredLiteral? text?
  rw [h]
  dsimp only
  split <;> simp_all

theorem form_of_requiredLiteral? {specifier : Text} (h : n.requiredLiteral? = some specifier) :
    ∃ callee argument, n.form = .callExpression (some callee) [argument] false ∧
      callee.name? = some "require" ∧ argument.text? = some specifier := by
  have hcall : ∃ callee argument, n.form = .callExpression (some callee) [argument] false := by
    unfold requiredLiteral? at h
    split at h
    case h_1 callee argument hform => exact ⟨callee, argument, hform⟩
    case h_2 => cases h
  obtain ⟨callee, argument, hform⟩ := hcall
  rw [requiredLiteral?_eq hform] at h
  split at h
  case isTrue hname => exact ⟨callee, argument, hform, of_decide_eq_true hname, h⟩
  case isFalse => cases h

theorem redirect?_eq_none (hslot : n.assignedSlot? = none)
    (hrequired : n.requiredLiteral? = none) : d.redirect? n = none := by
  unfold Redirection.redirect?
  rw [hslot, hrequired, ite_self]
  rfl

theorem redirected_of_none (h : d.redirect? n = none) :
    n.redirected d = n.partsRedirected d := by
  rw [redirected, fold_eq, Redirection.node, h]
  rfl

theorem redirected_of_required {specifier path : Text}
    (h : d.redirect? n = some (.required specifier path)) :
    n.redirected d = .mk n.loc (Registry.require path).form := by
  rw [redirected, fold_eq, Redirection.node, h]

theorem redirected_of_published {operator name : Text} {left right : Option Node}
    (h : d.redirect? n = some (.published name))
    (hform : n.form = .assignmentExpression operator left right) :
    n.redirected d = n.withForm (.assignmentExpression operator (left.map (redirected d))
      (some (d.mirror name (right.map (redirected d))))) := by
  rw [redirected, fold_eq, Redirection.node, h, hform]
  simp only [foldForm, foldPart_eq_map]
  rfl

/-! ## Tests of changed nodes -/

/-- A changed node is of the same kind as before. -/
theorem form_redirected (d : Redirection) (n : Node) :
    (n.redirected d).form = foldForm d.node n.form ∨
      (∃ operator left right operator' left' right',
        n.form = .assignmentExpression operator left right ∧
        (n.redirected d).form = .assignmentExpression operator' left' right') ∨
      (∃ callee arguments callee' arguments', n.form = .callExpression callee arguments false ∧
        (n.redirected d).form = .callExpression callee' arguments' false) := by
  cases h : d.redirect? n with
  | none =>
    left
    rw [redirected_of_none h]
    rfl
  | some r =>
    right
    cases r with
    | published name =>
      left
      obtain ⟨left, right, hform, -⟩ := form_of_assignedSlot? (assignedSlot?_of_published h)
      rw [redirected_of_published h hform]
      exact ⟨_, _, _, _, _, _, hform, rfl⟩
    | required specifier path =>
      right
      obtain ⟨-, hrequired, -⟩ := requiredLiteral?_of_required h
      obtain ⟨callee, argument, hform, -⟩ := form_of_requiredLiteral? hrequired
      rw [redirected_of_required h]
      exact ⟨_, _, _, _, hform, rfl⟩

/-- A test finds the same in a changed node as before if it tells neither changed parts nor one
assignment or call from another. -/
theorem test_redirected {α : Type} (test : Form Node → α)
    (hparts : ∀ form, test (foldForm d.node form) = test form)
    (hassignment : ∀ operator left right operator' left' right',
      test (.assignmentExpression operator left right) =
        test (.assignmentExpression operator' left' right'))
    (hcall : ∀ callee arguments callee' arguments', test (.callExpression callee arguments false) =
      test (.callExpression callee' arguments' false)) (n : Node) :
    test (n.redirected d).form = test n.form := by
  rcases form_redirected d n with h | ⟨_, _, _, _, _, _, hn, h⟩ | ⟨_, _, _, _, hn, h⟩
  · rw [h, hparts]
  · rw [hn, h, hassignment]
  · rw [hn, h, hcall]

@[simp] theorem name?_redirected (d : Redirection) (n : Node) :
    (n.redirected d).name? = n.name? :=
  test_redirected (fun form => (made form).name?) (fun form => by cases form <;> rfl)
    (fun _ _ _ _ _ _ => rfl) (fun _ _ _ _ => rfl) n

@[simp] theorem isNamed_redirected (d : Redirection) (n : Node) (x : Text) :
    (n.redirected d).isNamed x = n.isNamed x := by
  rw [isNamed, isNamed, name?_redirected]

@[simp] theorem isInvalid_redirected (d : Redirection) (n : Node) :
    (n.redirected d).isInvalid = n.isInvalid :=
  test_redirected (fun form => (made form).isInvalid) (fun form => by cases form <;> rfl)
    (fun _ _ _ _ _ _ => rfl) (fun _ _ _ _ => rfl) n

@[simp] theorem text?_redirected (d : Redirection) (n : Node) :
    (n.redirected d).text? = n.text? :=
  test_redirected (fun form => (made form).text?) (fun form => by cases form <;> rfl)
    (fun _ _ _ _ _ _ => rfl) (fun _ _ _ _ => rfl) n

theorem staticMember?_partsRedirected (d : Redirection) (n : Node) :
    (n.partsRedirected d).staticMember? =
      n.staticMember?.map fun p => (p.1.redirected d, p.2) := by
  obtain ⟨loc, form⟩ := n
  cases form <;> try rfl
  case memberExpression object member computed optional =>
    cases object <;> cases member <;> cases computed <;> cases optional <;> try rfl
    case some.some.false.false object member =>
      show ((member.redirected d).name?.map fun x => (object.redirected d, x)) =
        (member.name?.map fun x => (object, x)).map _
      rw [name?_redirected]
      cases member.name? <;> rfl

@[simp] theorem staticMember?_redirected (d : Redirection) (n : Node) :
    (n.redirected d).staticMember? = n.staticMember?.map fun p => (p.1.redirected d, p.2) := by
  rcases form_redirected d n with h | ⟨_, _, _, _, _, _, hn, h⟩ | ⟨_, _, _, _, hn, h⟩
  · rw [← staticMember?_partsRedirected]
    unfold staticMember?
    rw [h]
    rfl
  · unfold staticMember?
    rw [hn, h]
    rfl
  · unfold staticMember?
    rw [hn, h]
    rfl

@[simp] theorem exportSlot?_redirected (d : Redirection) (n : Node) :
    (n.redirected d).exportSlot? = n.exportSlot? := by
  unfold exportSlot?
  rw [staticMember?_redirected]
  cases n.staticMember? with
  | none => rfl
  | some p =>
    simp only [Option.map_some, isNamed_redirected, staticMember?_redirected]
    cases p.1.staticMember? with
    | none => rfl
    | some q => simp only [Option.map_some, isNamed_redirected]

@[simp] theorem readFrom?_redirected (d : Redirection) (object member : Text) (n : Node) :
    (n.redirected d).readFrom? object member = n.readFrom? object member := by
  unfold readFrom?
  rw [staticMember?_redirected]
  cases n.staticMember? with
  | none => rfl
  | some p =>
    simp only [Option.map_some, staticMember?_redirected]
    cases p.1.staticMember? with
    | none => rfl
    | some q => simp only [Option.map_some, isNamed_redirected]

/-! ## Tests of nodes with changed parts -/

@[simp] theorem assignedSlot?_partsRedirected (d : Redirection) (n : Node) :
    (n.partsRedirected d).assignedSlot? = n.assignedSlot? := by
  obtain ⟨loc, form⟩ := n
  cases form <;> try rfl
  case assignmentExpression operator left right =>
    cases left with
    | none => rfl
    | some left =>
      have hleft := exportSlot?_redirected d left
      show (if operator = "=" then _ else none) = if operator = "=" then left.exportSlot? else none
      rw [← hleft]
      rfl

@[simp] theorem requiredLiteral?_partsRedirected (d : Redirection) (n : Node) :
    (n.partsRedirected d).requiredLiteral? = n.requiredLiteral? := by
  obtain ⟨loc, form⟩ := n
  cases form <;> try rfl
  case callExpression callee arguments optional =>
    rcases callee with _ | callee
    · rfl
    rcases arguments with _ | ⟨argument, _ | ⟨second, rest⟩⟩
    · rfl
    · cases optional
      · have hcallee := isNamed_redirected d callee "require"
        have hargument := text?_redirected d argument
        rw [requiredLiteral?_eq rfl, requiredLiteral?_eq rfl, ← hcallee, ← hargument]
        rfl
      · rfl
    · rfl

@[simp] theorem registryPath?_partsRedirected (d : Redirection) (n : Node) :
    (n.partsRedirected d).registryPath? = n.registryPath? := by
  obtain ⟨loc, form⟩ := n
  cases form <;> try rfl
  case callExpression callee arguments optional =>
    rcases callee with _ | callee
    · rfl
    rcases arguments with _ | ⟨argument, _ | ⟨second, rest⟩⟩
    · rfl
    · cases optional
      · have hcallee := readFrom?_redirected d "global" "__modules" callee
        have hargument := text?_redirected d argument
        show (if _ then _ else _) = if _ then _ else _
        rw [← hcallee, ← hargument]
        rfl
      · rfl
    · rfl

/-! ## What comes of a whole tree -/

theorem redirected_eq_self (h : n.redirects d = []) :
    n.redirected d = n := by
  induction n using induction_children with
  | step n ih =>
    rw [redirects_eq] at h
    obtain ⟨hparts, hn⟩ := List.append_eq_nil_iff.1 h
    have hsame : ∀ c ∈ n.children, c.redirected d = c := by
      intro c hc
      exact ih c hc (List.flatMap_eq_nil_iff.1 hparts c hc)
    rw [redirected_of_none (Option.toList_eq_nil_iff.1 hn), partsRedirected,
      foldForm_eq_self hsame, withForm_self]

/-- The statements of a module are changed one by one. -/
theorem redirected_program {body : List Node} (h : n.form = .program body) :
    n.redirected d = n.withForm (.program (body.map (redirected d))) := by
  have hslot : n.assignedSlot? = none := by
    unfold assignedSlot?
    rw [h]
  have hrequired : n.requiredLiteral? = none := by
    unfold requiredLiteral?
    rw [h]
  rw [redirected_of_none (redirect?_eq_none hslot hrequired), partsRedirected, h, foldForm,
    foldList_eq_map]
  rfl

/-- An assignment to an export slot is one to the same slot when it is changed, with the assignment
that publishes as its value. -/
theorem form_of_published {name : Text} (h : d.redirect? n = some (.published name)) :
    ∃ left value, (n.redirected d).form =
        .assignmentExpression "=" (some left) (some (d.mirror name value)) ∧
      n.assignedSlot? = some name ∧ (n.redirected d).assignedSlot? = some name := by
  have hslot := assignedSlot?_of_published h
  obtain ⟨left, right, hform, hleft⟩ := form_of_assignedSlot? hslot
  rw [redirected_of_published h hform]
  refine ⟨_, _, rfl, hslot, ?_⟩
  show (left.redirected d).exportSlot? = some name
  rw [exportSlot?_redirected, hleft]

end Node

end ModuleLowering
