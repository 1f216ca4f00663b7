import ModuleLowering.Proofs.Outcomes
import ModuleLowering.Proofs.Publishing

/-!
# Placeholders are cut out

Rewriting a CommonJS module cuts placeholders out of it, whatever tree it is given. What it makes of
a tree does not depend on what it has seen before, so it can be said node by node: the parts of a
node are rewritten first, expressions joined by commas lose the placeholders among them, and a
statement of a placeholder goes. No such statement and no such expression is left, and nothing that
stands in a place for a single part goes missing.
-/

set_option autoImplicit false

namespace ModuleLowering

open Node

/-! ## Expressions joined by commas -/

namespace Node

/-- The expressions that are no placeholders. -/
def withoutInvalid (expressions : List Node) : List Node :=
  expressions.filter fun e => !e.isInvalid

/-- What is left of expressions joined by commas once there are no placeholders among them: all of
them, a placeholder, a single expression, or several that keep their order. -/
inductive PrunedTo (loc : Option Position) (expressions : List Node) : Node → Prop
  | all (h : withoutInvalid expressions = expressions) :
    PrunedTo loc expressions (mk loc (.sequenceExpression expressions))
  | none (h : withoutInvalid expressions = []) (hsome : expressions ≠ []) :
    PrunedTo loc expressions (mk loc .invalid)
  | single {e : Node} (h : withoutInvalid expressions = [e]) (hmore : expressions ≠ [e]) :
    PrunedTo loc expressions e
  | several (h : 2 ≤ (withoutInvalid expressions).length)
    (hmore : withoutInvalid expressions ≠ expressions) :
    PrunedTo loc expressions (mk loc (.sequenceExpression (withoutInvalid expressions)))

theorem prunedTo_prunedSequence {n : Node} {expressions : List Node}
    (hform : n.form = .sequenceExpression expressions) :
    ∃ after, (Rewriting.prunedSequence n expressions).item? n = some after ∧
      PrunedTo n.loc expressions after := by
  by_cases hall : withoutInvalid expressions = expressions
  · have hlength : (withoutInvalid expressions).length = expressions.length := by rw [hall]
    refine ⟨n, ?_, ?_⟩
    · unfold Rewriting.prunedSequence
      exact congrArg (Outcome.item? n) (if_pos hlength)
    · have hn : mk n.loc (.sequenceExpression expressions) = n := by rw [← hform]; exact withForm_self n
      conv => arg 3; rw [← hn]
      exact .all hall
  · have hlength : ¬ (withoutInvalid expressions).length = expressions.length := fun h =>
      hall (List.filter_sublist.eq_of_length h)
    have hfilter : (expressions.filter fun e => !e.isInvalid) = withoutInvalid expressions := rfl
    simp only [Rewriting.prunedSequence, hfilter, if_neg hlength]
    rcases hkept : withoutInvalid expressions with _ | ⟨e, _ | ⟨e', rest⟩⟩
    · exact ⟨_, rfl, .none hkept fun h => hall (hkept.trans h.symm)⟩
    · exact ⟨_, rfl, .single hkept fun h => hall (hkept.trans h.symm)⟩
    · refine ⟨_, rfl, ?_⟩
      rw [← hkept]
      exact .several (by rw [hkept]; exact Nat.le_add_left 2 _) hall

end Node

/-! ## What rewriting makes of a tree -/

namespace Redirection

/-- A state in which the object has its name. -/
def start (d : Redirection) : Rewriting := { names := ⟨[]⟩, boundary := some d.boundary }

/-- What rewriting makes of a tree. -/
def outcome (d : Redirection) (n : Node) : Outcome :=
  ((n.rewriteM (Rewriting.rule d.onRegistry d.resolution)).run d.start).1

/-- What rewriting makes of a node whose parts have been rewritten. -/
def outcomeAt (d : Redirection) (n : Node) : Outcome :=
  ((Rewriting.rewriteNode d.onRegistry d.resolution n).run d.start).1

/-- The object has its name, or will be given it. -/
def Finds (d : Redirection) (r : Rewriting) : Prop := (Rewriting.boundaryName.run r).1 = d.boundary

/-- What an action gives in every state in which the object is found by its name. -/
def giving (d : Redirection) : Giving (StateM Rewriting) := .within d.Finds

variable {d : Redirection}

theorem finds_start (d : Redirection) : d.Finds d.start := rfl

theorem gives_unique {α : Type} {x : StateM Rewriting α} {a : α} (h : d.giving.Gives x a) :
    a = (x.run d.start).1 :=
  (h d.start d.finds_start).1.symm

theorem gives_boundaryName (d : Redirection) : d.giving.Gives Rewriting.boundaryName d.boundary := by
  intro r hr
  refine ⟨hr, ?_⟩
  obtain ⟨names, boundary, redirects⟩ := r
  cases boundary with
  | none => exact hr
  | some x => exact hr

theorem gives_add (d : Redirection) (redirect : Redirect) :
    d.giving.Gives (Rewriting.add redirect) ⟨⟩ := by
  intro r hr
  refine ⟨rfl, ?_⟩
  obtain ⟨names, boundary, redirects⟩ := r
  cases boundary with
  | none => exact hr
  | some x => exact hr

theorem gives_rewriteNode (d : Redirection) (n : Node) :
    d.giving.Gives (Rewriting.rewriteNode d.onRegistry d.resolution n) (d.outcomeAt n) := by
  have hgives : ∃ o, d.giving.Gives (Rewriting.rewriteNode d.onRegistry d.resolution n) o := by
    unfold Rewriting.rewriteNode
    split
    case h_1 => exact ⟨_, d.giving.pure _⟩
    case h_2 => exact ⟨_, d.giving.pure _⟩
    case h_3 =>
      split
      case h_1 => exact ⟨_, d.giving.pure _⟩
      case h_2 =>
        exact ⟨_, d.giving.bind (d.gives_add _)
          (d.giving.bind d.gives_boundaryName (d.giving.pure _))⟩
    case h_4 =>
      split
      case h_1 => exact ⟨_, d.giving.pure _⟩
      case h_2 => exact ⟨_, d.giving.bind (d.gives_add _) (d.giving.pure _)⟩
    case h_5 => exact ⟨_, d.giving.pure _⟩
  obtain ⟨o, ho⟩ := hgives
  rwa [outcomeAt, ← gives_unique ho]

/-- A node is rewritten after its parts. -/
theorem gives_rule {n rebuilt : Node} {pass : StateM Rewriting Outcome} {o : Outcome}
    (h : d.giving.Gives pass o) (hrebuilt : o.item? n = some rebuilt) :
    d.giving.Gives (Rewriting.rule d.onRegistry d.resolution n pass)
      (if (d.outcomeAt rebuilt).isSame then o else d.outcomeAt rebuilt) := by
  refine d.giving.bind h ?_
  rw [hrebuilt]
  refine d.giving.bind (d.gives_rewriteNode rebuilt) ?_
  cases d.outcomeAt rebuilt with
  | same => exact d.giving.pure _
  | replaced n' => exact d.giving.pure _
  | removed => exact d.giving.pure _

/-- Rewriting a tree gives the same in every state. -/
theorem gives_rewriteM (d : Redirection) (n : Node) :
    d.giving.Gives (n.rewriteM (Rewriting.rule d.onRegistry d.resolution)) (d.outcome n) := by
  have hgives : ∃ o, d.giving.Gives (n.rewriteM (Rewriting.rule d.onRegistry d.resolution)) o := by
    induction n using induction_children with
    | step n ih =>
      rw [rewriteM_eq_rule]
      have hparts : ∀ c ∈ n.children,
          d.giving.Gives (c.rewriteM (Rewriting.rule d.onRegistry d.resolution)) (d.outcome c) := by
        intro c hc
        obtain ⟨o, ho⟩ := ih c hc
        rwa [outcome, ← gives_unique ho]
      exact ⟨_, gives_rule (gives_descend d.giving hparts) (item?_descended d.outcome n)⟩
  obtain ⟨o, ho⟩ := hgives
  rwa [outcome, ← gives_unique ho]

/-- What rewriting makes of a node, by what it makes of the parts. -/
theorem outcome_eq (d : Redirection) (n : Node) :
    let rebuilt := n.editParts (fun c => (d.outcome c).part? c) fun c => (d.outcome c).item? c
    d.outcome n =
      if (d.outcomeAt rebuilt).isSame then n.descended d.outcome else d.outcomeAt rebuilt := by
  have hrule := gives_rule (gives_descend d.giving (n := n) fun c _ => d.gives_rewriteM c)
    (item?_descended d.outcome n)
  have houtcome := gives_unique hrule
  rw [← rewriteM_eq_rule (Rewriting.rule d.onRegistry d.resolution) n] at houtcome
  exact houtcome.symm

/-- What rewriting makes of a node whose parts have been rewritten, by the form of the node. -/
inductive At (d : Redirection) (n : Node) : Outcome → Prop
  | statement {e : Node} (hform : n.form = .expressionStatement (some e)) :
    At d n (if e.isInvalid then .removed else .same)
  | sequence {es : List Node} (hform : n.form = .sequenceExpression es) :
    At d n (Rewriting.prunedSequence n es)
  | assignment {operator name : Text} {left right : Option Node}
    (hform : n.form = .assignmentExpression operator left right)
    (hslot : n.assignedSlot? = some name) :
    At d n (.replaced (Rewriting.mirrored n d.boundary name left right))
  | call {specifier : Text} (hmode : d.onRegistry = true)
    (hrequired : n.requiredLiteral? = some specifier) :
    At d n (.replaced (.mk n.loc (Registry.require (d.resolution.actualPath specifier)).form))
  | other (hstatement : ∀ e, n.form ≠ .expressionStatement (some e))
    (hsequence : ∀ es, n.form ≠ .sequenceExpression es) (hnone : d.redirect? n = none) : At d n .same

theorem at_outcomeAt (d : Redirection) (n : Node) : d.At n (d.outcomeAt n) := by
  have hgives : ∃ o, d.giving.Gives (Rewriting.rewriteNode d.onRegistry d.resolution n) o ∧
      d.At n o := by
    unfold Rewriting.rewriteNode
    split
    case h_1 e hform => exact ⟨_, d.giving.pure _, .statement hform⟩
    case h_2 es hform => exact ⟨_, d.giving.pure _, .sequence hform⟩
    case h_3 operator left right hform =>
      split
      case h_1 hslot =>
        refine ⟨_, d.giving.pure _, .other ?_ ?_ (redirect?_eq_none hslot ?_)⟩
        · rw [hform]; nofun
        · rw [hform]; nofun
        · rw [requiredLiteral?, hform]
      case h_2 name hslot =>
        exact ⟨_, d.giving.bind (d.gives_add _)
          (d.giving.bind d.gives_boundaryName (d.giving.pure _)), .assignment hform hslot⟩
    case h_4 hform =>
      split
      case h_1 hrequired =>
        refine ⟨_, d.giving.pure _, .other ?_ ?_ ?_⟩
        · rw [hform]; nofun
        · rw [hform]; nofun
        · rw [redirect?, assignedSlot?, hform, hrequired]
          rfl
      case h_2 specifier hrequired =>
        have hmode : d.onRegistry = true := by
          cases hmode : d.onRegistry with
          | true => rfl
          | false => simp [hmode] at hrequired
        rw [hmode] at hrequired
        exact ⟨_, d.giving.bind (d.gives_add _) (d.giving.pure _), .call hmode hrequired⟩
    case h_5 hstatement hsequence hassignment hcall =>
      refine ⟨_, d.giving.pure _, .other hstatement hsequence (redirect?_eq_none ?_ ?_)⟩
      · unfold assignedSlot?
        split
        case h_1 hform => exact absurd hform (hassignment _ _ _)
        case h_2 => rfl
      · unfold requiredLiteral?
        split
        case h_1 hform => exact absurd hform (hcall _ _ _)
        case h_2 => rfl
  obtain ⟨o, ho, hat⟩ := hgives
  rwa [outcomeAt, ← gives_unique ho]

end Redirection

/-! ## Pruned nodes -/

namespace Node

/-- What rewriting puts in the place of a node of a list; nothing for a statement of a placeholder.
-/
def pruned (d : Redirection) (n : Node) : Option Node := (d.outcome n).item? n

/-- What rewriting puts in the place of a node that is the part of a slot for a single one. -/
def standIn (d : Redirection) (n : Node) : Node := (n.pruned d).getD (mk n.loc .emptyStatement)

/-- A node with its parts rewritten. -/
def partsPruned (d : Redirection) (n : Node) : Node :=
  n.editParts (fun c => some (c.standIn d)) (pruned d)

variable {d : Redirection}

theorem isStatement_editParts (part item : Node → Option Node) (n : Node) :
    (n.editParts part item).isStatement = n.isStatement := by
  obtain ⟨loc, form⟩ := n
  cases form <;> rfl

/-- Only statements are removed. -/
theorem isStatement_of_removed {n : Node} (h : d.outcome n = .removed) : n.isStatement = true := by
  rw [d.outcome_eq] at h
  split at h
  case isTrue => exact absurd h (descended_ne_removed _ n)
  case isFalse =>
    rw [← isStatement_editParts (fun c => (d.outcome c).part? c) (fun c => (d.outcome c).item? c)]
    generalize hrebuilt : n.editParts (fun c => (d.outcome c).part? c)
      (fun c => (d.outcome c).item? c) = rebuilt at h ⊢
    have hat := d.at_outcomeAt rebuilt
    rw [h] at hat
    generalize ho : Outcome.removed = o at hat
    cases hat with
    | statement hform => rw [isStatement, hform]
    | sequence hform =>
      obtain ⟨after, hafter, -⟩ := prunedTo_prunedSequence hform
      rw [← ho] at hafter
      cases hafter
    | assignment => cases ho
    | call => cases ho
    | other => cases ho

theorem part?_outcome (d : Redirection) (n : Node) :
    (d.outcome n).part? n = some (n.standIn d) := by
  unfold standIn pruned
  cases h : d.outcome n with
  | same => rfl
  | replaced n' => rfl
  | removed => exact if_pos (isStatement_of_removed h)

/-- A node is pruned after its parts. -/
theorem pruned_eq (d : Redirection) (n : Node) :
    n.pruned d = (d.outcomeAt (n.partsPruned d)).item? (n.partsPruned d) := by
  have hparts : n.editParts (fun c => (d.outcome c).part? c) (fun c => (d.outcome c).item? c) =
      n.partsPruned d := by
    unfold partsPruned
    rw [show (fun c => (d.outcome c).part? c) = fun c => some (c.standIn d) from
      funext fun c => part?_outcome d c]
    rfl
  have hitem := item?_descended d.outcome n
  have houtcome := d.outcome_eq n
  rw [hparts] at hitem houtcome
  rw [pruned, houtcome]
  cases d.outcomeAt (n.partsPruned d) with
  | same => exact hitem
  | replaced n' => rfl
  | removed => rfl

/-! ### What is left is whole and without placeholders -/

/-- What holds of every node of a tree. -/
def Everywhere (P : Node → Prop) (n : Node) : Prop := ∀ m ∈ n.walk, P m

theorem everywhere_iff {P : Node → Prop} {n : Node} :
    n.Everywhere P ↔ P n ∧ ∀ c ∈ n.children, c.Everywhere P := by
  unfold Everywhere
  rw [walk_eq_cons, List.forall_mem_cons, List.forall_mem_flatMap]

/-- Neither a statement of a placeholder nor placeholders joined to other expressions. -/
def Pure (n : Node) : Prop :=
  (∀ e, n.form = .expressionStatement (some e) → e.isInvalid = false) ∧
    ∀ es, n.form = .sequenceExpression es → ∀ e ∈ es, e.isInvalid = false

end Node

namespace Form

variable {α β : Type}

/-- The single parts of a form that have to be there. -/
def required : Form α → List (Option α)
  | .functionExpression _ _ body _ _ => [body]
  | .classExpression .. => []
  | .yieldExpression .. => []
  | .variableDeclarator id _ => [id]
  | .functionDeclaration _ _ body _ _ => [body]
  | .propertyDefinition key _ _ _ => [key]
  | .classDeclaration .. => []
  | .returnStatement _ => []
  | .ifStatement test consequent _ => [test, consequent]
  | .forStatement _ _ _ body => [body]
  | .catchClause _ body => [body]
  | .tryStatement block _ _ => [block]
  | .switchCase .. => []
  | .exportNamedDeclaration .. => []
  | .exportAllDeclaration source _ => [source]
  | form => form.slots.filterMap fun
    | .one p => some p
    | _ => none

theorem required_edit (part item : α → Option β) (form : Form α) :
    (form.edit part item).required = form.required.map (Option.bind · part) := by
  have hrun : (form.edit part item).required = form.required.map (Slot.partRun part) := by
    cases form <;> rfl
  rw [hrun]
  exact List.map_congr_left fun p _ => Slot.partRun_eq part p

end Form

namespace Node

/-- A node is pure, and has what it has to have as far as `whole` says so. -/
def Sound (whole : Prop) (n : Node) : Prop := n.Pure ∧ (whole → none ∉ n.form.required)

variable {d : Redirection} {whole : Prop}

theorem sound_of_form {n : Node} (hstatement : ∀ e, n.form ≠ .expressionStatement (some e))
    (hsequence : ∀ es, n.form ≠ .sequenceExpression es)
    (hrequired : whole → none ∉ n.form.required) : n.Sound whole :=
  ⟨⟨fun e he => absurd he (hstatement e), fun es hes => absurd hes (hsequence es)⟩, hrequired⟩

/-- A tree is sound if its node is of another kind and has what it has to have, and its parts are
sound. -/
theorem everywhere_of_parts {n : Node} (parts : List Node) (hparts : n.children = parts)
    (hstatement : ∀ e, n.form ≠ .expressionStatement (some e))
    (hsequence : ∀ es, n.form ≠ .sequenceExpression es) (hrequired : whole → none ∉ n.form.required)
    (h : ∀ c ∈ parts, c.Everywhere (Sound whole)) : n.Everywhere (Sound whole) :=
  everywhere_iff.2 ⟨sound_of_form hstatement hsequence hrequired, by rwa [hparts]⟩

theorem everywhere_leaf {n : Node} (hparts : n.children = [])
    (hstatement : ∀ e, n.form ≠ .expressionStatement (some e))
    (hsequence : ∀ es, n.form ≠ .sequenceExpression es) (hrequired : n.form.required = []) :
    n.Everywhere (Sound whole) :=
  everywhere_of_parts [] hparts hstatement hsequence
    (fun _ => by rw [hrequired]; exact List.not_mem_nil) fun _ hc => absurd hc List.not_mem_nil

theorem everywhere_identifier (x : Text) : (identifier x).Everywhere (Sound whole) :=
  everywhere_leaf rfl nofun nofun rfl

theorem everywhere_textLiteral (t : Text) : (textLiteral t).Everywhere (Sound whole) :=
  everywhere_leaf rfl nofun nofun rfl

theorem everywhere_memberPath {object : Node} (h : object.Everywhere (Sound whole))
    (names : List Text) : (object.memberPath names).Everywhere (Sound whole) := by
  induction names generalizing object with
  | nil => exact h
  | cons x names ih =>
    refine ih (everywhere_of_parts [object, identifier x] rfl nofun nofun (fun _ => nofun) ?_)
    exact List.forall_mem_cons.2 ⟨h, List.forall_mem_singleton.2 (everywhere_identifier x)⟩

/-- A call of an entry point of the registry with a text. -/
theorem everywhere_call (entry t : Text) :
    (Registry.call entry [textLiteral t]).Everywhere (Sound whole) := by
  refine everywhere_of_parts [Registry.part [entry], textLiteral t] rfl nofun nofun
    (fun _ => nofun) ?_
  exact List.forall_mem_cons.2 ⟨everywhere_memberPath (everywhere_identifier _) _,
    List.forall_mem_singleton.2 (everywhere_textLiteral t)⟩

theorem everywhere_boundary (name moduleId : Text) :
    (Registry.boundary name moduleId).Everywhere (Sound whole) := by
  refine everywhere_of_parts [made (.variableDeclarator (some (identifier name))
    (some (Registry.call "cjs" [textLiteral moduleId])))] rfl nofun nofun (fun _ => nofun) ?_
  refine List.forall_mem_singleton.2 (everywhere_of_parts
    [identifier name, Registry.call "cjs" [textLiteral moduleId]] rfl nofun nofun (fun _ => nofun) ?_)
  exact List.forall_mem_cons.2 ⟨everywhere_identifier name,
    List.forall_mem_singleton.2 (everywhere_call "cjs" moduleId)⟩

/-- Sound expressions stay sound without the placeholders among them. -/
theorem PrunedTo.everywhere {loc : Option Position} {es : List Node} {after : Node}
    (h : PrunedTo loc es after) (hes : ∀ e ∈ es, e.Everywhere (Sound whole)) :
    after.Everywhere (Sound whole) := by
  have hsequence {kept : List Node} (hsub : ∀ e ∈ kept, e ∈ withoutInvalid es) :
      (mk loc (.sequenceExpression kept)).Everywhere (Sound whole) := by
    have hkept (e : Node) (he : e ∈ kept) : e ∈ es ∧ e.isInvalid = false := by
      simpa using List.mem_filter.1 (hsub e he)
    have hchildren : (mk loc (.sequenceExpression kept)).children = kept := by
      simp [children, form, Form.parts, Form.slots, Slot.parts]
    refine everywhere_iff.2 ⟨⟨⟨fun e h => ?_, fun es' h e he => ?_⟩, fun _ h => ?_⟩, ?_⟩
    · cases h
    · cases h
      exact (hkept e he).2
    · cases h
    · rw [hchildren]
      exact fun e he => hes e (hkept e he).1
  cases h with
  | all hall => exact hsequence fun e he => by rwa [hall]
  | none => exact everywhere_leaf rfl (fun _ h => by cases h) (fun _ h => by cases h) rfl
  | single hone =>
    refine hes _ (List.mem_of_mem_filter (p := fun e => !e.isInvalid) ?_)
    rw [show es.filter _ = withoutInvalid es from rfl, hone]
    exact List.mem_singleton.2 rfl
  | several => exact hsequence fun e he => he

/-- An assignment that also publishes what it assigns is sound if its parts are. -/
theorem everywhere_mirrored {n : Node} {operator name boundary : Text} {left right : Option Node}
    (hform : n.form = .assignmentExpression operator left right)
    (hrequired : whole → none ∉ n.form.required)
    (hparts : ∀ c ∈ n.children, c.Everywhere (Sound whole)) :
    (Rewriting.mirrored n boundary name left right).Everywhere (Sound whole) := by
  have hchildren : n.children = left.toList ++ right.toList := by
    rw [children, hform]
    simp only [Form.parts, Form.slots, Slot.parts, List.flatMap_cons, List.flatMap_nil,
      List.append_nil]
  have hboth : whole → left ≠ none ∧ right ≠ none := by
    intro h
    have hnone := hrequired h
    rw [hform] at hnone
    exact ⟨fun hleft => hnone (by rw [hleft]; exact List.mem_cons_self),
      fun hright => hnone (by rw [hright]; exact List.mem_cons_of_mem _ List.mem_cons_self)⟩
  rw [hchildren, List.forall_mem_append] at hparts
  let slot := (identifier boundary).memberPath ["exports", name]
  let mirror := made (.assignmentExpression "=" (some slot) right)
  have hmirror : mirror.Everywhere (Sound whole) := by
    refine everywhere_of_parts (slot :: right.toList) ?_ (fun _ h => by cases h)
      (fun _ h => by cases h) (fun h => ?_) ?_
    · simp [mirror, children, made, form, Form.parts, Form.slots, Slot.parts]
    · simpa [mirror, made, form, Form.required, Form.slots] using (hboth h).2.symm
    · exact List.forall_mem_cons.2
        ⟨everywhere_memberPath (everywhere_identifier _) _, hparts.2⟩
  refine everywhere_of_parts (left.toList ++ [mirror]) ?_ (fun _ h => by cases h)
    (fun _ h => by cases h) (fun h => ?_) ?_
  · simp [Rewriting.mirrored, withForm, mirror, slot, children, form, Form.parts, Form.slots,
      Slot.parts]
  · simpa [Rewriting.mirrored, withForm, form, Form.required, Form.slots] using (hboth h).1.symm
  · exact List.forall_mem_append.2 ⟨hparts.1, List.forall_mem_singleton.2 hmirror⟩

/-- What rewriting makes of a node is sound if its parts are, and it has what it has to have. -/
theorem everywhere_of_at {n n' : Node} {o : Outcome} (h : d.At n o) (hn : o.item? n = some n')
    (hrequired : whole → none ∉ n.form.required)
    (hparts : ∀ c ∈ n.children, c.Everywhere (Sound whole)) : n'.Everywhere (Sound whole) := by
  cases h with
  | @statement e hform =>
    cases hinvalid : e.isInvalid with
    | true =>
      rw [hinvalid] at hn
      cases hn
    | false =>
      rw [hinvalid] at hn
      cases hn
      refine everywhere_iff.2 ⟨⟨⟨fun e' he' => ?_, fun es hes => ?_⟩, hrequired⟩, hparts⟩
      · rw [hform] at he'
        cases he'
        exact hinvalid
      · rw [hform] at hes
        cases hes
  | sequence hform =>
    obtain ⟨after, hafter, hpruned⟩ := prunedTo_prunedSequence hform
    rw [hafter] at hn
    cases hn
    refine hpruned.everywhere fun e he => hparts e ?_
    rw [children, hform]
    simpa [Form.parts, Form.slots, Slot.parts] using he
  | assignment hform =>
    cases hn
    exact everywhere_mirrored hform hrequired hparts
  | @call specifier =>
    cases hn
    have hcall : (Registry.require (d.resolution.actualPath specifier)).Everywhere (Sound whole) :=
      everywhere_call "require" _
    have hparts := everywhere_iff.1 hcall
    exact everywhere_iff.2 hparts
  | other hstatement hsequence =>
    cases hn
    exact everywhere_iff.2 ⟨sound_of_form hstatement hsequence hrequired, hparts⟩

/-- What rewriting makes of a tree is sound, if the tree has what it has to have as far as that is
asked. -/
theorem everywhere_pruned {n n' : Node}
    (hwhole : whole → n.Everywhere fun m => none ∉ m.form.required) (h : n.pruned d = some n') :
    n'.Everywhere (Sound whole) := by
  induction n using induction_children generalizing n' with
  | step n ih =>
    rw [pruned_eq] at h
    refine everywhere_of_at (d.at_outcomeAt _) h (fun hw hnone => ?_) fun c' hc' => ?_
    · rw [show (n.partsPruned d).form = n.form.edit _ _ from rfl, Form.required_edit] at hnone
      obtain ⟨p, hp, hbind⟩ := List.mem_map.1 hnone
      cases p with
      | none => exact (everywhere_iff.1 (hwhole hw)).1 hp
      | some c => cases hbind
    · obtain ⟨c, hc, hpick⟩ := mem_children_editParts hc'
      have hbelow : whole → c.Everywhere fun m => none ∉ m.form.required :=
        fun hw => (everywhere_iff.1 (hwhole hw)).2 c hc
      have hempty : (mk c.loc .emptyStatement).Everywhere (Sound whole) :=
        everywhere_leaf rfl nofun nofun rfl
      cases hpruned : c.pruned d with
      | none =>
        rw [standIn, hpruned] at hpick
        obtain hpick | hpick := hpick
        · cases hpick
          exact hempty
        · cases hpick
      | some after =>
        rw [standIn, hpruned] at hpick
        have hafter := ih c hc hbelow hpruned
        obtain hpick | hpick := hpick
        · cases hpick
          exact hafter
        · cases hpick
          exact hafter

/-! ### Single nodes -/

theorem form_partsPruned_program {n : Node} {body : List Node} (h : n.form = .program body) :
    (n.partsPruned d).form = .program (body.filterMap (pruned d)) := by
  show n.form.edit _ _ = _
  rw [h]
  exact congrArg Form.program (Slot.listRun_eq _ body)

theorem form_partsPruned_sequence {n : Node} {es : List Node} (h : n.form = .sequenceExpression es) :
    (n.partsPruned d).form = .sequenceExpression (es.filterMap (pruned d)) := by
  show n.form.edit _ _ = _
  rw [h]
  exact congrArg Form.sequenceExpression (Slot.listRun_eq _ es)

/-- A statement of an expression is made of no other node. -/
theorem exists_of_form_partsPruned {n e : Node}
    (h : (n.partsPruned d).form = .expressionStatement (some e)) :
    ∃ c, n.form = .expressionStatement (some c) ∧ c.standIn d = e := by
  let expression? (form : Form Node) : Option Node :=
    match form with
    | .expressionStatement p => p
    | _ => none
  have hedit : expression? (n.partsPruned d).form = (expression? n.form).map (standIn d) := by
    obtain ⟨loc, form⟩ := n
    cases form
    case expressionStatement p => cases p <;> rfl
    all_goals rfl
  rw [h] at hedit
  obtain ⟨c, hc, hstand⟩ := Option.map_eq_some_iff.1 hedit.symm
  refine ⟨c, ?_, hstand⟩
  cases hform : n.form
  case expressionStatement p =>
    rw [hform] at hc
    exact congrArg Form.expressionStatement hc
  all_goals
    rw [hform] at hc
    cases hc

/-- A module is made of what its statements are made of. -/
theorem pruned_program {n : Node} {body : List Node} (h : n.form = .program body) :
    n.pruned d = some (n.withForm (.program (body.filterMap (pruned d)))) := by
  have hform := form_partsPruned_program (d := d) h
  have hsame : d.outcomeAt (n.partsPruned d) = .same := by
    unfold Redirection.outcomeAt Rewriting.rewriteNode
    rw [hform]
    rfl
  rw [pruned_eq, hsame, ← hform]
  rfl

theorem pruned_sequence {n : Node} {es : List Node} (h : n.form = .sequenceExpression es) :
    ∃ after, n.pruned d = some after ∧ PrunedTo n.loc (es.filterMap (pruned d)) after := by
  have hform := form_partsPruned_sequence (d := d) h
  have hsequence : d.outcomeAt (n.partsPruned d) =
      Rewriting.prunedSequence (n.partsPruned d) (es.filterMap (pruned d)) := by
    unfold Redirection.outcomeAt Rewriting.rewriteNode
    rw [hform]
    rfl
  rw [pruned_eq, hsequence]
  exact prunedTo_prunedSequence hform

/-- Only a statement of what has become a placeholder is taken out. -/
theorem pruned_eq_none {n : Node} (h : n.pruned d = none) :
    ∃ e, n.form = .expressionStatement (some e) ∧ (e.standIn d).isInvalid = true := by
  rw [pruned_eq] at h
  have hat := d.at_outcomeAt (n.partsPruned d)
  generalize d.outcomeAt (n.partsPruned d) = o at hat h
  cases hat with
  | @statement e hform =>
    obtain ⟨c, hc, rfl⟩ := exists_of_form_partsPruned hform
    cases hinvalid : (c.standIn d).isInvalid with
    | false =>
      rw [hinvalid] at h
      cases h
    | true => exact ⟨c, hc, hinvalid⟩
  | sequence hform =>
    obtain ⟨after, hafter, -⟩ := prunedTo_prunedSequence hform
    rw [hafter] at h
    cases h
  | assignment => cases h
  | call => cases h
  | other => cases h

end Node

/-! ## A whole module -/

/-- What it means that `module` is made of `program` by rewriting, and left without placeholders. -/
structure Prunes (moduleId : Text) (d : Redirection) (program module : Node) (r : Rewriting) :
    Prop where
  /-- Behind the declaration of the object, if there is one, stands what is made of each statement.
  -/
  statements : module = program.withForm (.program
    (r.boundary.toList.map (Registry.boundary · moduleId) ++
      program.statements.filterMap (pruned d)))
  /-- No statement is that of a placeholder, and none is joined to other expressions. -/
  pure : module.Everywhere Node.Pure
  /-- Every node is pruned after its parts. -/
  pruned : ∀ n ∈ program.walk, ∃ o, d.At (n.partsPruned d) o ∧
    n.pruned d = o.item? (n.partsPruned d)
  /-- What stands in a place for a single part stays there, and lists keep their order and holes. -/
  parts : ∀ n ∈ program.walk, (n.partsPruned d).form.slots =
    n.form.slots.map (Slot.edit (fun c => some (c.standIn d)) (Node.pruned d))
  /-- Expressions joined by commas are those that were, themselves rewritten, without placeholders.
  -/
  sequences : ∀ n ∈ program.walk, ∀ es, n.form = .sequenceExpression es →
    ∃ after, n.pruned d = some after ∧ PrunedTo n.loc (es.filterMap (Node.pruned d)) after
  /-- Nothing is taken out but statements of what has become a placeholder. -/
  removed : ∀ n ∈ program.walk, n.pruned d = none →
    ∃ e, n.form = .expressionStatement (some e) ∧ (e.standIn d).isInvalid = true
  /-- Where no node lacks a part that it has to have, none does afterwards. -/
  whole : (program.Everywhere fun n => none ∉ n.form.required) →
    module.Everywhere fun n => none ∉ n.form.required

namespace Rewritten

/-- A rewritten module consists of the declaration of its object, if there is one, and of what is
made of its statements. -/
theorem item?_ofProgram (moduleId : Text) (runtimeModule : Bool) (resolution : Resolution)
    (names : Names) {program : Node} {body : List Node} (hform : program.form = .program body) :
    let rewritten := Rewritten.ofProgram moduleId runtimeModule resolution names program
    let d := Rewriting.redirection runtimeModule resolution names
    rewritten.outcome.item? program = some (program.withForm (.program
      (rewritten.rewriting.boundary.toList.map (Registry.boundary · moduleId) ++
        body.filterMap (Node.pruned d)))) := by
  intro rewritten d
  have hinitial : HasObject names { names } := ⟨.refl names, fun x hx => nomatch hx⟩
  have hpasses : Passes (HasObject names) (StemsFrom (names.freshName "__cjs") program)
      (program.rewriteM (Rewriting.rule runtimeModule resolution)) :=
    Rewriting.passes_rewriteM program
  have hsame := (hpasses _ hinitial).same
  have houtcome := (d.gives_rewriteM program { names } rfl).1
  have hpruned : (d.outcome program).item? program = _ := pruned_program (d := d) hform
  rw [← houtcome] at hpruned
  show (Rewritten.ofProgram moduleId runtimeModule resolution names program).outcome.item? _ =
    some (program.withForm (.program ((Rewritten.ofProgram moduleId runtimeModule resolution names
      program).rewriting.boundary.toList.map _ ++ _)))
  unfold Rewritten.ofProgram
  change ((program.rewriteM (Rewriting.rule runtimeModule resolution)).run { names }).1.item? _ = _
    at hpruned
  generalize (program.rewriteM (Rewriting.rule runtimeModule resolution)).run { names } = out
    at hsame hpruned ⊢
  obtain ⟨outcome, r⟩ := out
  cases outcome with
  | removed => cases hpruned
  | same =>
    have hr : r = { names } := hsame rfl
    subst hr
    exact hpruned
  | replaced n =>
    cases hpruned
    obtain ⟨names', boundary, redirects⟩ := r
    cases boundary with
    | none => rfl
    | some x => rfl

/-- Rewriting a module prunes it, whatever its tree is. -/
theorem ofProgram_prunes (moduleId : Text) (runtimeModule : Bool) (resolution : Resolution)
    (names : Names) {program : Node} {body : List Node} (hform : program.form = .program body) :
    let rewritten := Rewritten.ofProgram moduleId runtimeModule resolution names program
    ∃ module, rewritten.outcome.item? program = some module ∧
      Prunes moduleId (Rewriting.redirection runtimeModule resolution names) program module
        rewritten.rewriting := by
  intro rewritten
  have hbody : program.statements = body := by rw [statements, hform]
  have hparts (l : List Node) : (Form.program l).parts = l := by
    simp [Form.parts, Form.slots, Slot.parts]
  have hchildren : program.children = body := by rw [children, hform, hparts]
  refine ⟨_, item?_ofProgram moduleId runtimeModule resolution names hform, ?_⟩
  have hsound : (program.withForm (.program
      (rewritten.rewriting.boundary.toList.map (Registry.boundary · moduleId) ++ body.filterMap
        (Node.pruned (Rewriting.redirection runtimeModule resolution names))))).Everywhere
      (Sound (program.Everywhere fun n => none ∉ n.form.required)) := by
    refine everywhere_of_parts _ (hparts _) (fun _ h => by cases h) (fun _ h => by cases h)
      (fun _ h => by cases h) ?_
    refine List.forall_mem_append.2 ⟨fun c hc => ?_, fun c hc => ?_⟩
    · obtain ⟨x, -, rfl⟩ := List.mem_map.1 hc
      exact everywhere_boundary x moduleId
    · obtain ⟨b, hb, hpruned⟩ := List.mem_filterMap.1 hc
      exact everywhere_pruned (fun hw => (everywhere_iff.1 hw).2 b (by rwa [hchildren])) hpruned
  refine ⟨by rw [hbody], fun m hm => (hsound m hm).1, ?_, ?_, ?_, ?_, ?_⟩
  · exact fun n _ => ⟨_, Redirection.at_outcomeAt _ _, pruned_eq _ n⟩
  · exact fun n _ => Form.slots_edit _ _ n.form
  · exact fun n _ es hes => pruned_sequence hes
  · exact fun n _ hnone => pruned_eq_none hnone
  · exact fun hwhole m hm => (hsound m hm).2 hwhole

/-- A module in which placeholders make one another go, next to what it publishes. -/
theorem prunes_nested_placeholders :
    let invalid := made .invalid
    let join (es : List Node) := made (.sequenceExpression es)
    let slot := (identifier "exports").memberNamed "n"
    let publication := made (.assignmentExpression "=" (some slot)
      (some (join [invalid, identifier "a"])))
    let body := [asStatement (join [join [invalid], invalid]),
      made (.ifStatement (some (identifier "b")) (some (asStatement invalid)) none),
      asStatement (join [invalid, identifier "c", publication])]
    let program := made (.program body)
    let rewritten := Rewritten.ofProgram "main" false {} ⟨[]⟩ program
    program.form = .program body ∧ ∃ module, rewritten.outcome.item? program = some module ∧
      Prunes "main" (Rewriting.redirection false {} ⟨[]⟩) program module
        rewritten.rewriting ∧
      module.walk.any isInvalid = false ∧
      module.statements.map typeName =
        ["VariableDeclaration", "IfStatement", "ExpressionStatement"] := by
  intro invalid join slot publication body program rewritten
  obtain ⟨module, hmodule, hprunes⟩ :=
    ofProgram_prunes "main" false {} ⟨[]⟩ (show program.form = .program body from rfl)
  refine ⟨rfl, module, hmodule, hprunes, ?_⟩
  have htests : (rewritten.outcome.item? program).map (fun m =>
      (m.walk.any isInvalid, m.statements.map typeName)) =
      some (false, ["VariableDeclaration", "IfStatement", "ExpressionStatement"]) := by
    decide
  rw [hmodule] at htests
  obtain ⟨hinvalid, hnames⟩ := Prod.mk.inj (Option.some.inj htests)
  exact ⟨hinvalid, hnames⟩

end Rewritten

end ModuleLowering
