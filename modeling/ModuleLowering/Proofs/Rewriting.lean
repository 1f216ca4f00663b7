import ModuleLowering.Proofs.Calls
import ModuleLowering.Proofs.FreshNames
import ModuleLowering.Proofs.Passes
import ModuleLowering.Registry.CommonJs

/-!
# Laws of rewriting CommonJS modules

Rewriting a module inserts references to the host and to the one object that the registry keeps for
the module, and nothing else that is no name of the module. The object gets its name when there is
need for it first, and always the same one. Statements without export slots, required modules and
placeholders stay as they are.
-/

set_option autoImplicit false

namespace ModuleLowering

open Node

/-! ## What is inserted -/

/-- The names of members that are inserted. -/
def insertedMembers : List Text := ["__modules", "require", "exports", "default"]

/-- What is inserted: the host and the object named `boundary`, and members of them. -/
def Inserted (boundary : Text) (o : Standing × Text) : Prop :=
  o = (Standing.object, ("global" : Text)) ∨ o = (Standing.object, boundary) ∨
    o.1 = .member ∧ o.2 ∈ insertedMembers

/-- Whatever occurs in `after` is a name of `before` or has been inserted. -/
def StemsFrom (boundary : Text) (before after : Node) : Prop :=
  ∀ o ∈ after.occurrences, o.2 ∈ before.names ∨ Inserted boundary o

namespace StemsFrom

variable {boundary : Text}

theorem refl (n : Node) : StemsFrom boundary n n :=
  fun o ho => Or.inl (mem_names_iff.2 ⟨o.1, ho⟩)

theorem emptyStatement (n : Node) (loc : Option Position) :
    StemsFrom boundary n (.mk loc .emptyStatement) := by
  intro o ho
  exact absurd ho List.not_mem_nil

theorem mem_names_of_name? {before after : Node} (h : StemsFrom boundary before after) {x : Text}
    (hx : after.name? = some x) : x ∈ before.names := by
  have hocc := h (.alone, x) (by rw [occurrences_of_name? hx]; exact List.mem_singleton.2 rfl)
  rcases hocc with hname | hglobal | hboundary | hmember
  · exact hname
  · cases hglobal
  · cases hboundary
  · cases hmember.1

/-- A node stems from the one whose parts its own stem from. -/
theorem rebuilt {n : Node} {form : Form Node} (hname : form.identifier? = n.form.identifier?)
    (h : ComesFrom (StemsFrom boundary) n.children form.parts) :
    StemsFrom boundary n (n.withForm form) := by
  intro o ho
  rcases mem_occurrences_cases ho with hown | ⟨c', hc', hocc⟩
  · have hn : n.name? = some o.2 := by
      rw [name?_eq_identifier?, ← hname]
      exact (name?_eq_identifier? _).symm.trans hown
    exact Or.inl (Node.mem_names_of_name? hn)
  · obtain ⟨c, hc, hcc'⟩ := h c' hc'
    rcases hocc with hin | hc'name
    · exact (hcc' o hin).imp_left (mem_names_of_mem_children hc)
    · exact Or.inl (mem_names_of_mem_children hc (hcc'.mem_names_of_name? hc'name))

theorem of_inserted {before middle after : Node} (h : StemsFrom boundary before middle)
    (k : ∀ o ∈ after.occurrences, o ∈ middle.occurrences ∨ Inserted boundary o) :
    StemsFrom boundary before after := by
  intro o ho
  rcases k o ho with hmiddle | hinserted
  · exact h o hmiddle
  · exact Or.inr hinserted

end StemsFrom

/-! ## The object of a module -/

/-- Of the names that a module had, only that of its object has been added. -/
structure HasObject (names : Names) (r : Rewriting) : Prop where
  allocated : Allocated names r.names r.boundary.toList
  boundary : ∀ x ∈ r.boundary, x = names.freshName "__cjs"

namespace Rewriting

variable {names : Names}

/-- The object is always found under the same name. -/
theorem boundaryName_spec {r : Rewriting} (h : HasObject names r) :
    (boundaryName.run r).1 = names.freshName "__cjs" ∧ HasObject names (boundaryName.run r).2 := by
  obtain ⟨rnames, boundary, redirects⟩ := r
  cases boundary with
  | some x => exact ⟨h.boundary x rfl, h⟩
  | none =>
    have htaken : rnames.taken = names.taken := h.allocated.taken
    have hnames : rnames = names := by
      cases rnames
      cases names
      exact congrArg _ htaken
    subst hnames
    exact ⟨rfl, .fresh rnames ⟨_, rfl⟩, fun x hx => (Option.some.inj hx).symm⟩

end Rewriting

/-! ## Export slots -/

namespace Node

/-- The name of a static member stands behind a dot there. -/
theorem member_of_staticMember? {n object : Node} {name : Text}
    (h : n.staticMember? = some (object, name)) : (.member, name) ∈ n.occurrences := by
  unfold staticMember? at h
  split at h
  case h_1 obj member hform =>
    obtain ⟨x, hx, hpair⟩ := Option.map_eq_some_iff.1 h
    cases hpair
    rw [occurrences_staticMember hform]
    refine List.mem_append_right _ ?_
    unfold partOccurrences occurrencesAs
    simp only [Option.bind_some, hx, List.mem_singleton]
  case h_2 => cases h

/-- An export slot publishes the default or the name that stands behind its dot. -/
theorem member_of_exportSlot? {n : Node} {name : Text} (h : n.exportSlot? = some name) :
    name = "default" ∨ (.member, name) ∈ n.occurrences := by
  unfold exportSlot? at h
  split at h
  case h_1 => cases h
  case h_2 object x hstatic =>
    have hmember := member_of_staticMember? hstatic
    split at h
    case isTrue =>
      cases h
      exact Or.inr hmember
    case isFalse =>
      split at h
      case isTrue =>
        cases h
        exact Or.inl rfl
      case isFalse =>
        split at h
        case h_1 outer inner _ =>
          split at h
          case isTrue =>
            cases h
            exact Or.inr hmember
          case isFalse => cases h
        case h_2 => cases h

end Node

namespace Rewriting

variable {names : Names}

theorem occurrences_subset_of_parts {n : Node} {form : Form Node} (parts : List Node)
    (hform : n.form = form) (hstatic : form.isStaticMember = false)
    (hparts : ∀ c ∈ parts, c ∈ form.parts) :
    ∀ o ∈ parts.flatMap occurrences, o ∈ n.occurrences := by
  intro o ho
  obtain ⟨c, hc, hoc⟩ := List.mem_flatMap.1 ho
  exact mem_occurrences_of_mem_parts hform hstatic (hparts c hc) hoc

/-- What occurs in an assignment that goes by way of the object. -/
theorem occurrences_mirrored (n : Node) (boundary name : Text) (left right : Option Node) :
    (mirrored n boundary name left right).occurrences =
      left.toList.flatMap occurrences ++ ([(.object, boundary), (.member, "exports"),
        (.member, name)] ++ right.toList.flatMap occurrences) := by
  have hslot := occurrences_memberPath_identifier boundary "exports" [name]
  unfold mirrored
  dsimp only
  rw [occurrences_withForm n rfl]
  simp [Form.identifier?, Form.parts, Form.slots, Slot.parts, occurrences_assignment, hslot]

/-- An assignment that goes by way of the object inserts only that. -/
theorem inserted_mirrored {n : Node} {boundary operator name : Text} {left right : Option Node}
    (hform : n.form = .assignmentExpression operator left right)
    (hname : name = "default" ∨ (.member, name) ∈ n.occurrences) :
    ∀ o ∈ (mirrored n boundary name left right).occurrences,
      o ∈ n.occurrences ∨ Inserted boundary o := by
  have hleft := occurrences_subset_of_parts left.toList hform rfl
    fun c hc => List.mem_append_left _ hc
  have hright := occurrences_subset_of_parts right.toList hform rfl
    fun c hc => List.mem_append_right _ (List.mem_append_left _ hc)
  intro o ho
  rw [occurrences_mirrored] at ho
  simp only [List.mem_append, List.mem_cons, List.not_mem_nil, or_false] at ho
  rcases ho with ho | (rfl | rfl | rfl) | ho
  · exact Or.inl (hleft o ho)
  · exact Or.inr (Or.inr (Or.inl rfl))
  · exact Or.inr (Or.inr (Or.inr ⟨rfl, by simp [insertedMembers]⟩))
  · rcases hname with rfl | hmember
    · exact Or.inr (Or.inr (Or.inr ⟨rfl, by simp [insertedMembers]⟩))
    · exact Or.inl hmember
  · exact Or.inl (hright o ho)

/-- A call of the registry for a required module inserts the host and members of it. -/
theorem inserted_require {boundary : Text} (n : Node) (path : Text) :
    ∀ o ∈ (Node.mk n.loc (Registry.require path).form).occurrences, Inserted boundary o := by
  intro o ho
  have hoccurrences : (Node.mk n.loc (Registry.require path).form).occurrences =
      (Registry.require path).occurrences := rfl
  rw [hoccurrences, Registry.require, Registry.occurrences_call, Registry.partOccurrences] at ho
  simp only [List.map_cons, List.map_nil, List.cons_append, List.nil_append, List.flatMap_cons,
    List.flatMap_nil, occurrences_textLiteral, List.mem_cons, List.not_mem_nil, or_false] at ho
  rcases ho with rfl | rfl | rfl
  · exact Or.inl rfl
  · exact Or.inr (Or.inr ⟨rfl, by simp [insertedMembers]⟩)
  · exact Or.inr (Or.inr ⟨rfl, by simp [insertedMembers]⟩)

/-- Leaving out placeholders inserts nothing. -/
theorem inserted_prunedSequence {n n' : Node} {expressions : List Node}
    (hform : n.form = .sequenceExpression expressions)
    (h : prunedSequence n expressions = .replaced n') :
    ∀ o ∈ n'.occurrences, o ∈ n.occurrences := by
  have hkept := occurrences_subset_of_parts
    (expressions.filter fun e => !e.isInvalid) hform rfl (by
      intro c hc
      simpa [Form.parts, Form.slots, Slot.parts] using List.mem_of_mem_filter hc)
  intro o ho
  unfold prunedSequence at h
  dsimp only at h
  split at h
  case isTrue => cases h
  case isFalse =>
    split at h
    case h_1 =>
      cases h
      exact absurd ho List.not_mem_nil
    case h_2 e he =>
      cases h
      rw [he] at hkept
      exact hkept o (by simpa using ho)
    case h_3 =>
      cases h
      rw [occurrences_withForm n rfl] at ho
      exact hkept o (by simpa [Form.identifier?, Form.parts, Form.slots, Slot.parts] using ho)

/-! ## Nodes and trees -/

variable {runtimeModule : Bool} {resolution : Resolution}

/-- The slot that an assignment sets is the default or a name that stands behind a dot. -/
theorem member_of_assignedSlot? {n : Node} {name : Text} (h : n.assignedSlot? = some name) :
    name = "default" ∨ (.member, name) ∈ n.occurrences := by
  unfold Node.assignedSlot? at h
  split at h
  case h_1 operator left right hform =>
    split at h
    case isTrue =>
      refine (member_of_exportSlot? h).imp_right fun hmember => ?_
      exact mem_occurrences_of_mem_parts hform rfl (by simp [Form.parts, Form.slots, Slot.parts])
        hmember
    case isFalse => cases h
  case h_2 => cases h

/-- Rewriting one node inserts the host and the object only. -/
theorem passes_rewriteNode (n : Node) :
    Passes (HasObject names)
      (fun n' => ∀ o ∈ n'.occurrences,
        o ∈ n.occurrences ∨ Inserted (names.freshName "__cjs") o)
      (rewriteNode runtimeModule resolution n) := by
  intro r hr
  unfold rewriteNode
  split
  case h_1 e hform =>
    cases e.isInvalid with
    | false => exact .of_same hr
    | true => exact .of_removed hr
  case h_2 expressions hform =>
    exact ⟨hr, fun _ => rfl, fun n' h o ho => Or.inl (inserted_prunedSequence hform h o ho)⟩
  case h_3 operator left right hform =>
    split
    case h_1 => exact .of_same hr
    case h_2 name hslot =>
      have hadded : HasObject names { r with redirects := r.redirects ++ [.published name] } :=
        ⟨hr.allocated, hr.boundary⟩
      obtain ⟨hboundary, hobject⟩ := boundaryName_spec hadded
      refine .of_replaced hobject ?_
      rw [← hboundary]
      exact inserted_mirrored hform (member_of_assignedSlot? hslot)
  case h_4 hform =>
    split
    case h_1 => exact .of_same hr
    case h_2 specifier _ =>
      refine .of_replaced ⟨hr.allocated, hr.boundary⟩ fun o ho => ?_
      exact Or.inr (inserted_require n _ o ho)
  case h_5 => exact .of_same hr

/-- A node is rewritten after its parts, unless it went with them. -/
theorem run_rule (n : Node) (pass : StateM Rewriting Node.Outcome) (r : Rewriting) :
    (rule runtimeModule resolution n pass).run r =
      match (pass.run r).1.item? n with
      | none => pass.run r
      | some rebuilt =>
        let out := (rewriteNode runtimeModule resolution rebuilt).run (pass.run r).2
        (if out.1.isSame then (pass.run r).1 else out.1, out.2) := by
  unfold rule
  rw [StateT.run_bind]
  generalize pass.run r = out
  obtain ⟨outcome, r'⟩ := out
  show StateT.run _ r' = _
  dsimp only
  cases outcome.item? n with
  | none => rfl
  | some rebuilt =>
    show StateT.run (rewriteNode runtimeModule resolution rebuilt >>= _) r' = _
    rw [StateT.run_bind]
    dsimp only
    generalize (rewriteNode runtimeModule resolution rebuilt).run r' = out
    obtain ⟨changed, r''⟩ := out
    cases changed <;> rfl

/-- Rewriting a node after its parts. -/
theorem passes_rule {n : Node} {pass : StateM Rewriting Node.Outcome}
    (h : Passes (HasObject names) (StemsFrom (names.freshName "__cjs") n) pass) :
    Passes (HasObject names) (StemsFrom (names.freshName "__cjs") n)
      (rule runtimeModule resolution n pass) := by
  intro r hr
  have hpass := h r hr
  rw [run_rule]
  generalize pass.run r = out at hpass ⊢
  obtain ⟨outcome, r'⟩ := out
  cases outcome with
  | removed => exact hpass
  | same =>
    have hstate : r' = r := hpass.same rfl
    subst hstate
    have hnode := (passes_rewriteNode n : Passes (HasObject names) _
      (rewriteNode runtimeModule resolution n)) r' hr
    show Passed _ _ _ (if ((rewriteNode runtimeModule resolution n).run r').1.isSame then _ else _)
      ((rewriteNode runtimeModule resolution n).run r').2
    generalize (rewriteNode runtimeModule resolution n).run r' = out at hnode ⊢
    obtain ⟨changed, r''⟩ := out
    cases changed with
    | same =>
      have hstate : r'' = r' := hnode.same rfl
      subst hstate
      exact .of_same hr
    | replaced n' =>
      exact .of_replaced hnode.invariant ((StemsFrom.refl n).of_inserted (hnode.replaced n' rfl))
    | removed => exact .of_removed hnode.invariant
  | replaced rebuilt =>
    have hstems := hpass.replaced rebuilt rfl
    have hnode := (passes_rewriteNode rebuilt : Passes (HasObject names) _
      (rewriteNode runtimeModule resolution rebuilt)) r' hpass.invariant
    show Passed _ _ _
      (if ((rewriteNode runtimeModule resolution rebuilt).run r').1.isSame then _ else _)
      ((rewriteNode runtimeModule resolution rebuilt).run r').2
    generalize (rewriteNode runtimeModule resolution rebuilt).run r' = out at hnode ⊢
    obtain ⟨changed, r''⟩ := out
    cases changed with
    | same => exact .of_replaced hnode.invariant hstems
    | replaced n' =>
      exact .of_replaced hnode.invariant (hstems.of_inserted (hnode.replaced n' rfl))
    | removed => exact .of_removed hnode.invariant

/-- Rewriting a tree gives one that stems from it. -/
theorem passes_rewriteM (n : Node) :
    Passes (HasObject names) (StemsFrom (names.freshName "__cjs") n)
      (n.rewriteM (rule runtimeModule resolution)) := by
  induction n using induction_children with
  | step n ih =>
    rw [rewriteM_eq]
    refine passes_rule ?_
    intro r hr
    have hdescend := passes_descend StemsFrom.refl StemsFrom.emptyStatement ih r hr
    refine ⟨hdescend.invariant, hdescend.same, fun n' hn' => ?_⟩
    obtain ⟨form, rfl, hname, hfrom⟩ := hdescend.replaced n' hn'
    exact .rebuilt hname hfrom

/-! ## Settled statements -/

/-- Rewriting leaves a tree as it is, whatever happened before. -/
def Settled (runtimeModule : Bool) (resolution : Resolution) (n : Node) : Prop :=
  ∀ r, (n.rewriteM (rule runtimeModule resolution)).run r = (.same, r)

/-- A tree is settled if its children are and nothing is to be done at its root. -/
theorem settled_of_children {n : Node}
    (h : ∀ c ∈ n.children, Settled runtimeModule resolution c)
    (hn : rewriteNode runtimeModule resolution n = Pure.pure .same) :
    Settled runtimeModule resolution n := by
  intro r
  rw [rewriteM_eq, run_rule, run_descend_same fun c hc => h c hc r]
  dsimp only [Outcome.item?]
  rw [hn]
  rfl

theorem settled_leaf {n : Node} (hparts : n.children = [])
    (hn : rewriteNode runtimeModule resolution n = Pure.pure .same) :
    Settled runtimeModule resolution n := by
  refine settled_of_children ?_ hn
  intro c hc
  rw [hparts] at hc
  exact absurd hc List.not_mem_nil

theorem settled_identifier (x : Text) : Settled runtimeModule resolution (identifier x) :=
  settled_leaf rfl rfl

theorem settled_literal (v : Value) : Settled runtimeModule resolution (literal v) :=
  settled_leaf rfl rfl

theorem settled_memberNamed {object : Node} (h : Settled runtimeModule resolution object)
    (name : Text) : Settled runtimeModule resolution (object.memberNamed name) := by
  refine settled_of_children ?_ rfl
  intro c hc
  rcases List.mem_cons.1 hc with rfl | hc
  · exact h
  · rw [List.mem_singleton.1 hc]
    exact settled_identifier name

theorem settled_memberPath {object : Node} (h : Settled runtimeModule resolution object)
    (names : List Text) : Settled runtimeModule resolution (object.memberPath names) := by
  induction names generalizing object with
  | nil => exact h
  | cons name names ih => exact ih (settled_memberNamed h name)

/-- A call of anything but an identifier is settled if its parts are. -/
theorem settled_callOf {callee : Node} {arguments : List Node}
    (hcallee : Settled runtimeModule resolution callee) (hname : callee.name? = none)
    (harguments : ∀ a ∈ arguments, Settled runtimeModule resolution a) :
    Settled runtimeModule resolution (callOf callee arguments) := by
  refine settled_of_children ?_ ?_
  · intro c hc
    rcases List.mem_cons.1 hc with rfl | hc
    · exact hcallee
    · exact harguments c (by simpa [Form.slots, Slot.parts] using hc)
  · have hrequired : (callOf callee arguments).requiredLiteral? = none := by
      have hnot : callee.isNamed "require" = false := by
        unfold isNamed
        rw [hname]
        rfl
      unfold Node.requiredLiteral?
      split
      case h_1 form callee' argument hform =>
        cases hform
        split
        case h_1 => rw [hnot]; rfl
        case h_2 => rfl
      case h_2 => rfl
    have hform : (callOf callee arguments).form =
        .callExpression (some callee) arguments false := rfl
    unfold rewriteNode
    rw [hform]
    dsimp only
    rw [hrequired, ite_self]

theorem settled_call (entry : Text) {arguments : List Node}
    (h : ∀ a ∈ arguments, Settled runtimeModule resolution a) :
    Settled runtimeModule resolution (Registry.call entry arguments) :=
  settled_callOf (settled_memberPath (settled_identifier _) _) rfl h

/-- The declaration of a constant is settled if its value is. -/
theorem settled_constant (name : Text) {value : Node}
    (h : Settled runtimeModule resolution value) :
    Settled runtimeModule resolution (constant name (some value)) := by
  refine settled_of_children ?_ rfl
  intro c hc
  rw [List.mem_singleton.1 hc]
  refine settled_of_children ?_ rfl
  intro d hd
  rcases List.mem_cons.1 hd with rfl | hd
  · exact settled_identifier name
  · rw [List.mem_singleton.1 hd]
    exact h

theorem settled_importOf {specifier : Node} (h : Settled runtimeModule resolution specifier)
    (source : Value) : Settled runtimeModule resolution (importOf specifier source) := by
  refine settled_of_children ?_ rfl
  intro c hc
  rcases List.mem_cons.1 hc with rfl | hc
  · exact h
  · rw [List.mem_singleton.1 hc]
    exact settled_literal source

theorem settled_asStatement_call (entry : Text) {arguments : List Node}
    (h : ∀ a ∈ arguments, Settled runtimeModule resolution a) :
    Settled runtimeModule resolution (asStatement (Registry.call entry arguments)) := by
  refine settled_of_children ?_ rfl
  intro c hc
  rw [List.mem_singleton.1 hc]
  exact settled_call entry h

/-! ## Modules -/

/-- Rewriting a module whose statements in front are settled rewrites those behind them. -/
theorem passes_rewriteM_program {n : Node} {front body : List Node}
    (hform : n.form = .program (front ++ body))
    (hfront : ∀ c ∈ front, Settled runtimeModule resolution c) (r : Rewriting)
    (hr : HasObject names r) :
    let out := (n.rewriteM (rule runtimeModule resolution)).run r
    out.1 ≠ .removed ∧
      Passed (HasObject names)
        (fun n' => ∃ rest, n' = n.withForm (.program (front ++ rest)) ∧
          ComesFrom (StemsFrom (names.freshName "__cjs")) body rest) r out.1 out.2 := by
  have hdescend := passes_descend_program hform StemsFrom.refl StemsFrom.emptyStatement hfront
    (fun c _ => passes_rewriteM c) r hr
  have hkept := descend_ne_removed n (n.childPasses (rule runtimeModule resolution)) r
  dsimp only
  rw [rewriteM_eq, run_rule]
  generalize (descend n (n.childPasses (rule runtimeModule resolution))).run r = out
    at hdescend hkept ⊢
  obtain ⟨outcome, r'⟩ := out
  -- Nothing is to be done at a module itself.
  have hmodule : ∀ m : Node, ∀ stmts, m.form = .program stmts →
      rewriteNode runtimeModule resolution m = Pure.pure .same := by
    intro m stmts hm
    unfold rewriteNode
    rw [hm]
  cases outcome with
  | removed => exact absurd rfl hkept
  | same =>
    dsimp only [Outcome.item?]
    rw [hmodule n _ hform]
    exact ⟨hkept, hdescend⟩
  | replaced n' =>
    obtain ⟨rest, rfl, hfrom⟩ := hdescend.replaced n' rfl
    dsimp only [Outcome.item?]
    rw [hmodule (n.withForm _) _ rfl]
    exact ⟨hkept, hdescend⟩

end Rewriting

/-- A module whose statements in front are settled is rewritten behind them. The declaration of the
object comes first, if there was need for it. -/
theorem Rewritten.ofProgram_spec (moduleId : Text) (runtimeModule : Bool) (resolution : Resolution)
    (names : Names) {program : Node} {front body : List Node}
    (hform : program.form = .program (front ++ body))
    (hfront : ∀ c ∈ front, Rewriting.Settled runtimeModule resolution c) :
    let rewritten := Rewritten.ofProgram moduleId runtimeModule resolution names program
    HasObject names rewritten.rewriting ∧
      ∃ rest, ComesFrom (StemsFrom (names.freshName "__cjs")) body rest ∧
        (rewritten.outcome.item? program).getD program =
          program.withForm (.program
            (rewritten.rewriting.boundary.toList.map (Registry.boundary · moduleId) ++
              front ++ rest)) := by
  have hinitial : HasObject names { names } := ⟨.refl names, fun x hx => nomatch hx⟩
  obtain ⟨hkept, hpassed⟩ := Rewriting.passes_rewriteM_program hform hfront _ hinitial
  dsimp only
  unfold Rewritten.ofProgram
  generalize (program.rewriteM (Rewriting.rule runtimeModule resolution)).run { names } = out
    at hkept hpassed ⊢
  obtain ⟨outcome, r⟩ := out
  refine ⟨hpassed.invariant, ?_⟩
  cases outcome with
  | removed => exact absurd rfl hkept
  | same =>
    have hr : r = { names } := hpassed.same rfl
    subst hr
    refine ⟨body, fun c hc => ⟨c, hc, .refl c⟩, ?_⟩
    obtain ⟨loc, form⟩ := program
    rw [show form = .program (front ++ body) from hform]
    rfl
  | replaced n =>
    obtain ⟨rest, rfl, hfrom⟩ := hpassed.replaced n rfl
    refine ⟨rest, hfrom, ?_⟩
    obtain ⟨names', boundary, redirects⟩ := r
    cases boundary with
    | none => rfl
    | some x => rfl

end ModuleLowering
