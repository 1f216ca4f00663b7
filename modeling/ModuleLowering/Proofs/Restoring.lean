import ModuleLowering.Proofs.Publishing

/-!
# Getting a CommonJS module back

Off the registry a rewritten module is the module and its publications: without the declaration of
the object, and with every assignment by way of the object cut short, it is the module again. No
assignment of the module itself can be taken for one by way of the object, because the name of the
object does not occur in the module.
-/

set_option autoImplicit false

namespace ModuleLowering

open Node

namespace Node

/-- What an assignment to a member of the exports of the object named `boundary` assigns. -/
def mirroredValue? (boundary : Text) (n : Node) : Option (Option Node) :=
  match n.form with
  | .assignmentExpression operator (some slot) value =>
    if operator = "=" && (slot.readFrom? boundary "exports").isSome then some value else none
  | _ => none

/-- A node with the restored parts that `form` holds: `x = boundary.exports.n = e` becomes
`x = e`. -/
def restoredNode (boundary : Text) (n : Node) (form : Form Node) : Node :=
  match form with
  | .assignmentExpression operator left (some value) =>
    match if operator = "=" then value.mirroredValue? boundary else none with
    | some value => n.withForm (.assignmentExpression operator left value)
    | none => n.withForm form
  | form => n.withForm form

/-- A tree without the assignments by way of the object named `boundary`. -/
def restored (boundary : Text) (n : Node) : Node := n.fold (restoredNode boundary)

/-- A rewritten module without its object, if it has one. -/
def undone (boundary : Option Text) (module : Node) : Node :=
  match boundary with
  | none => module
  | some b => (module.withForm (.program module.statements.tail)).restored b

/-! ## Assignments by way of the object -/

theorem mem_children_of_staticMember? {n object : Node} {name : Text}
    (h : n.staticMember? = some (object, name)) : object ∈ n.children := by
  unfold staticMember? at h
  split at h
  case h_1 object' member hform =>
    obtain ⟨_, -, hpair⟩ := Option.map_eq_some_iff.1 h
    cases hpair
    simp [children, hform, Form.parts, Form.slots, Slot.parts]
  case h_2 => cases h

theorem mem_names_of_readFrom? {object member name : Text} {n : Node}
    (h : n.readFrom? object member = some name) : object ∈ n.names := by
  unfold readFrom? at h
  split at h
  case h_1 => cases h
  case h_2 outer x hstatic =>
    split at h
    case h_1 => cases h
    case h_2 inner m hinner =>
      split at h
      case isTrue hread =>
        have hname : inner.name? = some object := of_decide_eq_true (Bool.and_eq_true_iff.1 hread).1
        exact mem_names_of_mem_children (mem_children_of_staticMember? hstatic)
          (mem_names_of_mem_children (mem_children_of_staticMember? hinner)
            (mem_names_of_name? hname))
      case isFalse => cases h

/-- No assignment goes by way of an object whose name does not occur. -/
theorem mirroredValue?_eq_none {boundary : Text} {n : Node} (h : boundary ∉ n.names) :
    n.mirroredValue? boundary = none := by
  unfold mirroredValue?
  split
  case h_1 operator slot value hform =>
    have hslot : slot ∈ n.children := by
      simp [children, hform, Form.parts, Form.slots, Slot.parts]
    have hread : slot.readFrom? boundary "exports" = none := by
      cases hslot' : slot.readFrom? boundary "exports" with
      | none => rfl
      | some name =>
        exact absurd (mem_names_of_mem_children hslot (mem_names_of_readFrom? hslot')) h
    simp [hread]
  case h_2 => rfl

theorem restoredNode_eq {boundary : Text} (n : Node) {form : Form Node}
    (h : ∀ c ∈ form.parts, c.mirroredValue? boundary = none) :
    restoredNode boundary n form = n.withForm form := by
  unfold restoredNode
  split
  case h_1 operator left value =>
    have hvalue : value.mirroredValue? boundary = none :=
      h value (by simp [Form.parts, Form.slots, Slot.parts])
    rw [hvalue, ite_self]
  case h_2 => rfl

variable {d : Redirection}

theorem mirroredValue?_mirror (name : Text) (value : Option Node) :
    (d.mirror name value).mirroredValue? d.boundary = some value := by
  have hread : (d.slot name).readFrom? d.boundary "exports" = some name := by
    unfold readFrom? Redirection.slot
    show (if (identifier d.boundary).isNamed d.boundary && _ then some name else none) = _
    simp [isNamed, name?, identifier, made, form]
  show (if _ && ((d.slot name).readFrom? d.boundary "exports").isSome then some value else none) = _
  rw [hread]
  rfl

/-- An assignment by way of the object is cut short. -/
theorem restoredNode_mirror (n : Node) (name : Text) (left value : Option Node) :
    restoredNode d.boundary n (.assignmentExpression "=" left (some (d.mirror name value))) =
      n.withForm (.assignmentExpression "=" left value) := by
  simp only [restoredNode, if_true, mirroredValue?_mirror]

/-! ## Restoring a tree -/

/-- Restoring takes back what was changed in a tree in which the name of the object does not
occur. -/
theorem restored_redirected (hmode : d.onRegistry = false) {n : Node}
    (hfresh : d.boundary ∉ n.names) : (n.redirected d).restored d.boundary = n := by
  induction n using induction_children with
  | step n ih =>
    have hchildren : ∀ c ∈ n.children, (c.redirected d).restored d.boundary = c := by
      intro c hc
      exact ih c hc fun hname => hfresh (mem_names_of_mem_children hc hname)
    have hvalues : ∀ c ∈ n.children, c.mirroredValue? d.boundary = none := by
      intro c hc
      exact mirroredValue?_eq_none fun hname => hfresh (mem_names_of_mem_children hc hname)
    cases hn : d.redirect? n with
    | none =>
      have hparts : foldForm (restoredNode d.boundary) (foldForm d.node n.form) = n.form := by
        rw [foldForm_foldForm]
        refine (foldForm_congr ?_).trans (foldForm_self n.form)
        intro c hc
        have hrestored := hchildren c hc
        unfold restored redirected at hrestored
        simpa only [fold_const] using hrestored
      rw [redirected_of_none hn, restored, fold_eq]
      show restoredNode d.boundary _ (foldForm _ (foldForm d.node n.form)) = n
      rw [hparts, restoredNode_eq _ hvalues]
      exact withForm_self n
    | some redirect =>
      cases redirect with
      | required specifier path =>
        have hregistry := (requiredLiteral?_of_required hn).1
        exact absurd (hregistry.symm.trans hmode) (by simp)
      | published name =>
        obtain ⟨left, right, hform, -⟩ := form_of_assignedSlot? (assignedSlot?_of_published hn)
        have hparts : n.children = left :: right.toList := by
          simp [children, hform, Form.parts, Form.slots, Slot.parts]
        rw [hparts] at hchildren hvalues
        have hleft : (left.redirected d).restored d.boundary = left :=
          hchildren left List.mem_cons_self
        have hright : (right.map (redirected d)).map (restored d.boundary) = right := by
          cases right with
          | none => rfl
          | some e => exact congrArg some (hchildren e (by simp))
        -- The assigned value is no assignment by way of the object, so the one that has been put
        -- in stays until the node itself is restored.
        have hmirror : (d.mirror name (right.map (redirected d))).restored d.boundary =
            d.mirror name right := by
          have hslot : (d.slot name).restored d.boundary = d.slot name := rfl
          rw [restored, fold_eq]
          show restoredNode d.boundary _ (.assignmentExpression "="
            (some ((d.slot name).restored d.boundary)) (foldPart _ (right.map (redirected d)))) = _
          rw [foldPart_eq_map, hslot]
          show restoredNode d.boundary _ (.assignmentExpression "=" (some (d.slot name))
            ((right.map (redirected d)).map (restored d.boundary))) = _
          rw [hright, restoredNode_eq]
          · rfl
          · intro c hc
            rcases List.mem_cons.1 (show c ∈ d.slot name :: right.toList by
              simpa [Form.parts, Form.slots, Slot.parts] using hc) with rfl | hc
            · rfl
            · exact hvalues c (List.mem_cons_of_mem left hc)
        rw [redirected_of_published hn hform, restored, fold_eq]
        show restoredNode d.boundary _ (.assignmentExpression "="
          (some ((left.redirected d).restored d.boundary))
          (some ((d.mirror name (right.map (redirected d))).restored d.boundary))) = n
        rw [hmirror, hleft, restoredNode_mirror]
        show n.withForm (.assignmentExpression "=" (some left) right) = n
        rw [← hform, withForm_self]

end Node

/-! ## Restoring a module -/

namespace Rewritten

/-- Off the registry every change publishes something. -/
theorem isPublished_of_mem_redirects {d : Redirection} (hmode : d.onRegistry = false) {n : Node}
    {redirect : Redirect} (h : redirect ∈ n.redirects d) : redirect.isPublished = true := by
  induction n using induction_children with
  | step n ih =>
    rw [redirects_eq] at h
    rcases List.mem_append.1 h with hbelow | hn
    · obtain ⟨c, hc, hredirect⟩ := List.mem_flatMap.1 hbelow
      exact ih c hc hredirect
    · cases redirect with
      | published name => rfl
      | required specifier path =>
        have hregistry := (requiredLiteral?_of_required (Option.mem_toList.1 hn)).1
        exact absurd (hregistry.symm.trans hmode) (by simp)

/-- Off the registry a rewritten module without placeholders is the module again when its object is
taken out of it. The declaration of the object comes first. -/
theorem undone_ofProgram (moduleId : Text) (resolution : Resolution) {program : Node}
    {body : List Node} (hform : program.form = .program body)
    (hvalid : ∀ n ∈ program.walk, n.isInvalid = false) :
    let rewritten := Rewritten.ofProgram moduleId false resolution (.ofProgram program) program
    ∃ module, rewritten.outcome.item? program = some module ∧
      (∀ b ∈ rewritten.rewriting.boundary,
        module.statements.head? = some (Registry.boundary b moduleId)) ∧
      module.undone rewritten.rewriting.boundary = program := by
  intro rewritten
  obtain ⟨d, hd⟩ : ∃ d, d = Rewriting.redirection false resolution (.ofProgram program) := ⟨_, rfl⟩
  have hmode : d.onRegistry = false := by
    rw [hd]
    rfl
  have hfresh : d.boundary ∉ program.names := by
    rw [hd]
    exact (Names.ofProgram program).freshName_notMem "__cjs"
  obtain ⟨hitem, hobject, hredirects⟩ := ofProgram_eq hd moduleId hform hvalid
  refine ⟨_, hitem, ?_⟩
  rw [hobject]
  unfold Rewriting.front
  by_cases hexported : 0 < rewritten.rewriting.exported
  · rw [if_pos hexported, if_pos hexported]
    refine ⟨?_, ?_⟩
    · intro b hb
      cases hb
      rfl
    · show ((program.withForm (.program (body.map (redirected d)))).restored d.boundary) = program
      rw [← redirected_program hform, restored_redirected hmode hfresh]
  · rw [if_neg hexported, if_neg hexported]
    refine ⟨(fun b hb => nomatch hb), ?_⟩
    have hnone : program.redirects d = [] := by
      rw [← hredirects]
      apply List.eq_nil_iff_forall_not_mem.2
      intro redirect hmem
      have hpublished : redirect.isPublished = true :=
        isPublished_of_mem_redirects hmode (by rwa [← hredirects])
      exact hexported (List.countP_pos_iff.2 ⟨redirect, hmem, hpublished⟩)
    show program.withForm (.program (body.map (redirected d))) = program
    rw [← redirected_program hform, redirected_eq_self hnone]

/-- A module that uses the first choice for the name of its object itself is restored. -/
theorem undone_nested_slots :
    ∃ (source : Text) (program module : Node), Node.ofSource source = .ok program ∧
      module.statements.head? = some (Registry.boundary "__cjs1" "main") ∧
      module.undone (some "__cjs1") = program := by
  have htest : parsesTo
      "const __cjs = 1; exports.a = exports.b = () => module.exports = __cjs.exports.a = 2;"
      (fun program =>
        program.walk.all (fun n => !n.isInvalid) &&
          (Rewritten.ofProgram "main" false ⟨none, []⟩ (.ofProgram program)
            program).rewriting.boundary = some "__cjs1") = true := by
    decide +kernel
  obtain ⟨program, body, hprogram, hform, hchecks⟩ := exists_of_parsesTo htest
  obtain ⟨hwalk, hboundary⟩ := Bool.and_eq_true_iff.1 hchecks
  have hvalid : ∀ n ∈ program.walk, n.isInvalid = false := by
    intro n hn
    simpa using List.all_eq_true.1 hwalk n hn
  obtain ⟨module, -, hhead, hundone⟩ := undone_ofProgram "main" ⟨none, []⟩ hform hvalid
  rw [of_decide_eq_true hboundary] at hhead hundone
  exact ⟨_, program, module, hprogram, hhead _ rfl, hundone⟩

end Rewritten

end ModuleLowering
