import ModuleLowering.Proofs.Items
import ModuleLowering.Proofs.Recording
import ModuleLowering.Proofs.Tracing
import ModuleLowering.Syntax.Parse.Module

/-!
# CommonJS modules publish every export slot

Rewriting a module without placeholders gives the changed module, and its notes are the changes in
the order in which they are made. Step by step: the test at a node whose parts have been rewritten
says what the test at the node itself would have said, so rewriting the node makes the one change
that is due there.
-/

set_option autoImplicit false

namespace ModuleLowering

open Node

namespace Rewriting

/-! ## One node -/

/-- Only the name of the object has been added, and it has been since something was published. -/
structure Consistent (names : Names) (r : Rewriting) : Prop where
  object : HasObject names r
  needed : r.boundary.isSome ↔ 0 < r.exported

/-- How a module is changed that has taken some names. -/
def redirection (runtimeModule : Bool) (resolution : Resolution) (names : Names) : Redirection :=
  ⟨runtimeModule, resolution, names.freshName "__cjs"⟩

variable {names : Names} {runtimeModule : Bool} {resolution : Resolution}

theorem consistent_initial (names : Names) : Consistent names { names } := by
  refine ⟨⟨.refl names, fun x hx => nomatch hx⟩, ?_⟩
  simp [exported]

theorem Consistent.boundary_eq {r : Rewriting} (h : Consistent names r) :
    r.boundary = if 0 < r.exported then some (names.freshName "__cjs") else none := by
  have hneeded := h.needed
  cases hboundary : r.boundary with
  | none => simp_all
  | some name =>
    rw [h.object.boundary name hboundary]
    simp_all

theorem rewriteNode_eq_same {n : Node} (hslot : n.assignedSlot? = none)
    (hrequired : runtimeModule = true → n.requiredLiteral? = none)
    (hvalid : ∀ c ∈ n.children, c.isInvalid = false) :
    rewriteNode runtimeModule resolution n = Pure.pure .same := by
  unfold rewriteNode
  split
  case h_1 e hform =>
    have he : e.isInvalid = false :=
      hvalid e (by simp [children, hform, Form.parts, Form.slots, Slot.parts])
    simp [he]
  case h_2 expressions hform =>
    have hkept : (expressions.filter fun e => !e.isInvalid) = expressions := by
      apply List.filter_eq_self.2
      intro e he
      have hvalid' := hvalid e (by simpa [children, hform, Form.parts, Form.slots, Slot.parts])
      simp [hvalid']
    simp [prunedSequence, hkept]
  case h_3 => rw [hslot]
  case h_4 =>
    cases runtimeModule with
    | false => rfl
    | true => simp [hrequired rfl]
  case h_5 => rfl

theorem run_rewriteNode_published {n : Node} {left right : Option Node} {operator name : Text}
    (hform : n.form = .assignmentExpression operator left right)
    (hslot : n.assignedSlot? = some name) (r : Rewriting) :
    (rewriteNode runtimeModule resolution n).run r =
      let out := boundaryName.run { r with redirects := r.redirects ++ [.published name] }
      (.replaced (mirrored n out.1 name left right), out.2) := by
  unfold rewriteNode
  rw [hform]
  dsimp only
  rw [hslot]
  rfl

theorem run_rewriteNode_required {n callee argument : Node} {specifier : Text}
    (hform : n.form = .callExpression (some callee) [argument] false)
    (hrequired : n.requiredLiteral? = some specifier) (r : Rewriting) :
    (rewriteNode true resolution n).run r =
      (.replaced (.mk n.loc (Registry.require (resolution.actualPath specifier)).form),
        { r with redirects :=
            r.redirects ++ [.required specifier (resolution.actualPath specifier)] }) := by
  unfold rewriteNode
  rw [hform]
  dsimp only [if_true]
  rw [hrequired]
  rfl

theorem redirects_boundaryName (r : Rewriting) :
    (boundaryName.run r).2.redirects = r.redirects ∧ (boundaryName.run r).2.boundary.isSome := by
  obtain ⟨names, boundary, redirects⟩ := r
  cases boundary with
  | none => exact ⟨rfl, rfl⟩
  | some x => exact ⟨rfl, rfl⟩

/-- Rewriting a node whose parts have been changed makes the change that is due there. -/
theorem turns_rewriteNode {d : Redirection} (hd : d = redirection runtimeModule resolution names)
    {n : Node} (hvalid : ∀ c ∈ n.children, c.isInvalid = false) :
    Turns (Consistent names) redirects (rewriteNode runtimeModule resolution (n.partsRedirected d))
      (n.partsRedirected d) (n.redirected d) (d.redirect? n).toList := by
  intro r hr
  cases h : d.redirect? n with
  | none =>
    obtain ⟨hslot, hrequired⟩ := tests_of_redirect?_eq_none h
    have hparts : ∀ c ∈ (n.partsRedirected d).children, c.isInvalid = false := by
      intro c hc
      rw [show (n.partsRedirected d).children = n.children.map (redirected d) from
        parts_foldForm d.node n.form] at hc
      obtain ⟨before, hbefore, rfl⟩ := List.mem_map.1 hc
      rw [isInvalid_redirected]
      exact hvalid before hbefore
    have hsame : rewriteNode runtimeModule resolution (n.partsRedirected d) = Pure.pure .same := by
      refine rewriteNode_eq_same ?_ ?_ hparts
      · rw [assignedSlot?_partsRedirected, hslot]
      · intro hmode
        rw [requiredLiteral?_partsRedirected]
        exact hrequired (by rw [hd]; exact hmode)
    rw [hsame, redirected_of_none h]
    exact ⟨rfl, hr, (List.append_nil _).symm, fun _ => rfl⟩
  | some redirect =>
    cases redirect with
    | published name =>
      have hslot := assignedSlot?_of_published h
      obtain ⟨left, right, hform, -⟩ := form_of_assignedSlot? hslot
      have hparts : (n.partsRedirected d).form = .assignmentExpression "="
          (some (left.redirected d)) (right.map (redirected d)) := by
        show foldForm d.node n.form = _
        rw [hform, foldForm, foldPart_eq_map, foldPart_eq_map]
        rfl
      have hadded : HasObject names { r with redirects := r.redirects ++ [.published name] } :=
        ⟨hr.object.allocated, hr.object.boundary⟩
      obtain ⟨hboundary, hobject⟩ := boundaryName_spec hadded
      obtain ⟨hredirects, hsome⟩ := redirects_boundaryName
        { r with redirects := r.redirects ++ [.published name] }
      rw [run_rewriteNode_published hparts (by rw [assignedSlot?_partsRedirected, hslot])]
      refine .of_replaced ?_ ⟨hobject, ?_⟩ hredirects
      · rw [redirected_of_published h hform, hboundary, hd]
        rfl
      · simp [hsome, exported, hredirects, Redirect.isPublished]
    | required specifier path =>
      obtain ⟨hmode, hrequired, hpath⟩ := requiredLiteral?_of_required h
      obtain ⟨callee, argument, hform, -⟩ := form_of_requiredLiteral? hrequired
      have hparts : (n.partsRedirected d).form =
          .callExpression (some (callee.redirected d)) [argument.redirected d] false := by
        show foldForm d.node n.form = _
        rw [hform, foldForm, foldPart_eq_map, foldList_eq_map]
        rfl
      rw [hd] at hmode hpath
      cases (show runtimeModule = true from hmode)
      rw [run_rewriteNode_required hparts (by rw [requiredLiteral?_partsRedirected, hrequired])]
      refine .of_replaced ?_ ⟨⟨hr.object.allocated, hr.object.boundary⟩, ?_⟩ ?_
      · rw [redirected_of_required h, hpath]
        rfl
      · have hneeded := hr.needed
        simpa [exported, Redirect.isPublished] using hneeded
      · rw [hpath]
        rfl

/-! ## A whole tree -/

/-- A node is rewritten after its parts. -/
theorem turns_rule {I : Rewriting → Prop} {n rebuilt n' : Node}
    {pass : StateM Rewriting Node.Outcome} {ws ws' : List Redirect}
    (h : Turns I redirects pass n rebuilt ws)
    (k : Turns I redirects (rewriteNode runtimeModule resolution rebuilt) rebuilt n' ws') :
    Turns I redirects (rule runtimeModule resolution n pass) n n' (ws ++ ws') := by
  intro r hr
  obtain ⟨hitem, hmid, hlog, hsame⟩ := h r hr
  obtain ⟨hitem', hafter, hlog', hsame'⟩ := k _ hmid
  rw [run_rule, hitem]
  dsimp only
  refine ⟨?_, hafter, by rw [hlog', hlog, List.append_assoc], ?_⟩
  · cases hout : ((rewriteNode runtimeModule resolution rebuilt).run (pass.run r).2).1 with
    | same =>
      rw [hout] at hitem'
      cases hitem'
      exact hitem
    | replaced m =>
      rw [hout] at hitem'
      exact hitem'
    | removed =>
      rw [hout] at hitem'
      cases hitem'
  · intro ho
    cases hout : ((rewriteNode runtimeModule resolution rebuilt).run (pass.run r).2).1 with
    | same =>
      rw [hout] at ho
      rw [hsame' hout, hsame ho]
    | replaced m =>
      rw [hout] at ho
      cases ho
    | removed =>
      rw [hout] at ho
      cases ho

/-- Rewriting a tree without placeholders changes what is to be changed, and notes the changes. -/
theorem turns_rewriteM {d : Redirection} (hd : d = redirection runtimeModule resolution names)
    {n : Node} (hvalid : ∀ m ∈ n.walk, m.isInvalid = false) :
    Turns (Consistent names) redirects (n.rewriteM (rule runtimeModule resolution)) n
      (n.redirected d) (n.redirects d) := by
  induction n using induction_children with
  | step n ih =>
    have hbelow : ∀ c ∈ n.children, ∀ m ∈ c.walk, m ∈ n.walk := by
      intro c hc m hm
      rw [walk_eq_cons]
      exact List.mem_cons_of_mem _ (List.mem_flatMap.2 ⟨c, hc, hm⟩)
    have hchildren : ∀ c ∈ n.children, c.isInvalid = false := by
      intro c hc
      refine hvalid c (hbelow c hc c ?_)
      rw [walk_eq_cons]
      exact List.mem_cons_self
    rw [rewriteM_eq, redirects_eq]
    refine turns_rule (turns_descend ?_ ?_) (turns_rewriteNode hd hchildren)
    · intro c hc
      exact ih c hc fun m hm => hvalid m (hbelow c hc m hm)
    · intro c hc hnone
      exact redirected_eq_self hnone

/-- There are as many changes that publish something as assignments to export slots. -/
theorem countP_redirects (d : Redirection) (n : Node) :
    (n.redirects d).countP Redirect.isPublished = (n.walk.filterMap assignedSlot?).length := by
  have hnode : ∀ n : Node, (d.redirect? n).toList.countP Redirect.isPublished =
      n.assignedSlot?.toList.length := by
    intro n
    cases h : d.redirect? n with
    | none => simp [(tests_of_redirect?_eq_none h).1]
    | some redirect =>
      cases redirect with
      | published name => simp [assignedSlot?_of_published h, Redirect.isPublished]
      | required specifier path =>
        obtain ⟨-, hrequired, -⟩ := requiredLiteral?_of_required h
        obtain ⟨callee, argument, hform, -⟩ := form_of_requiredLiteral? hrequired
        have hslot : n.assignedSlot? = none := by
          unfold assignedSlot?
          rw [hform]
        simp [hslot, Redirect.isPublished]
  induction n using induction_children with
  | step n ih =>
    have hcons : ∀ ns : List Node, ((n :: ns).filterMap assignedSlot?).length =
        (ns.filterMap assignedSlot?).length + n.assignedSlot?.toList.length := by
      intro ns
      rw [List.filterMap_cons]
      cases n.assignedSlot? <;> simp
    rw [redirects_eq, List.countP_append, hnode, walk_eq_cons, hcons, List.countP_flatMap,
      List.filterMap_flatMap, List.length_flatMap]
    congr 2
    exact List.map_congr_left ih

/-- The name of the object does not occur apart in what a tree of other names is changed to. -/
theorem notMem_declaredNames_redirected {d : Redirection}
    (hd : d = redirection runtimeModule resolution names) {n : Node}
    (hvalid : ∀ m ∈ n.walk, m.isInvalid = false) (hfresh : d.boundary ∉ n.names) :
    d.boundary ∉ (n.redirected d).declaredNames := by
  have hturned := turns_rewriteM hd hvalid { names } (consistent_initial names)
  have hpassed := (passes_rewriteM n : Passes (HasObject names) _
    (n.rewriteM (rule runtimeModule resolution))) { names } (consistent_initial names).object
  have hstems : StemsFrom d.boundary n (n.redirected d) := by
    have hitem := hturned.item
    cases hout : ((n.rewriteM (rule runtimeModule resolution)).run { names }).1 with
    | same =>
      rw [hout] at hitem
      rw [← Option.some.inj hitem]
      exact .refl n
    | replaced m =>
      rw [hout] at hitem
      rw [← Option.some.inj hitem, hd]
      exact hpassed.replaced m hout
    | removed =>
      rw [hout] at hitem
      cases hitem
  intro hdeclared
  rcases hstems _ (alone_of_mem_declaredNames hdeclared) with hold | hglobal | hobject | hmember
  · exact hfresh hold
  · cases hglobal
  · cases hobject
  · cases hmember.1

end Rewriting

/-! ## A whole module -/

/-- The statements in front of a rewritten module: the declaration of the object, if something is
published. -/
def Rewriting.front (moduleId : Text) (d : Redirection) (r : Rewriting) : List Node :=
  if 0 < r.exported then [Registry.boundary d.boundary moduleId] else []

/-- What it means that `module`, made of `program`, publishes every export slot. -/
structure Publishes (moduleId : Text) (d : Redirection) (program module : Node) (r : Rewriting) :
    Prop where
  /-- Behind the declaration of the object each statement is changed throughout. -/
  statements : module = program.withForm
    (.program (r.front moduleId d ++ program.statements.map (redirected d)))
  /-- The object is named if something is published. -/
  object : r.boundary = if 0 < r.exported then some d.boundary else none
  /-- No other statement declares the object. -/
  once : d.boundary ∉ program.names →
    ∀ s ∈ program.statements, d.boundary ∉ (s.redirected d).declaredNames
  /-- The same export slots are assigned as before, in the same order. -/
  slots : module.walk.filterMap assignedSlot? = program.walk.filterMap assignedSlot?
  /-- As many assignments are counted as there are. -/
  exported : r.exported = (module.walk.filterMap assignedSlot?).length
  /-- Each of them, at any depth, assigns what is assigned to the slot of the object. -/
  mirrored : ∀ n ∈ module.walk, n.Mirrored d
  /-- On the registry no call requires a module by a literal; the registry is asked instead. -/
  required : d.onRegistry = true → (∀ n ∈ module.walk, n.requiredLiteral? = none) ∧
    module.walk.filterMap registryPath? = program.walk.filterMap fun n =>
      (n.requiredLiteral?.map d.resolution.actualPath).or n.registryPath?
  /-- Elsewhere all such calls stay. -/
  kept : d.onRegistry = false →
    module.walk.filter (fun n => n.requiredLiteral?.isSome) =
      program.walk.filter fun n => n.requiredLiteral?.isSome

namespace Node

/-- Whether a text is a module that passes a test. -/
def parsesTo (source : Text) (test : Node → Bool) : Bool :=
  match Node.ofSource source with
  | .error _ => false
  | .ok program =>
    match program.form with
    | .program _ => test program
    | _ => false

theorem exists_of_parsesTo {source : Text} {test : Node → Bool}
    (h : parsesTo source test = true) :
    ∃ program body, Node.ofSource source = .ok program ∧ program.form = .program body ∧
      test program = true := by
  unfold parsesTo at h
  split at h
  case h_1 => cases h
  case h_2 program hprogram =>
    split at h
    case h_1 body hform => exact ⟨program, body, hprogram, hform, h⟩
    case h_2 => cases h

end Node

namespace Rewritten

variable {names : Names} {runtimeModule : Bool} {resolution : Resolution}

/-- A module is changed throughout, and the object is declared in front if something is published.
-/
theorem ofProgram_eq {d : Redirection}
    (hd : d = Rewriting.redirection runtimeModule resolution names) (moduleId : Text)
    {program : Node} {body : List Node} (hform : program.form = .program body)
    (hvalid : ∀ n ∈ program.walk, n.isInvalid = false) :
    let rewritten := Rewritten.ofProgram moduleId runtimeModule resolution names program
    rewritten.outcome.item? program = some (program.withForm
        (.program (rewritten.rewriting.front moduleId d ++ body.map (redirected d)))) ∧
      rewritten.rewriting.boundary =
        (if 0 < rewritten.rewriting.exported then some d.boundary else none) ∧
      rewritten.rewriting.redirects = program.redirects d := by
  have hprogram := redirected_program (d := d) hform
  obtain ⟨hitem, hconsistent, hlog, hsame⟩ :=
    Rewriting.turns_rewriteM hd hvalid { names } (Rewriting.consistent_initial names)
  rw [hprogram] at hitem
  dsimp only
  unfold Rewritten.ofProgram Rewriting.front
  generalize (program.rewriteM (Rewriting.rule runtimeModule resolution)).run { names } = out
    at hitem hconsistent hlog hsame ⊢
  obtain ⟨outcome, r⟩ := out
  dsimp only at hitem hconsistent hlog hsame ⊢
  have hboundary : r.boundary = if 0 < r.exported then some d.boundary else none := by
    rw [hd]
    exact hconsistent.boundary_eq
  refine ⟨?_, hboundary, hlog⟩
  by_cases hexported : 0 < r.exported
  · rw [if_pos hexported] at hboundary ⊢
    cases outcome with
    | same =>
      -- Nothing has been done, so there is no object.
      rw [hsame rfl] at hboundary
      cases hboundary
    | replaced m =>
      cases hitem
      unfold withBoundary
      rw [hboundary]
      rfl
    | removed => cases hitem
  · rw [if_neg hexported] at hboundary ⊢
    unfold withBoundary
    rw [hboundary]
    exact hitem

/-- What a test finds in a rewritten module is what it finds behind the declaration of the object.
-/
theorem filterMap_walk_module {α : Type} {d : Redirection} {t u : Node → Option α}
    (h : Traces d t u) (moduleId : Text) (r : Rewriting) {program : Node} {body : List Node}
    (hform : program.form = .program body) :
    (program.withForm (.program (r.front moduleId d ++ body.map (redirected d)))).walk.filterMap t =
      program.walk.filterMap u := by
  have hwalk : ∀ statements, (program.withForm (.program statements)).walk.filterMap t =
      (statements.flatMap walk).filterMap t := by
    intro statements
    have hchildren : (program.withForm (.program statements)).children = statements := by
      simp [children, withForm, form, Form.parts, Form.slots, Slot.parts]
    rw [walk_eq_cons, hchildren, List.filterMap_cons, h.module]
  have hfront : ((r.front moduleId d).flatMap walk).filterMap t = [] := by
    unfold Rewriting.front
    split
    · simpa using h.object moduleId
    · rfl
  rw [← h.filterMap_walk program, redirected_program hform, hwalk, hwalk, List.flatMap_append,
    List.filterMap_append, hfront, List.nil_append]

/-- A module without placeholders that is rewritten publishes every export slot by way of a new
object. -/
theorem ofProgram_publishes (moduleId : Text) (runtimeModule : Bool) (resolution : Resolution)
    (names : Names) {program : Node} {body : List Node} (hform : program.form = .program body)
    (hvalid : ∀ n ∈ program.walk, n.isInvalid = false) :
    let d := Rewriting.redirection runtimeModule resolution names
    let rewritten := Rewritten.ofProgram moduleId runtimeModule resolution names program
    d.boundary ∉ names.taken ∧ ∃ module, rewritten.outcome.item? program = some module ∧
      Publishes moduleId d program module rewritten.rewriting := by
  intro d rewritten
  have hboundary : d.boundary ≠ "module" := by
    intro h
    have hprefix : ("__cjs" : Text) <+: d.boundary := names.base_prefix_freshName "__cjs"
    rw [h] at hprefix
    exact absurd hprefix (by decide)
  have hstatements : program.statements = body := by
    unfold statements
    rw [hform]
  have hchildren : program.children = body := by
    simp [children, hform, Form.parts, Form.slots, Slot.parts]
  obtain ⟨hitem, hobject, hredirects⟩ := ofProgram_eq (d := d) rfl moduleId hform hvalid
  have hslots := filterMap_walk_module (traces_assignedSlot? hboundary) moduleId
    rewritten.rewriting hform
  refine ⟨names.freshName_notMem "__cjs", _, hitem, ?_⟩
  refine ⟨by rw [hstatements], hobject, ?_, hslots, ?_, ?_, ?_, ?_⟩
  · intro hfresh s hs
    rw [hstatements, ← hchildren] at hs
    refine Rewriting.notMem_declaredNames_redirected rfl ?_ ?_
    · intro m hm
      refine hvalid m ?_
      rw [walk_eq_cons]
      exact List.mem_cons_of_mem _ (List.mem_flatMap.2 ⟨s, hs, hm⟩)
    · exact fun hname => hfresh (mem_names_of_mem_children hs hname)
  · show rewritten.rewriting.exported = _
    rw [hslots, ← Rewriting.countP_redirects d program, ← hredirects]
    rfl
  · intro n hn
    have hnone := filterMap_walk_module (traces_not_mirrored hboundary) moduleId
      rewritten.rewriting hform
    rw [List.filterMap_none, List.filterMap_eq_nil_iff] at hnone
    by_contra hnot
    have hslot := hnone n hn
    rw [if_neg hnot] at hslot
    refine hnot fun name hname => ?_
    cases hslot.symm.trans hname
  · intro hmode
    have hnone := filterMap_walk_module (traces_requiredLiteral? hmode) moduleId
      rewritten.rewriting hform
    rw [List.filterMap_none, List.filterMap_eq_nil_iff] at hnone
    exact ⟨hnone, filterMap_walk_module (traces_registryPath? hmode) moduleId rewritten.rewriting
      hform⟩
  · intro hmode
    have hkept := filterMap_walk_module (traces_requires hmode) moduleId rewritten.rewriting hform
    rwa [List.filterMap_eq_filter] at hkept

/-- Slots in the values of slots and in functions are published, and modules required there come
from the registry. -/
theorem publishes_nested_slots :
    ∃ source program module r, Node.ofSource source = .ok program ∧ r.exported = 4 ∧
      Publishes "main" (Rewriting.redirection true ⟨none, [("x", "lib/x.js")]⟩ (.ofProgram program))
        program module r := by
  have htest : parsesTo
      "module.exports = exports.a = b => (exports.c = require('x'), module.exports.d = b);"
      (fun program =>
        program.walk.all (fun n => !n.isInvalid) &&
          (Rewritten.ofProgram "main" true ⟨none, [("x", "lib/x.js")]⟩ (.ofProgram program)
            program).rewriting.exported = 4) = true := by
    decide +kernel
  obtain ⟨program, body, hprogram, hform, hchecks⟩ := exists_of_parsesTo htest
  obtain ⟨hwalk, hexported⟩ := Bool.and_eq_true_iff.1 hchecks
  have hvalid : ∀ n ∈ program.walk, n.isInvalid = false := by
    intro n hn
    simpa using List.all_eq_true.1 hwalk n hn
  obtain ⟨-, module, -, hpublishes⟩ := ofProgram_publishes "main" true
    ⟨none, [("x", "lib/x.js")]⟩ (.ofProgram program) hform hvalid
  exact ⟨_, program, module, _, hprogram, of_decide_eq_true hexported, hpublishes⟩

end Rewritten

end ModuleLowering
