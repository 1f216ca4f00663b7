import ModuleLowering.Proofs.WellFormed

/-!
# Printing well-formed trees

A printer has to refuse a tree that no text stands for. It never refuses a well-formed one: for
every kind of place it is said what the printer asks of a node there, and each node that may stand
in a place of that kind answers.
-/

set_option autoImplicit false

namespace ModuleLowering

namespace Printing

variable {α β : Type} {p : Printing α} {f : α → Printing β}

theorem bind_eq_ok {b : β} : (p >>= f) = .ok b ↔ ∃ a, p = .ok a ∧ f a = .ok b := by
  cases p with
  | error e => exact ⟨nofun, fun ⟨a, ha, _⟩ => nomatch ha⟩
  | ok a => exact ⟨fun h => ⟨a, rfl, h⟩, fun ⟨a', ha, h⟩ => by cases ha; exact h⟩

theorem map_eq_ok {g : α → β} {b : β} : p.map g = .ok b ↔ ∃ a, p = .ok a ∧ g a = b := by
  cases p with
  | error e => exact ⟨nofun, fun ⟨a, ha, _⟩ => nomatch ha⟩
  | ok a => exact ⟨fun h => ⟨a, rfl, Except.ok.inj h⟩, fun ⟨a', ha, h⟩ => by cases ha; cases h; rfl⟩

end Printing

/-! ## Success -/

/-- Whether something can be printed. -/
def Printing.Succeeds {α : Type} (p : Printing α) : Prop := ∃ a, p = .ok a

namespace Printing.Succeeds

variable {α β : Type} {p q : Printing α} {f : α → Printing β}

theorem pure {a : α} : Succeeds (Pure.pure a) := ⟨a, rfl⟩

theorem bind (h : Succeeds p) (hf : ∀ a, Succeeds (f a)) : Succeeds (p >>= f) := by
  obtain ⟨a, rfl⟩ := h
  exact hf a

theorem bindOk {a : α} (hp : p = .ok a) (hf : Succeeds (f a)) : Succeeds (p >>= f) := by
  rw [hp]
  exact hf

/-- What is printed first is printed. -/
theorem of_bind (h : Succeeds (p >>= f)) : Succeeds p := by
  obtain ⟨b, hb⟩ := h
  cases p with
  | error e => cases hb
  | ok a => exact pure

theorem map {g : α → β} (h : Succeeds p) : Succeeds (p.map g) := by
  obtain ⟨a, rfl⟩ := h
  exact pure

theorem ite {c : Prop} [Decidable c] (h : c → Succeeds p) (h' : ¬c → Succeeds q) :
    Succeeds (if c then p else q) := by
  split
  · exact h ‹_›
  · exact h' ‹_›

theorem mapM {as : List α} (h : ∀ a ∈ as, Succeeds (f a)) : Succeeds (as.mapM f) := by
  induction as with
  | nil => exact pure
  | cons a as ih =>
    rw [List.mapM_cons]
    obtain ⟨ha, has⟩ := List.forall_mem_cons.1 h
    exact bind ha fun _ => bind (ih has) fun _ => pure

end Printing.Succeeds

open Printing (Succeeds)
open Print (bareText statementText)

namespace Node

/-! ## Printed parts -/

/-- What is printed of a node, its parts having been printed. -/
def printedOf (n : Node) (form : Form Printed) : Printed :=
  .mk n form (bareText n form) (statementText n form)

section

variable {β : Type} {ns : List Node} {f : Printed → Printing β} {c : Setting} {depth least : Nat}
  {n : Node}

theorem printed_eq (n : Node) : n.printed = printedOf n (foldForm printedOf n.form) := fold_eq _ _

theorem node_printed (n : Node) : n.printed.node = n := by
  rw [printed_eq]
  rfl

/-- Parts that can be printed one by one. -/
theorem succeeds_list (h : ∀ n ∈ ns, Succeeds (f n.printed)) :
    Succeeds ((foldList printedOf ns).mapM f) := by
  rw [foldList_eq_map]
  refine .mapM fun p hp => ?_
  obtain ⟨n, hn, rfl⟩ := List.mem_map.1 hp
  exact h n hn

/-! ## Expressions -/

/-- A node that can be printed as an expression, wherever it stands. -/
structure Shows (n : Node) : Prop where
  bare : ∀ c, Succeeds (n.printed.bare c)
  precedence : Succeeds n.precedence
  leftmost : Succeeds n.leftmost

/-- A statement has no text as an expression. -/
theorem Shows.isStatement_eq_false (h : n.Shows) : n.isStatement = false := by
  obtain ⟨t, ht⟩ := h.bare ⟨0, false⟩
  obtain ⟨loc, form⟩ := n
  cases form <;> first | rfl | cases ht

theorem succeeds_expression (h : n.Shows) :
    Succeeds (Print.expression c least (some n.printed)) := by
  refine .bind (h.bare c) fun text => ?_
  refine .bind (by rw [node_printed]; exact h.precedence) fun p => ?_
  exact .ite (fun _ => .pure) fun _ => .pure

theorem succeeds_items (h : ∀ n ∈ ns, n.Shows) : Succeeds (Print.items c (foldList printedOf ns)) :=
  .bind (succeeds_list fun n hn => succeeds_expression (h n hn)) fun _ => .pure

theorem succeeds_startsWith (h : n.Shows) (test : Node → Bool) :
    Succeeds (n.printed.node.startsWith test) := by
  rw [node_printed]
  exact h.leftmost.map

theorem succeeds_operand (h : n.Shows) (apart : Bool) :
    Succeeds (Print.operand c least apart (some n.printed)) :=
  .ite (fun _ => (h.bare c).map) fun _ => succeeds_expression h

/-- Only identifiers have names. -/
theorem exists_of_nameOf {part : Option Node} {x : Text}
    (h : Print.nameOf (foldPart printedOf part) = .ok x) :
    ∃ loc, part = some (.mk loc (.identifier x)) := by
  cases part with
  | none => cases h
  | some n =>
    obtain ⟨loc, form⟩ := n
    cases form
    case identifier =>
      cases h
      exact ⟨loc, rfl⟩
    all_goals cases h

/-- A node that names something. -/
structure Names (n : Node) : Prop extends n.Shows where
  name : ∃ x, n.name? = some x

theorem succeeds_nameOf (h : n.Names) : Succeeds (Print.nameOf (some n.printed)) := by
  obtain ⟨x, hx⟩ := h.name
  obtain ⟨loc, form⟩ := n
  cases form <;> cases hx
  exact ⟨_, rfl⟩

theorem succeeds_optionalName {id : Option Node} (h : ∀ x ∈ id, x.Names) :
    Succeeds (Print.optionalName (foldPart printedOf id)) := by
  cases id with
  | none => exact ⟨_, rfl⟩
  | some x => exact .bind (succeeds_nameOf (h x rfl)) fun _ => .pure

theorem succeeds_key (h : n.Shows) (computed : Bool) :
    Succeeds (Print.key c computed (some n.printed)) :=
  .ite (fun _ => .bind (succeeds_expression h) fun _ => .pure) fun _ => h.bare c

theorem succeeds_array {elements : List (Option Node)} (h : ∀ p ∈ elements, ∀ n ∈ p, n.Shows) :
    Succeeds (Print.array c (foldSparse printedOf elements)) := by
  rw [foldSparse_eq_map]
  refine .bind (.mapM fun p hp => ?_) fun _ => .pure
  obtain ⟨element, helement, rfl⟩ := List.mem_map.1 hp
  cases element with
  | none => exact ⟨_, rfl⟩
  | some n => exact succeeds_expression (h _ helement n rfl)

/-! ## Statements -/

/-- A node that can be printed as a statement, however deep. -/
def States (n : Node) : Prop := ∀ depth, Succeeds (n.printed.statement depth)

/-- A block that can be printed. -/
structure Encloses (n : Node) : Prop where
  form : ∃ body, n.form = .blockStatement body
  states : n.States

theorem succeeds_block (h : n.Encloses) : Succeeds (Print.block depth (some n.printed)) := by
  obtain ⟨⟨body, hform⟩, hstates⟩ := h
  obtain ⟨loc, form⟩ := n
  subst hform
  have hlines : Succeeds ((foldList printedOf body).mapM (Print.line (depth + 1))) :=
    (hstates depth).of_bind
  exact .bind hlines fun _ => .pure

theorem succeeds_line (h : n.States) : Succeeds (Print.line depth n.printed) :=
  .bind (h depth) fun _ => .pure

theorem succeeds_body (h : n.States) : Succeeds (Print.body depth (some n.printed)) := by
  have hline : Succeeds (do
      return "\n" ++ Print.indent (depth + 1) ++ (← n.printed.statement (depth + 1)) :
        Printing Text) :=
    .bind (h (depth + 1)) fun _ => .pure
  obtain ⟨loc, form⟩ := n
  cases form
  case blockStatement body => exact .bind (succeeds_block ⟨⟨body, rfl⟩, h⟩) fun _ => .pure
  case emptyStatement => exact ⟨_, rfl⟩
  all_goals exact hline

/-! ## Functions and classes -/

section

variable {id : Option Node} {params : List Node} {body : Node} {isAsync generator : Bool}

theorem succeeds_function (hid : ∀ x ∈ id, x.Names) (hparams : ∀ p ∈ params, p.Shows)
    (hbody : body.Encloses) :
    Succeeds (Print.function c depth (foldPart printedOf id) (foldList printedOf params)
      (some body.printed) isAsync generator) :=
  .bind (succeeds_optionalName hid) fun _ => .bind (succeeds_items hparams) fun _ =>
    .bind (succeeds_block hbody) fun _ => .pure

/-- A function that can be printed as a method under any name. -/
def Methods (n : Node) : Prop :=
  ∀ c depth computed kind name, Succeeds (Print.key c computed name) →
    Succeeds (Print.method c depth name computed (some n.printed) kind)

theorem methods_function {loc : Option Position} (hparams : ∀ p ∈ params, p.Shows)
    (hbody : body.Encloses) :
    (mk loc (.functionExpression none params (some body) isAsync generator)).Methods := by
  intro c depth computed kind name hname
  refine .bind (.ite (fun _ => .pure) fun _ => ⟨_, rfl⟩) fun _ => .bind hname fun _ => ?_
  refine .bindOk rfl (.bindOk rfl ?_)
  exact .bind (succeeds_items hparams) fun _ => .bind (succeeds_block hbody) fun _ => .pure

theorem isBlock_encloses (h : body.Encloses) : Print.isBlock (some body.printed) = true := by
  obtain ⟨⟨statements, hform⟩, -⟩ := h
  obtain ⟨loc, form⟩ := body
  subst hform
  rfl

theorem encloses_of_isBlock (h : Print.isBlock (some body.printed) = true) (hstates : body.States) :
    body.Encloses := by
  refine ⟨?_, hstates⟩
  obtain ⟨loc, form⟩ := body
  cases form <;> first | exact ⟨_, rfl⟩ | cases h

theorem isBlock_shows (h : body.Shows) : Print.isBlock (some body.printed) = false := by
  have hstatement := h.isStatement_eq_false
  obtain ⟨loc, form⟩ := body
  cases form <;> first | rfl | cases hstatement

theorem succeeds_arrow (hparams : ∀ p ∈ params, p.Shows) (hbody : body.Encloses ∨ body.Shows) :
    Succeeds (Print.arrow c (foldList printedOf params) (some body.printed) isAsync) := by
  have hrest (text : Text) : Succeeds (do
      let head := Print.mark isAsync "async " ++ text ++ " => "
      if Print.isBlock (some body.printed) then
        return head ++ (← Print.block c.depth (some body.printed))
      let text ← Print.item c (some body.printed)
      let opensBrace ← body.printed.node.startsWith Node.isObject
      return head ++ (if opensBrace then Print.parenthesized text else text) : Printing Text) := by
    rcases hbody with hbody | hbody
    · rw [if_pos (isBlock_encloses hbody)]
      exact .bind (succeeds_block hbody) fun _ => .pure
    · rw [isBlock_shows hbody, if_neg Bool.false_ne_true]
      refine .bind (succeeds_expression hbody) fun _ => ?_
      exact .bind (succeeds_startsWith hbody _) fun _ => .pure
  unfold Print.arrow
  dsimp only
  split
  · exact .bindOk rfl (hrest _)
  · exact .bind (succeeds_items hparams).map hrest

/-- A class member that can be printed, however deep. -/
def Joins (n : Node) : Prop := ∀ c depth, Succeeds (Print.classMember c depth n.printed)

theorem succeeds_class {superclass : Option Node} {members : List Node} (hid : ∀ x ∈ id, x.Names)
    (hsuperclass : ∀ e ∈ superclass, e.Shows) (hmembers : ∀ m ∈ members, m.Joins) :
    Succeeds (Print.class_ c depth (foldPart printedOf id) (foldPart printedOf superclass)
      (foldList printedOf members)) := by
  have hlines : Succeeds ((foldList printedOf members).mapM fun p => do
      return Print.indent (depth + 1) ++ (← Print.classMember c (depth + 1) p)) :=
    succeeds_list fun m hm => .bind (hmembers m hm c (depth + 1)) fun _ => .pure
  refine .bind (succeeds_optionalName hid) fun _ => ?_
  cases superclass with
  | none => exact .bindOk rfl (.bind hlines fun _ => .pure)
  | some e =>
    refine .bind (succeeds_expression (hsuperclass e rfl)) fun _ => .bindOk rfl ?_
    exact .bind hlines fun _ => .pure

end

/-! ## Operators and calls -/

section

variable {left right object member : Node} {operator : Text} {arguments : List Node}

theorem succeeds_precedence (h : IsOperator operator) : Succeeds (Precedence.binary operator) := by
  obtain ⟨level, hlevel, hmem⟩ := h
  unfold Precedence.binary
  split
  case h_1 => exact ⟨_, rfl⟩
  case h_2 hnone =>
    have hno := List.findIdx?_eq_none_iff.1 hnone level hlevel
    rw [List.contains_iff_mem.2 hmem] at hno
    cases hno

theorem succeeds_unary (h : n.Shows) : Succeeds (Print.unary c operator (some n.printed)) :=
  .bind (succeeds_expression h) fun _ => .ite (fun _ => .pure) fun _ => .pure

theorem succeeds_binary (isLogical : Bool) (hoperator : IsOperator operator) (hleft : left.Shows)
    (hright : right.Shows) :
    Succeeds (Print.binary c isLogical operator (some left.printed) (some right.printed)) :=
  .bind (succeeds_precedence hoperator) fun _ => .bind (succeeds_operand hleft _) fun _ =>
    .bind (succeeds_operand hright _) fun _ => .pure

theorem succeeds_member (hobject : object.Shows) (hmember : member.Names) (isOptional : Bool) :
    Succeeds (Print.member c (some object.printed) (some member.printed) false isOptional) :=
  .bind (succeeds_expression hobject) fun _ => .bind (succeeds_nameOf hmember) fun _ => .pure

theorem succeeds_index (hobject : object.Shows) (hmember : member.Shows) (isOptional : Bool) :
    Succeeds (Print.member c (some object.printed) (some member.printed) true isOptional) :=
  .bind (succeeds_expression hobject) fun _ => .bind (succeeds_expression hmember) fun _ => .pure

theorem succeeds_call (hcallee : n.Shows) (harguments : ∀ a ∈ arguments, a.Shows)
    (isOptional : Bool) :
    Succeeds (Print.call c (some n.printed) (foldList printedOf arguments) isOptional) :=
  .bind (succeeds_expression hcallee) fun _ => .bind (succeeds_items harguments) fun _ => .pure

theorem succeeds_construction (hcallee : n.Shows) (harguments : ∀ a ∈ arguments, a.Shows) :
    Succeeds (Print.construction c (some n.printed) (foldList printedOf arguments)) :=
  .bind (succeeds_operand hcallee _) fun _ => .bind (succeeds_items harguments) fun _ => .pure

theorem succeeds_yield {argument : Option Node} (h : ∀ e ∈ argument, e.Shows) (delegate : Bool) :
    Succeeds (Print.yield_ c (foldPart printedOf argument) delegate) := by
  cases argument with
  | none => exact .pure
  | some e => exact .bind (succeeds_expression (h e rfl)) fun _ => .pure

theorem leftmostHead_succeeds {expressions : List Node} (hlength : 0 < expressions.length)
    (h : ∀ e ∈ expressions, e.Shows) : Succeeds (leftmostHead expressions) := by
  cases expressions with
  | nil => cases hlength
  | cons e rest => exact (h e List.mem_cons_self).leftmost

end

/-! ## Statements with parts -/

section

variable {test body consequent : Node} {argument init update alternate : Option Node}

theorem succeeds_expressionStatement (h : n.Shows) :
    Succeeds (Print.expressionStatement c (some n.printed)) :=
  .bind (succeeds_expression h) fun _ => .bind (succeeds_startsWith h _) fun _ => .pure

theorem succeeds_jump (word : Text) (h : ∀ e ∈ argument, e.Shows) :
    Succeeds (Print.jump c word (foldPart printedOf argument)) := by
  cases argument with
  | none => exact .pure
  | some e => exact .bind (succeeds_expression (h e rfl)) fun _ => .pure

theorem succeeds_if (htest : test.Shows) (hconsequent : consequent.States)
    (halternate : ∀ s ∈ alternate, s.States) :
    Succeeds (Print.ifStatement c depth (some test.printed) (some consequent.printed)
      (foldPart printedOf alternate)) := by
  refine .bind (succeeds_expression htest) fun _ => ?_
  cases alternate with
  | none => exact .bind (succeeds_body hconsequent) fun _ => .pure
  | some s =>
    have hstates := halternate s rfl
    dsimp only
    generalize ((foldPart printedOf (some s)).isSome &&
      ((some consequent.printed).map fun p => p.node.endsWithOpenIf).getD false) = wrapped
    cases wrapped
    case false =>
      refine .bind (succeeds_body hconsequent) fun _ => ?_
      dsimp only [foldPart]
      split
      · exact .bind (hstates depth) fun _ => .pure
      · exact .bind (succeeds_body hstates) fun _ => .pure
    case true =>
      refine .bind (succeeds_line hconsequent) fun _ => .bindOk rfl ?_
      dsimp only [foldPart]
      split
      · exact .bind (hstates depth) fun _ => .pure
      · exact .bind (succeeds_body hstates) fun _ => .pure

theorem succeeds_forPart (h : ∀ e ∈ argument, e.Shows) :
    Succeeds (Print.forPart c (foldPart printedOf argument)) := by
  cases argument with
  | none => exact .pure
  | some e => exact .bind (succeeds_expression (h e rfl)) fun _ => .pure

/-- A node that can be printed at the start of a `for`. -/
def Starts (n : Node) : Prop := ∀ c, Succeeds (Print.forInit c (some n.printed))

theorem starts_shows (h : n.Shows) : n.Starts := by
  intro c
  have hwhole : Succeeds (Print.whole c (some n.printed)) := succeeds_expression h
  have hstatement := h.isStatement_eq_false
  obtain ⟨loc, form⟩ := n
  cases form <;> first | exact hwhole | cases hstatement

theorem succeeds_for (hinit : ∀ n ∈ init, n.Starts) (htest : ∀ e ∈ argument, e.Shows)
    (hupdate : ∀ e ∈ update, e.Shows) (hbody : body.States) :
    Succeeds (Print.forStatement depth (foldPart printedOf init) (foldPart printedOf argument)
      (foldPart printedOf update) (some body.printed)) := by
  refine .bind ?_ fun _ => .bind (succeeds_forPart htest) fun _ => ?_
  · cases init with
    | none => exact .pure
    | some n => exact hinit n rfl _
  · exact .bind (succeeds_forPart hupdate) fun _ => .bind (succeeds_body hbody) fun _ => .pure

theorem succeeds_doWhile (hbody : body.States) (htest : test.Shows) :
    Succeeds (Print.doWhileStatement c depth (some body.printed) (some test.printed)) := by
  refine .bind (succeeds_expression htest) fun _ => .ite (fun hblock => ?_) fun _ => ?_
  · exact .bind (succeeds_block (encloses_of_isBlock hblock hbody)) fun _ => .pure
  · exact .bind (succeeds_body hbody) fun _ => .pure

/-- A part of a `try` that can be printed behind the block. -/
def Handles (n : Node) : Prop := ∀ c depth, Succeeds (Print.handlerText c depth n.printed)

theorem handles_catch {loc : Option Position} {param : Option Node} (hparam : ∀ p ∈ param, p.Shows)
    (hbody : body.Encloses) : (mk loc (.catchClause param (some body))).Handles := by
  intro c depth
  cases param with
  | none => exact .bindOk rfl (.bind (succeeds_block hbody) fun _ => .pure)
  | some p =>
    refine .bind (succeeds_expression (hparam p rfl)) fun _ => .bindOk rfl ?_
    exact .bind (succeeds_block hbody) fun _ => .pure

theorem succeeds_try {handler finalizer : Option Node} (hbody : body.Encloses)
    (hhandler : ∀ n ∈ handler, n.Handles) (hfinalizer : ∀ n ∈ finalizer, n.Encloses) :
    Succeeds (Print.tryStatement c depth (some body.printed) (foldPart printedOf handler)
      (foldPart printedOf finalizer)) := by
  refine .bind (succeeds_block hbody) fun _ => ?_
  cases handler with
  | none =>
    cases finalizer with
    | none => exact .bindOk rfl (.bindOk rfl .pure)
    | some f =>
      exact .bindOk rfl (.bind (succeeds_block (hfinalizer f rfl)) fun _ => .bindOk rfl .pure)
  | some handler =>
    refine .bind (hhandler handler rfl c depth) fun _ => ?_
    cases finalizer with
    | none => exact .bindOk rfl .pure
    | some f => exact .bind (succeeds_block (hfinalizer f rfl)) fun _ => .bindOk rfl .pure

/-- A `case` that can be printed. -/
def Lists (n : Node) : Prop := ∀ c depth, Succeeds (Print.switchCase c depth n.printed)

theorem lists_case {loc : Option Position} {statements : List Node}
    (htest : ∀ e ∈ argument, e.Shows) (hstatements : ∀ s ∈ statements, s.States) :
    (mk loc (.switchCase argument statements)).Lists := by
  intro c depth
  refine .bind ?_ fun _ =>
    .bind (succeeds_list fun s hs => succeeds_line (hstatements s hs)) fun _ => .pure
  cases argument with
  | none => exact ⟨_, rfl⟩
  | some e => exact .bind (succeeds_expression (htest e rfl)) fun _ => .pure

theorem succeeds_switch {cases : List Node} (hvalue : n.Shows) (hcases : ∀ n ∈ cases, n.Lists) :
    Succeeds (Print.switchStatement c depth (some n.printed) (foldList printedOf cases)) :=
  .bind (succeeds_expression hvalue) fun _ =>
    .bind (succeeds_list fun n hn => hcases n hn c depth) fun _ => .pure

/-- A variable that can be printed. -/
def Declares (n : Node) : Prop := ∀ c, Succeeds (Print.declarator c n.printed)

theorem declares_variable {loc : Option Position} {id : Node} (hid : id.Shows)
    (hinit : ∀ e ∈ init, e.Shows) : (mk loc (.variableDeclarator (some id) init)).Declares := by
  intro c
  refine .bind (succeeds_expression hid) fun _ => ?_
  cases init with
  | none => exact .pure
  | some e => exact .bind (succeeds_expression (hinit e rfl)) fun _ => .pure

/-- A declaration of variables that can be printed, as a statement and in the head of a loop. -/
structure DeclaresAll (n : Node) : Prop where
  states : n.States
  starts : n.Starts
  declaration : ∀ c, Succeeds (Print.declaration c (some n.printed))

theorem declaresAll_variables {loc : Option Position} {kind : Text} {declarators : List Node}
    (h : ∀ d ∈ declarators, d.Declares) :
    (mk loc (.variableDeclaration kind declarators)).DeclaresAll := by
  have hall (c : Setting) :
      Succeeds ((foldList printedOf declarators).mapM (Print.declarator c)) :=
    succeeds_list fun d hd => h d hd c
  exact ⟨fun depth => .bind (hall _) fun _ => .pure,
    fun c => .bindOk rfl (.bind (hall c) fun _ => .pure),
    fun c => .bindOk rfl (.bind (hall c) fun _ => .pure)⟩

end

/-! ## Imports and exports -/

section

variable {name imported source : Node} {specifiers : List Node} {loc : Option Position}

/-- A literal that can be printed. -/
structure Spells (n : Node) : Prop extends n.Shows where
  literal : Succeeds (Print.literal (some n.printed))

theorem succeeds_moduleName (h : n.Names ∨ n.Spells) :
    Succeeds (Print.moduleName (some n.printed)) := by
  obtain ⟨loc, form⟩ := n
  rcases h with h | h
  · obtain ⟨x, hx⟩ := h.name
    cases form <;> cases hx
    exact ⟨_, rfl⟩
  · have hliteral := h.literal
    cases form <;> first | exact hliteral | exact ⟨_, rfl⟩

/-- A part of an import that can be printed. -/
def Imports (n : Node) : Prop := Succeeds (Print.importPart n.printed)

theorem succeeds_import (hspecifiers : ∀ s ∈ specifiers, s.Imports) (hsource : source.Spells) :
    Succeeds (Print.importDeclaration (foldList printedOf specifiers) (some source.printed)) :=
  .bind hsource.literal fun _ => .ite (fun _ => .pure) fun _ =>
    .bind (succeeds_list hspecifiers) fun _ => .pure

/-- A part of an export that can be printed. -/
def Exports (n : Node) : Prop := Succeeds (Print.exportPart n.printed)

theorem succeeds_exportNames {source : Option Node} (hspecifiers : ∀ s ∈ specifiers, s.Exports)
    (hsource : ∀ n ∈ source, n.Spells) :
    Succeeds (Print.namedExports (foldList printedOf specifiers) (foldPart printedOf source)) := by
  refine .bind (succeeds_list hspecifiers) fun _ => ?_
  cases source with
  | none => exact .pure
  | some n => exact .bind (hsource n rfl).literal fun _ => .pure

theorem succeeds_exportAll {exported : Option Node} (hsource : source.Spells)
    (hexported : ∀ n ∈ exported, Succeeds (Print.moduleName (some n.printed))) :
    Succeeds (Print.wholeExport (some source.printed) (foldPart printedOf exported)) := by
  cases exported with
  | none => exact .bindOk rfl (.bind hsource.literal fun _ => .pure)
  | some n =>
    refine .bind (hexported n rfl) fun _ => .bindOk rfl ?_
    exact .bind hsource.literal fun _ => .pure

/-- What can be printed behind `export default`. -/
def ExportsDefault (n : Node) : Prop :=
  ∀ c depth, Succeeds (Print.defaultExport c depth (some n.printed))

theorem exportsDefault_shows (h : n.Shows) : n.ExportsDefault := by
  intro c depth
  have hrest : Succeeds (do
      let text ← Print.item c (some n.printed)
      let apart ← n.printed.node.startsWith Node.isFunctionOrClass
      return "export default " ++ (if apart then Print.parenthesized text else text) ++ ";" :
        Printing Text) :=
    .bind (succeeds_expression h) fun _ => .bind (succeeds_startsWith h _) fun _ => .pure
  have hstatement := h.isStatement_eq_false
  obtain ⟨loc, form⟩ := n
  cases form <;> first | exact hrest | cases hstatement

end

/-! ## Places -/

/-- What is asked of a node in a place of this kind for the printer to print what is around it. -/
def PrintsAs : Role → Node → Prop
  | .named _, n | .name, n => n.Names
  | .literal, n | .template, n => n.Spells
  | .key computed, n => ∀ c, Succeeds (Print.key c computed (some n.printed))
  | .moduleName, n => Succeeds (Print.moduleName (some n.printed))
  | .expression, n | .argument, n | .shorthand _, n | .pattern, n => n.Shows
  | .property, n => ∀ c, Succeeds (Print.property c n.printed)
  | .patternProperty, n => ∀ c, Succeeds (Print.patternProperty c n.printed)
  | .block, n => n.Encloses
  | .arrowBody, n => n.Encloses ∨ n.Shows
  | .method, n => n.Methods
  | .classMember, n => n.Joins
  | .definition _, n => n.States ∧ n.ExportsDefault
  | .declarator, n => n.Declares
  | .variables, n => n.DeclaresAll
  | .declared, n | .statement, n | .item, n => n.States
  | .forInit, n => n.Starts
  | .handler, n => n.Handles
  | .case, n => n.Lists
  | .importSpecifier, n => n.Imports
  | .exportSpecifier, n => n.Exports
  | .defaultExport, n => n.ExportsDefault
  | .module, n => Succeeds n.moduleText

/-- A node that may stand in a place of a kind can be printed there. -/
theorem Fits.printsAs {r : Role} (h : n.Fits r) : n.PrintsAs r := by
  induction h
  case named => exact ⟨⟨fun _ => ⟨_, rfl⟩, ⟨_, rfl⟩, ⟨_, rfl⟩⟩, ⟨_, rfl⟩⟩
  case literal => exact ⟨⟨fun _ => ⟨_, rfl⟩, ⟨_, rfl⟩, ⟨_, rfl⟩⟩, ⟨_, rfl⟩⟩
  case template => exact ⟨⟨fun _ => ⟨_, rfl⟩, ⟨_, rfl⟩, ⟨_, rfl⟩⟩, ⟨_, rfl⟩⟩
  -- A place that takes what another one takes asks no more of it.
  case name ih | expressionArgument ih | target ih | declaredStatement ih | statementItem ih =>
    exact ih
  case nameKey ih | literalKey ih => exact fun c => succeeds_key ih.toShows _
  case computedKey ih => exact fun c => succeeds_key ih _
  case nameOfModule ih => exact succeeds_moduleName (.inl ih)
  case literalOfModule ih => exact succeeds_moduleName (.inr ih)
  case nameExpression ih | shorthandName ih | literalExpression ih | templateExpression ih =>
    exact ih.toShows
  case blockBody ih => exact .inl ih
  case expressionBody ih => exact .inr ih
  case declaredDefinition ih => exact ih.1
  case declaredVariables ih | blockStatement ih => exact ih.states
  case variablesInit ih => exact ih.starts
  case expressionInit ih => exact starts_shows ih
  case defaultDefinition ih => exact ih.2
  case defaultExpression ih => exact exportsDefault_shows ih
  -- Expressions
  case regExpLiteral | thisExpression | superExpression =>
    exact ⟨fun _ => ⟨_, rfl⟩, ⟨_, rfl⟩, ⟨_, rfl⟩⟩
  case taggedTemplate ihtag ihquasi =>
    exact ⟨fun _ => .bind (succeeds_expression ihtag) fun _ => .bind ihquasi.literal fun _ => .pure,
      ⟨_, rfl⟩, ihtag.leftmost⟩
  case arrayExpression ih | arrayPattern ih =>
    exact ⟨fun _ => succeeds_array ih, ⟨_, rfl⟩, ⟨_, rfl⟩⟩
  case objectExpression ih | objectPattern ih =>
    exact ⟨fun c => .bind (succeeds_list fun p hp => ih p hp c) fun _ => .pure, ⟨_, rfl⟩, ⟨_, rfl⟩⟩
  case functionExpression ihid ihparams ihbody =>
    exact ⟨fun _ => succeeds_function ihid ihparams ihbody, ⟨_, rfl⟩, ⟨_, rfl⟩⟩
  case arrowFunction ihparams ihbody =>
    exact ⟨fun _ => succeeds_arrow ihparams ihbody, ⟨_, rfl⟩, ⟨_, rfl⟩⟩
  case classExpression ihid ihsuperclass ihbody =>
    exact ⟨fun _ => succeeds_class ihid ihsuperclass ihbody, ⟨_, rfl⟩, ⟨_, rfl⟩⟩
  case unaryExpression ih => exact ⟨fun _ => succeeds_unary ih, ⟨_, rfl⟩, ⟨_, rfl⟩⟩
  case awaitExpression ih | importExpression ih | spreadArgument ih | restElement ih =>
    exact ⟨fun _ => .bind (succeeds_expression ih) fun _ => .pure, ⟨_, rfl⟩, ⟨_, rfl⟩⟩
  case updateExpression before _ _ ih =>
    refine ⟨fun _ => .ite (fun _ => ?_) fun _ => ?_, ⟨_, rfl⟩, ?_⟩
    · exact .bind (succeeds_expression ih) fun _ => .pure
    · exact .bind (succeeds_expression ih) fun _ => .pure
    · cases before with
      | true => exact ⟨_, rfl⟩
      | false => exact ih.leftmost
  case binaryExpression hoperator _ _ ihleft ihright =>
    exact ⟨fun _ => succeeds_binary false hoperator ihleft ihright, succeeds_precedence hoperator,
      ihleft.leftmost⟩
  case logicalExpression hoperator _ _ ihleft ihright =>
    exact ⟨fun _ => succeeds_binary true hoperator ihleft ihright, succeeds_precedence hoperator,
      ihleft.leftmost⟩
  case assignmentExpression ihleft ihright =>
    exact ⟨fun _ => .bind (succeeds_expression ihleft) fun _ =>
      .bind (succeeds_expression ihright) fun _ => .pure, ⟨_, rfl⟩, ihleft.leftmost⟩
  case conditionalExpression ihtest ihconsequent ihalternate =>
    exact ⟨fun _ => .bind (succeeds_expression ihtest) fun _ =>
      .bind (succeeds_expression ihconsequent) fun _ =>
      .bind (succeeds_expression ihalternate) fun _ => .pure, ⟨_, rfl⟩, ihtest.leftmost⟩
  case callExpression ihcallee iharguments =>
    exact ⟨fun _ => succeeds_call ihcallee iharguments _, ⟨_, rfl⟩, ihcallee.leftmost⟩
  case newExpression ihcallee iharguments =>
    exact ⟨fun _ => succeeds_construction ihcallee iharguments, ⟨_, rfl⟩, ⟨_, rfl⟩⟩
  case member ihobject ihmember =>
    exact ⟨fun _ => succeeds_member ihobject ihmember _, ⟨_, rfl⟩, ihobject.leftmost⟩
  case index ihobject ihmember =>
    exact ⟨fun _ => succeeds_index ihobject ihmember _, ⟨_, rfl⟩, ihobject.leftmost⟩
  case metaProperty ihobject ihmember =>
    exact ⟨fun _ => .bind (succeeds_nameOf ihobject) fun _ =>
      .bind (succeeds_nameOf ihmember) fun _ => .pure, ⟨_, rfl⟩, ⟨_, rfl⟩⟩
  case sequenceExpression hlength _ ih =>
    exact ⟨fun _ => succeeds_items ih, ⟨_, rfl⟩,
      leftmostHead_succeeds (Nat.lt_of_lt_of_le Nat.two_pos hlength) ih⟩
  case yieldExpression ih => exact ⟨fun _ => succeeds_yield ih _, ⟨_, rfl⟩, ⟨_, rfl⟩⟩
  -- Properties and patterns
  case property ihkey ihvalue | patternProperty ihkey ihvalue =>
    exact fun c => .bind (ihkey c) fun _ => .bind (succeeds_expression ihvalue) fun _ => .pure
  case shorthandProperty ihvalue | shorthandPattern ihvalue =>
    exact fun _ => succeeds_expression ihvalue
  case methodProperty ihkey ihvalue => exact fun c => ihvalue c _ _ _ _ (ihkey c)
  case accessor hkind _ _ ihkey ihvalue =>
    intro c
    refine .ite (fun _ => ihvalue c _ _ _ _ (ihkey c)) fun h => ?_
    rw [hkind] at h
    exact absurd rfl h
  case spreadProperty ih | restProperty ih =>
    exact fun _ => .bind (succeeds_expression ih) fun _ => .pure
  case shorthandDefault ihkey ihvalue =>
    exact ⟨fun _ => .bind (succeeds_expression ihkey.toShows) fun _ =>
      .bind (succeeds_expression ihvalue) fun _ => .pure, ⟨_, rfl⟩, ⟨_, rfl⟩⟩
  case assignmentPattern ihleft ihright =>
    exact ⟨fun _ => .bind (succeeds_expression ihleft) fun _ =>
      .bind (succeeds_expression ihright) fun _ => .pure, ⟨_, rfl⟩, ⟨_, rfl⟩⟩
  -- Functions and classes
  case block ih =>
    exact ⟨⟨_, rfl⟩, fun _ =>
      .bind (succeeds_list fun s hs => succeeds_line (ih s hs)) fun _ => .pure⟩
  case method ihparams ihbody => exact methods_function ihparams ihbody
  case methodDefinition ihkey ihvalue =>
    exact fun c depth => .bind (ihvalue c depth _ _ _ (ihkey c)) fun _ => .pure
  case propertyDefinition value _ _ _ _ ihkey ihvalue =>
    intro c depth
    refine .bind (ihkey c) fun _ => ?_
    cases value with
    | none => exact .bindOk rfl .pure
    | some e => exact .bind (succeeds_expression (ihvalue e rfl)) fun _ => .bindOk rfl .pure
  case functionDefinition ihid ihparams ihbody =>
    exact ⟨fun _ => succeeds_function ihid ihparams ihbody,
      fun _ _ => .bind (succeeds_function ihid ihparams ihbody) fun _ => .pure⟩
  case classDefinition ihid ihsuperclass ihbody =>
    exact ⟨fun _ => succeeds_class ihid ihsuperclass ihbody,
      fun _ _ => .bind (succeeds_class ihid ihsuperclass ihbody) fun _ => .pure⟩
  -- Statements
  case variableDeclarator ihid ihinit => exact declares_variable ihid ihinit
  case variableDeclaration ih => exact declaresAll_variables ih
  case expressionStatement ih => exact fun _ => succeeds_expressionStatement ih
  case emptyStatement | breakStatement | continueStatement => exact fun _ => ⟨_, rfl⟩
  case returnStatement ih => exact fun _ => succeeds_jump _ ih
  case ifStatement ihtest ihconsequent ihalternate =>
    exact fun _ => succeeds_if ihtest ihconsequent ihalternate
  case forStatement ihinit ihtest ihupdate ihbody =>
    exact fun _ => succeeds_for ihinit ihtest ihupdate ihbody
  case forInStatement ihleft ihright ihbody | forOfStatement ihleft ihright ihbody =>
    exact fun _ => .bind (ihleft.declaration _) fun _ =>
      .bind (succeeds_expression ihright) fun _ => .bind (succeeds_body ihbody) fun _ => .pure
  case whileStatement ihtest ihbody =>
    exact fun _ => .bind (succeeds_expression ihtest) fun _ =>
      .bind (succeeds_body ihbody) fun _ => .pure
  case doWhileStatement ihbody ihtest => exact fun _ => succeeds_doWhile ihbody ihtest
  case throwStatement ih => exact fun _ => .bind (succeeds_expression ih) fun _ => .pure
  case tryStatement ihblock ihhandler ihfinalizer =>
    exact fun _ => succeeds_try ihblock ihhandler ihfinalizer
  case catchClause ihparam ihbody => exact handles_catch ihparam ihbody
  case switchStatement ihdiscriminant ihcases =>
    exact fun _ => succeeds_switch ihdiscriminant ihcases
  case switchCase ihtest ihconsequent => exact lists_case ihtest ihconsequent
  -- Imports, exports and the module
  case importSpecifier ihname ihimported =>
    exact .bind ihimported fun _ => .bind (succeeds_nameOf ihname) fun _ => .pure
  case importDefaultSpecifier ih | importNamespaceSpecifier ih =>
    exact .bind (succeeds_nameOf ih) fun _ => .pure
  case importDeclaration ihspecifiers ihsource =>
    exact fun _ => succeeds_import ihspecifiers ihsource
  case exportSpecifier ihname ihexported =>
    exact .bind ihname fun _ => .bind ihexported fun _ => .pure
  case exportNames ihspecifiers ihsource =>
    exact fun _ => succeeds_exportNames ihspecifiers ihsource
  case exportDeclared ih => exact fun depth => .bind (ih depth) fun _ => .pure
  case exportDefault ih => exact fun depth => ih _ depth
  case exportAll ihsource ihexported => exact fun _ => succeeds_exportAll ihsource ihexported
  case program ih =>
    refine .bind (succeeds_list fun s hs => succeeds_line (ih s hs)) fun lines => ?_
    cases lines <;> exact .pure

/-- A well-formed module has a text. -/
theorem Fits.exists_moduleText (h : n.Fits .module) : ∃ t, n.moduleText = .ok t := h.printsAs

end

end Node

end ModuleLowering
