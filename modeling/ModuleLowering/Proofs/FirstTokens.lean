import ModuleLowering.Proofs.TextStarts
import ModuleLowering.Proofs.Traversal

/-!
# First tokens

An expression is printed with the token of the node at the end of its left spine first, or with a
parenthesis. What stands behind that node does not go on with its text. So an expression statement
does not start like a block, a function or a class, nor does an expression that is exported by
default like a function or a class; an arrow function has a brace directly behind its arrow only
where its body starts with an object pattern.
-/

set_option autoImplicit false

namespace ModuleLowering

open Print Printing

namespace Node

/-! ## The left spine -/

/-- Whether the first token of an expression is its own, unless a part is absent. -/
def leads (n : Node) : Bool :=
  match n.form with
  | .callExpression .. | .memberExpression .. | .taggedTemplateExpression .. | .binaryExpression ..
  | .logicalExpression .. | .assignmentExpression .. | .conditionalExpression ..
  | .sequenceExpression _ => false
  | .updateExpression _ _ before => before
  | _ => true

/-- A part that is printed before everything else of its expression. -/
inductive LeftOf (p : Node) : Node → Prop where
  | callee {loc : Option Position} {arguments : List Node} {isOptional : Bool} :
      LeftOf p (.mk loc (.callExpression (some p) arguments isOptional))
  | object {loc : Option Position} {name : Option Node} {computed isOptional : Bool} :
      LeftOf p (.mk loc (.memberExpression (some p) name computed isOptional))
  | tag {loc : Option Position} {quasi : Option Node} :
      LeftOf p (.mk loc (.taggedTemplateExpression (some p) quasi))
  | binary {loc : Option Position} {operator : Text} {right : Option Node} :
      LeftOf p (.mk loc (.binaryExpression operator (some p) right))
  | logical {loc : Option Position} {operator : Text} {right : Option Node} :
      LeftOf p (.mk loc (.logicalExpression operator (some p) right))
  | target {loc : Option Position} {operator : Text} {right : Option Node} :
      LeftOf p (.mk loc (.assignmentExpression operator (some p) right))
  | test {loc : Option Position} {consequent alternate : Option Node} :
      LeftOf p (.mk loc (.conditionalExpression (some p) consequent alternate))
  | counted {loc : Option Position} {operator : Text} :
      LeftOf p (.mk loc (.updateExpression operator (some p) false))
  | first {loc : Option Position} {rest : List Node} :
      LeftOf p (.mk loc (.sequenceExpression (p :: rest)))

/-- Whether what a node writes right behind its left part is a sign, or a template behind a tag. -/
def joinsBySign (n : Node) : Bool :=
  match n.form with
  | .assignmentExpression operator _ _ => isSign operator
  | .updateExpression operator _ before => before || isSign operator
  | .taggedTemplateExpression _ quasi =>
    quasi.all fun q => match q.form with
      | .templateLiteral raw => isSign raw
      | _ => false
  | _ => true

/-- The text of a node with something behind it that does not go on with it, or a text with a
parenthesis first. -/
def StartsAs (c : Setting) (n : Node) (t : Text) : Prop :=
  ∃ u, n.printed.bare c = .ok u ∧ ((∃ v, t = "(" ++ v) ∨ ∃ rest, t = u ++ rest ∧ Trails rest)

section

variable {c : Setting} {n p q : Node} {t u : Text} {least : Nat} {apart : Bool}

theorem StartsAs.append (h : StartsAs c n t) (hu : Trails u) : StartsAs c n (t ++ u) := by
  obtain ⟨v, hv, ⟨w, rfl⟩ | ⟨rest, rfl, hrest⟩⟩ := h
  · exact ⟨v, hv, .inl ⟨w ++ u, List.append_assoc ..⟩⟩
  · exact ⟨v, hv, .inr ⟨rest ++ u, List.append_assoc .., hrest.append hu⟩⟩

theorem StartsAs.parenthesized (h : n.printed.bare c = .ok t) :
    StartsAs c n (Print.parenthesized t) := ⟨t, h, .inl ⟨t ++ ")", List.append_assoc ..⟩⟩

theorem StartsAs.bare (h : n.printed.bare c = .ok t) : StartsAs c n t :=
  ⟨t, h, .inr ⟨[], (List.append_nil t).symm, .nil⟩⟩

theorem StartsAs.again (h : StartsAs c n t) : StartsAs c n (Print.parenthesized t) := by
  obtain ⟨u, hu, -⟩ := h
  exact ⟨u, hu, .inl ⟨t ++ ")", List.append_assoc ..⟩⟩

/-- What starts as a node starts as whatever the text of the node starts as. -/
theorem StartsAs.trans (h : StartsAs c p t)
    (hp : ∀ u, p.printed.bare c = .ok u → StartsAs c q u) : StartsAs c q t := by
  obtain ⟨u, hu, ⟨v, rfl⟩ | ⟨rest, rfl, hrest⟩⟩ := h
  · obtain ⟨w, hw, -⟩ := hp u hu
    exact ⟨w, hw, .inl ⟨v, rfl⟩⟩
  · exact (hp u hu).append hrest

theorem startsAs_expression (h : expression c least (some n.printed) = .ok t) :
    StartsAs c n t := by
  obtain ⟨u, hu, h⟩ := bind_eq_ok.1 h
  obtain ⟨level, -, h⟩ := bind_eq_ok.1 h
  split at h
  · cases h
    exact .parenthesized hu
  · cases h
    exact .bare hu

theorem startsAs_operand (h : operand c least apart (some n.printed) = .ok t) :
    StartsAs c n t := by
  unfold operand at h
  split at h
  · obtain ⟨u, hu, rfl⟩ := map_eq_ok.1 h
    exact .parenthesized hu
  · exact startsAs_expression h

/-- The operators between two operands. -/
theorem trails_operator {operator : Text} {level : Nat} (h : Precedence.binary operator = .ok level)
    (u : Text) : Trails (" " ++ operator ++ " " ++ u) := by
  have hall : ∀ ops ∈ Precedence.binaryLevels, ∀ op ∈ ops,
      op.head?.any (fun (c : CodePoint) => c ≠ ' ') = true ∧ firstWord op ≠ "function" := by
    decide
  unfold Precedence.binary at h
  split at h
  next k hk =>
    obtain ⟨hlt, hmem, -⟩ := List.findIdx?_eq_some_iff_getElem.1 hk
    obtain ⟨hhead, hword⟩ := hall _ (List.getElem_mem hlt) operator (by simpa using hmem)
    exact .operator hhead hword u
  next => cases h

theorem startsAs_binary {isLogical : Bool} {operator : Text} {right : Option Node}
    (h : Print.binary c isLogical operator (some p.printed) (foldPart printedOf right) = .ok t) :
    StartsAs c p t := by
  obtain ⟨level, hlevel, h⟩ := bind_eq_ok.1 h
  obtain ⟨left, hleft, h⟩ := bind_eq_ok.1 h
  obtain ⟨other, hother, h⟩ := bind_eq_ok.1 h
  cases h
  have hrest := trails_operator hlevel other
  have hall := (startsAs_operand hleft).append hrest
  simpa only [List.append_assoc] using hall

theorem startsAs_member {name : Option Printed} {computed isOptional : Bool}
    (h : Print.member c (some p.printed) name computed isOptional = .ok t) : StartsAs c p t := by
  obtain ⟨text, htext, h⟩ := bind_eq_ok.1 h
  have hobject : ∀ isNumeral : Bool,
      StartsAs c p (if isNumeral then Print.parenthesized text else text) := by
    intro isNumeral
    split
    · exact (startsAs_expression htext).again
    · exact startsAs_expression htext
  split at h
  next =>
    obtain ⟨index, -, h⟩ := bind_eq_ok.1 h
    cases h
    rw [List.append_assoc, List.append_assoc]
    apply (hobject _).append
    cases isOptional
    · exact .sign (by decide) _
    · exact .sign (by decide) _
  next =>
    obtain ⟨x, -, h⟩ := bind_eq_ok.1 h
    cases h
    rw [List.append_assoc]
    apply (hobject _).append
    cases isOptional
    · exact .sign (by decide) _
    · exact .sign (by decide) _

theorem startsAs_call {arguments : List Printed} {isOptional : Bool}
    (h : Print.call c (some p.printed) arguments isOptional = .ok t) : StartsAs c p t := by
  obtain ⟨callee, hcallee, h⟩ := bind_eq_ok.1 h
  obtain ⟨inner, -, h⟩ := bind_eq_ok.1 h
  cases h
  rw [List.append_assoc]
  apply (startsAs_expression hcallee).append
  cases isOptional
  · exact Trails.sign (t := "(") (by decide) (inner ++ ")")
  · exact Trails.sign (t := "?.") (by decide) (Print.parenthesized inner)

/-- A template behind its tag. -/
theorem trails_literal {quasi : Option Node} (hquasi : (quasi.all fun q => match q.form with
      | .templateLiteral raw => isSign raw
      | _ => false) = true) (h : Print.literal (foldPart printedOf quasi) = .ok t) : Trails t := by
  cases quasi with
  | none => cases h
  | some q =>
    obtain ⟨loc, form⟩ := q
    cases form
    case templateLiteral raw =>
      cases h
      exact .ofSign hquasi
    all_goals cases hquasi

/-- Behind the first of some expressions stands nothing or a comma. -/
theorem startsAs_items {rest : List Node}
    (h : Print.items c (foldList printedOf (p :: rest)) = .ok t) : StartsAs c p t := by
  obtain ⟨texts, htexts, h⟩ := bind_eq_ok.1 h
  cases h
  rw [foldList, List.mapM_cons] at htexts
  obtain ⟨first, hfirst, htexts⟩ := bind_eq_ok.1 htexts
  obtain ⟨others, -, htexts⟩ := bind_eq_ok.1 htexts
  cases htexts
  have hstarts : StartsAs c p first := startsAs_expression hfirst
  cases others with
  | nil => simpa [commas, Text.join] using hstarts
  | cons u us =>
    unfold commas Text.join
    rw [List.intercalate_cons_cons, List.append_assoc]
    exact hstarts.append (.sign (by decide) _)

/-- An expression is printed with its left part first, and goes on with a sign or a blank. -/
theorem startsAs_leftOf (hp : LeftOf p n) (hjoins : n.joinsBySign = true)
    (h : n.printed.bare c = .ok t) : StartsAs c p t := by
  rw [printed_eq] at h
  cases hp with
  | callee => exact startsAs_call h
  | object => exact startsAs_member h
  | tag =>
    obtain ⟨tag, htag, h⟩ := bind_eq_ok.1 h
    obtain ⟨raw, hraw, h⟩ := bind_eq_ok.1 h
    cases h
    exact (startsAs_expression htag).append (trails_literal hjoins hraw)
  | binary => exact startsAs_binary h
  | logical => exact startsAs_binary h
  | @target loc operator right =>
    obtain ⟨left, hleft, h⟩ := bind_eq_ok.1 h
    obtain ⟨value, -, h⟩ := bind_eq_ok.1 h
    cases h
    have hrest : Trails (" " ++ operator ++ " " ++ value) := .signOperator hjoins value
    simpa only [List.append_assoc] using (startsAs_expression hleft).append hrest
  | test =>
    obtain ⟨test, htest, h⟩ := bind_eq_ok.1 h
    obtain ⟨consequent, -, h⟩ := bind_eq_ok.1 h
    obtain ⟨alternate, -, h⟩ := bind_eq_ok.1 h
    cases h
    have hrest : Trails (" ? " ++ (consequent ++ " : " ++ alternate)) :=
      Trails.signOperator (t := "?") (by decide) _
    simpa only [List.append_assoc] using (startsAs_expression htest).append hrest
  | counted =>
    obtain ⟨operand, hoperand, h⟩ := bind_eq_ok.1 h
    cases h
    exact (startsAs_expression hoperand).append (.ofSign hjoins)
  | first => exact startsAs_items h

end

/-! ## The first node -/

section

variable {c : Setting} {n p first : Node} {t : Text} {found : Option Node}

theorem leftmost_leftOf (h : LeftOf p n) : n.leftmost = p.leftmost := by
  cases h <;> rfl

theorem LeftOf.mem_children (h : LeftOf p n) : p ∈ n.children := by
  cases h <;> simp [children, form, Form.parts, Form.slots, Slot.parts]

theorem leftmost_of_leads (h : n.leads = true) : n.leftmost = .ok (some n) := by
  obtain ⟨loc, form⟩ := n
  cases form
  case updateExpression operator argument before =>
    obtain rfl : before = true := h
    rfl
  all_goals first | rfl | cases h

/-- What does not come first in its own text has a part that does. -/
theorem exists_leftOf (hleads : n.leads = false) (hfound : n.leftmost = .ok found)
    (h : n.printed.bare c = .ok t) : ∃ p, LeftOf p n := by
  obtain ⟨loc, form⟩ := n
  rw [printed_eq] at h
  cases form
  case callExpression callee arguments isOptional =>
    cases callee with
    | none => cases h
    | some p => exact ⟨p, .callee⟩
  case memberExpression object name computed isOptional =>
    cases object with
    | none => cases h
    | some p => exact ⟨p, .object⟩
  case taggedTemplateExpression tag quasi =>
    cases tag with
    | none => cases h
    | some p => exact ⟨p, .tag⟩
  case binaryExpression operator left right =>
    cases left with
    | none =>
      obtain ⟨level, -, h⟩ := bind_eq_ok.1 h
      cases h
    | some p => exact ⟨p, .binary⟩
  case logicalExpression operator left right =>
    cases left with
    | none =>
      obtain ⟨level, -, h⟩ := bind_eq_ok.1 h
      cases h
    | some p => exact ⟨p, .logical⟩
  case assignmentExpression operator left right =>
    cases left with
    | none => cases h
    | some p => exact ⟨p, .target⟩
  case conditionalExpression test consequent alternate =>
    cases test with
    | none => cases h
    | some p => exact ⟨p, .test⟩
  case updateExpression operator argument before =>
    obtain rfl : before = false := hleads
    cases argument with
    | none => cases h
    | some p => exact ⟨p, .counted⟩
  case sequenceExpression expressions =>
    cases expressions with
    | nil => cases hfound
    | cons p rest => exact ⟨p, .first⟩
  all_goals cases hleads

/-- An expression starts with a parenthesis or with the text of the first node of its left spine. -/
theorem startsAs_leftmost (hjoins : ∀ m ∈ n.walk, m.joinsBySign = true)
    (hfound : n.leftmost = .ok found) (h : n.printed.bare c = .ok t) :
    ∃ first, found = some first ∧ first.leads = true ∧ StartsAs c first t := by
  induction n using induction_children generalizing t with
  | step n ih =>
    cases hleads : n.leads with
    | true =>
      rw [leftmost_of_leads hleads] at hfound
      exact ⟨n, (Except.ok.inj hfound).symm, hleads, .bare h⟩
    | false =>
      obtain ⟨p, hp⟩ := exists_leftOf hleads hfound h
      have hstarts := startsAs_leftOf hp (hjoins n n.self_mem_walk) h
      have hwalk : ∀ m ∈ p.walk, m.joinsBySign = true := fun m hm =>
        hjoins m (mem_walk_of_mem_children hp.mem_children hm)
      rw [leftmost_leftOf hp] at hfound
      have ⟨u, hu, _⟩ := hstarts
      obtain ⟨first, hfirst, hfirstLeads, -⟩ := ih p hp.mem_children hwalk hfound hu
      refine ⟨first, hfirst, hfirstLeads, hstarts.trans fun v hv => ?_⟩
      obtain ⟨first', hfirst', -, hall⟩ := ih p hp.mem_children hwalk hfound hv
      rw [hfirst] at hfirst'
      cases hfirst'
      exact hall

end

/-! ## What the first node writes -/

/-- Whether what a node writes first, if that is not fixed, is spelled as it is in a module: names
and literals are none of the words of definitions, and operators are no words but those of their
kind. -/
def isSpelled (n : Node) : Bool :=
  match n.form with
  | .identifier x => isPlain x
  | .literal value raw => isPlain (raw.getD (valueText value))
  | .templateLiteral raw | .regExpLiteral raw => isPlain raw
  | .unaryExpression operator _ =>
    isSign operator || ([("typeof" : Text), "void", "delete"] : List Text).contains operator
  | .updateExpression operator _ _ => isSign operator
  | .arrowFunctionExpression [p] _ _ => p.name?.all isPlain
  | .metaProperty object _ => object.all fun o => o.name?.all isPlain
  | .assignmentPattern .. => false
  | _ => true

def isObjectPattern (n : Node) : Bool :=
  match n.form with
  | .objectPattern _ => true
  | _ => false

section

variable {c : Setting} {n : Node} {t : Text}

/-- What an arrow function is printed as behind its parameters starts as they do. -/
theorem startsLike_arrowBody {head : Text} {body : Option Printed} {block definition : Prop}
    (hhead : ∀ u, StartsLike block definition (head ++ u))
    (h : (do
      if isBlock body then return head ++ (← Print.block c.depth body)
      let text ← item c body
      let opensBrace ←
        match body with
        | some p => p.node.startsWith Node.isObject
        | none => .ok false
      return head ++ (if opensBrace then Print.parenthesized text else text) : Printing Text) =
        .ok t) : StartsLike block definition t := by
  split at h
  next =>
    obtain ⟨text, -, h⟩ := bind_eq_ok.1 h
    cases h
    exact hhead text
  next =>
    cases body with
    | none => cases h
    | some p =>
      obtain ⟨text, -, h⟩ := bind_eq_ok.1 h
      obtain ⟨opensBrace, -, h⟩ := bind_eq_ok.1 h
      cases h
      exact hhead _

theorem startsLike_arrow {params : List Node} {body : Option Printed} {isAsync : Bool}
    {block definition : Prop} (hnames : ∀ p, params = [p] → ∀ x ∈ p.name?, isPlain x = true)
    (h : arrow c (foldList printedOf params) body isAsync = .ok t) :
    StartsLike block definition t := by
  unfold arrow at h
  dsimp only at h
  split at h
  next x hx =>
    obtain ⟨inner, hinner, h⟩ := bind_eq_ok.1 h
    cases hinner
    rw [foldList_eq_map, List.map_map] at hx
    obtain ⟨p, hp, hname⟩ := List.map_eq_singleton_iff.1 hx
    have hname : p.printed.node.name? = some x := hname
    rw [node_printed] at hname
    have hplain := hnames p hp x hname
    apply startsLike_arrowBody _ h
    intro u
    rw [List.append_assoc, List.append_assoc]
    have harrow : Trails (" => " ++ u) := Trails.signOperator (t := "=>") (by decide) u
    cases isAsync
    · exact (StartsLike.plain hplain).append harrow
    · apply StartsLike.async _ (withoutBlanks_of_isPlain hplain _)
      rw [firstWord_append x harrow.opens]
      exact firstWord_of_isPlain hplain
  next =>
    obtain ⟨inner, hinner, h⟩ := bind_eq_ok.1 h
    obtain ⟨text, -, rfl⟩ := map_eq_ok.1 hinner
    apply startsLike_arrowBody _ h
    intro u
    rw [List.append_assoc, List.append_assoc]
    have hlist : ∀ v, firstWord (Print.parenthesized text ++ v) ≠ "function" := by
      intro v
      rw [firstWord_eq_nil (opens_append (opens_parenthesized text) (List.cons_ne_nil _ _) v)]
      decide
    cases isAsync
    · exact (StartsLike.parenthesized text).append (Trails.signOperator (t := "=>") (by decide) u)
    · exact .async (hlist _) rfl

theorem startsLike_unary {operator : Text} {argument : Option Printed} {block definition : Prop}
    (hoperator : isSign operator = true ∨
      operator ∈ ([("typeof" : Text), "void", "delete"] : List Text))
    (h : Print.unary c operator argument = .ok t) : StartsLike block definition t := by
  obtain ⟨operand, -, h⟩ := bind_eq_ok.1 h
  dsimp only at h
  rcases hoperator with hsign | hword
  · split at h
    · cases h
      rw [List.append_assoc]
      exact .sign hsign _
    · cases h
      exact .sign hsign _
  · have hall : ∀ x ∈ ([("typeof" : Text), "void", "delete"] : List Text), x.isEmpty = false ∧
        x.all CodePoint.isLetter = true ∧ isPlain x = true ∧ firstWord x ≠ "async" := by
      decide
    obtain ⟨hempty, hletters, hplain, hasync⟩ := hall operator hword
    rw [if_pos (by simp [hempty, hletters])] at h
    cases h
    rw [List.append_assoc]
    exact .word hplain hasync (opens_append (by decide) (by decide) operand)

theorem startsLike_yield {argument : Option Printed} {delegate : Bool} {block definition : Prop}
    (h : yield_ c argument delegate = .ok t) : StartsLike block definition t := by
  cases argument with
  | none =>
    cases h
    cases delegate
    · exact .plain (by decide)
    · exact .plain (by decide)
  | some p =>
    obtain ⟨text, -, h⟩ := bind_eq_ok.1 h
    cases h
    rw [List.append_assoc]
    have hopens : Opens (" " ++ text) := opens_append (by decide) (by decide) text
    cases delegate
    · exact .word (by decide) (by decide) hopens
    · exact .word (by decide) (by decide) hopens

theorem startsLike_function {depth : Nat} {id : Option Printed} {params : List Printed}
    {body : Option Printed} {isAsync generator : Bool} {block definition : Prop}
    (hdefinition : definition) (h : function c depth id params body isAsync generator = .ok t) :
    StartsLike block definition t := by
  obtain ⟨name, -, h⟩ := bind_eq_ok.1 h
  obtain ⟨inner, -, h⟩ := bind_eq_ok.1 h
  obtain ⟨text, -, h⟩ := bind_eq_ok.1 h
  cases h
  simp only [List.append_assoc]
  cases isAsync
  · exact .ofDefinition (w := "function") (by decide) (by decide) hdefinition _
  · exact .ofDefinition (w := "async ") (by decide) (by decide) hdefinition _

theorem startsLike_class {depth : Nat} {id superclass : Option Printed} {members : List Printed}
    {block definition : Prop} (hdefinition : definition)
    (h : class_ c depth id superclass members = .ok t) : StartsLike block definition t := by
  obtain ⟨name, -, h⟩ := bind_eq_ok.1 h
  have hclass : ∀ u, StartsLike block definition ("class" ++ u) :=
    .ofDefinition (by decide) (by decide) hdefinition
  cases superclass with
  | none =>
    obtain ⟨heritage, -, h⟩ := bind_eq_ok.1 h
    obtain ⟨lines, -, h⟩ := bind_eq_ok.1 h
    cases h
    simp only [List.append_assoc]
    exact hclass _
  | some p =>
    obtain ⟨u, -, h⟩ := bind_eq_ok.1 h
    obtain ⟨heritage, -, h⟩ := bind_eq_ok.1 h
    obtain ⟨lines, -, h⟩ := bind_eq_ok.1 h
    cases h
    simp only [List.append_assoc]
    exact hclass _

/-- A node that is printed first starts like a block only if it is an object or an object pattern,
and like a definition only if it is one. -/
theorem startsLike_bare (hleads : n.leads = true) (hspelled : n.isSpelled = true)
    (h : n.printed.bare c = .ok t) :
    StartsLike (n.isObject = true ∨ n.isObjectPattern = true) (n.isFunctionOrClass = true) t := by
  obtain ⟨loc, form⟩ := n
  rw [printed_eq] at h
  cases form
  case identifier x =>
    cases h
    exact .plain hspelled
  case literal value raw =>
    cases h
    exact .plain hspelled
  case templateLiteral raw =>
    cases h
    exact .plain hspelled
  case regExpLiteral raw =>
    cases h
    exact .plain hspelled
  case thisExpression =>
    cases h
    exact .plain (by decide)
  case superExpression =>
    cases h
    exact .plain (by decide)
  case arrayExpression elements =>
    obtain ⟨texts, -, h⟩ := bind_eq_ok.1 h
    cases h
    rw [List.append_assoc, List.append_assoc]
    exact .sign (by decide) _
  case arrayPattern elements =>
    obtain ⟨texts, -, h⟩ := bind_eq_ok.1 h
    cases h
    rw [List.append_assoc, List.append_assoc]
    exact .sign (by decide) _
  case objectExpression properties =>
    obtain ⟨texts, -, h⟩ := bind_eq_ok.1 h
    cases h
    exact .inBraces (.inl rfl) texts
  case objectPattern properties =>
    obtain ⟨texts, -, h⟩ := bind_eq_ok.1 h
    cases h
    exact .inBraces (.inr rfl) texts
  case spreadElement argument =>
    obtain ⟨operand, -, h⟩ := bind_eq_ok.1 h
    cases h
    exact .sign (by decide) operand
  case restElement argument =>
    obtain ⟨operand, -, h⟩ := bind_eq_ok.1 h
    cases h
    exact .sign (by decide) operand
  case assignmentPattern left right => cases hspelled
  case functionExpression id params body isAsync generator => exact startsLike_function rfl h
  case classExpression id superclass body => exact startsLike_class rfl h
  case arrowFunctionExpression params body isAsync =>
    refine startsLike_arrow (fun p hp x hx => ?_) h
    subst hp
    have hname : p.name?.all isPlain = true := hspelled
    rw [hx] at hname
    exact hname
  case unaryExpression operator argument =>
    refine startsLike_unary ?_ h
    have hoperator : (isSign operator ||
      ([("typeof" : Text), "void", "delete"] : List Text).contains operator) = true := hspelled
    rwa [Bool.or_eq_true, List.contains_iff_mem] at hoperator
  case awaitExpression argument =>
    obtain ⟨operand, -, h⟩ := bind_eq_ok.1 h
    cases h
    exact .word (w := "await") (by decide) (by decide)
      (opens_append (t := " ") (by decide) (by decide) operand)
  case updateExpression operator argument before =>
    obtain rfl : before = true := hleads
    obtain ⟨operand, -, h⟩ := bind_eq_ok.1 h
    cases h
    exact .sign hspelled operand
  case newExpression callee arguments =>
    obtain ⟨callee, -, h⟩ := bind_eq_ok.1 h
    obtain ⟨inner, -, h⟩ := bind_eq_ok.1 h
    cases h
    rw [List.append_assoc]
    exact .word (w := "new") (by decide) (by decide)
      (opens_append (t := " ") (by decide) (by decide) _)
  case importExpression source =>
    obtain ⟨inner, -, h⟩ := bind_eq_ok.1 h
    cases h
    exact .word (by decide) (by decide) (opens_parenthesized inner)
  case metaProperty object name =>
    obtain ⟨x, hx, h⟩ := bind_eq_ok.1 h
    obtain ⟨y, -, h⟩ := bind_eq_ok.1 h
    cases h
    obtain ⟨loc', rfl⟩ := exists_of_nameOf hx
    rw [List.append_assoc]
    exact (StartsLike.plain hspelled).append (.sign (by decide) y)
  case yieldExpression argument delegate => exact startsLike_yield h
  case invalid => cases h
  all_goals first | (cases hleads; done) | cases h

end

/-! ## Statements, exports and arrow functions -/

/-- An expression whose operators, names and literals are spelled as in a module, as far as they may
come first or right behind what does. -/
structure WellSpelled (n : Node) : Prop where
  joins : ∀ m ∈ n.walk, m.joinsBySign = true
  first : ∀ m, n.leftmost = .ok (some m) → m.isSpelled = true

section

variable {c : Setting} {n : Node} {t : Text} {found : Option Node} {least : Nat}

theorem WellSpelled.startsLike (h : n.WellSpelled) (hfound : n.leftmost = .ok found)
    (ht : expression c least (some n.printed) = .ok t) :
    ∃ first, found = some first ∧
      StartsLike (first.isObject = true ∨ first.isObjectPattern = true)
        (first.isFunctionOrClass = true) t := by
  have hstarts := startsAs_expression ht
  have ⟨u, hu, _⟩ := hstarts
  obtain ⟨first, rfl, hleads, -⟩ := startsAs_leftmost h.joins hfound hu
  have hfirst := hstarts.trans fun v hv => by
    obtain ⟨other, hother, -, hall⟩ := startsAs_leftmost h.joins hfound hv
    cases hother
    exact hall
  refine ⟨first, rfl, ?_⟩
  obtain ⟨v, hv, ⟨w, rfl⟩ | ⟨rest, rfl, hrest⟩⟩ := hfirst
  · exact .sign (by decide) w
  · exact (startsLike_bare hleads (h.first first hfound) hv).append hrest

/-- What is looked at to decide about parentheses is the node that comes first. -/
theorem WellSpelled.startsWith (h : n.WellSpelled) {test : Node → Bool} {apart : Bool}
    (hapart : n.printed.node.startsWith test = .ok apart)
    (ht : expression c least (some n.printed) = .ok t) :
    ∃ first, n.leftmost = .ok (some first) ∧ apart = test first ∧
      StartsLike (first.isObject = true ∨ first.isObjectPattern = true)
        (first.isFunctionOrClass = true) t := by
  rw [node_printed] at hapart
  obtain ⟨found, hfound, rfl⟩ := map_eq_ok.1 hapart
  obtain ⟨first, rfl, hstarts⟩ := h.startsLike hfound ht
  exact ⟨first, hfound, rfl, hstarts⟩

/-- An expression statement starts with no brace, `function`, `class` or `async function`. -/
theorem WellSpelled.expressionStatement (h : n.WellSpelled)
    (ht : Print.expressionStatement c (some n.printed) = .ok t) :
    opensBrace t = false ∧ opensDefinition t = false := by
  obtain ⟨text, htext, ht⟩ := bind_eq_ok.1 ht
  obtain ⟨apart, hapart, ht⟩ := bind_eq_ok.1 ht
  cases ht
  obtain ⟨first, -, hfirst, hstarts⟩ := h.startsWith hapart htext
  have hblock : first.isObject = true ∨ first.isObjectPattern = true → apart = true := by
    rw [hfirst]
    obtain ⟨loc, form⟩ := first
    rintro (hobject | hpattern)
    · cases form <;> first | rfl | cases hobject
    · cases form <;> first | rfl | cases hpattern
  have hdefinition : first.isFunctionOrClass = true → apart = true := by
    rw [hfirst]
    obtain ⟨loc, form⟩ := first
    intro hdefinition
    cases form <;> first | rfl | cases hdefinition
  have hplain : StartsLike False False (if apart = true then Print.parenthesized text else text) :=
    hstarts.guarded (fun hb => .inl (hblock hb)) fun hd => .inl (hdefinition hd)
  have hall := hplain.append (.ofSign (t := ";") (by decide))
  exact ⟨Bool.eq_false_iff.2 hall.block, Bool.eq_false_iff.2 hall.definition⟩

/-- What is exported by default as an expression does not start like a function or a class. -/
theorem WellSpelled.defaultExport {depth : Nat} (h : n.WellSpelled) (hn : n.isStatement = false)
    (ht : Print.defaultExport c depth (some n.printed) = .ok t) :
    ∃ u, t = "export default " ++ u ∧ opensDefinition u = false := by
  have hexpression : (do
      let text ← item c (some n.printed)
      let apart ← n.printed.node.startsWith Node.isFunctionOrClass
      return "export default " ++ (if apart then Print.parenthesized text else text) ++ ";" :
        Printing Text) = .ok t := by
    obtain ⟨loc, form⟩ := n
    cases form
    case functionDeclaration => cases hn
    case classDeclaration => cases hn
    all_goals exact ht
  obtain ⟨text, htext, ht⟩ := bind_eq_ok.1 hexpression
  obtain ⟨apart, hapart, ht⟩ := bind_eq_ok.1 ht
  cases ht
  obtain ⟨first, -, rfl, hstarts⟩ := h.startsWith hapart htext
  have hplain : StartsLike True False
      (if first.isFunctionOrClass = true then Print.parenthesized text else text) :=
    hstarts.guarded (fun _ => .inr trivial) .inl
  have hall := hplain.append (.ofSign (t := ";") (by decide))
  exact ⟨_, List.append_assoc .., Bool.eq_false_iff.2 hall.definition⟩

/-- Directly behind the arrow of an arrow function with an expression stands a brace only if the
expression starts with an object pattern. -/
theorem WellSpelled.arrow {params : List Printed} {isAsync : Bool} (h : n.WellSpelled)
    (hn : isBlock (some n.printed) = false)
    (ht : Print.arrow c params (some n.printed) isAsync = .ok t) :
    ∃ head u v, t = head ++ " => " ++ u ∧ item c (some n.printed) = .ok v ∧
      (u = v ∨ u = Print.parenthesized v) ∧
      (opensBrace u = true → ∃ loc properties,
        n.leftmost = .ok (some (.mk loc (.objectPattern properties)))) := by
  have hbody : ∀ head : Text, (do
      if isBlock (some n.printed) then return head ++ (← Print.block c.depth (some n.printed))
      let text ← item c (some n.printed)
      let opensBrace ← n.printed.node.startsWith Node.isObject
      return head ++ (if opensBrace then Print.parenthesized text else text) : Printing Text) =
        .ok t →
      ∃ text first, item c (some n.printed) = .ok text ∧ n.leftmost = .ok (some first) ∧
        t = head ++ (if first.isObject then Print.parenthesized text else text) ∧
        StartsLike (first.isObject = true ∨ first.isObjectPattern = true)
          (first.isFunctionOrClass = true) text := by
    intro head hprinted
    rw [if_neg (by simp [hn])] at hprinted
    obtain ⟨text, htext, hprinted⟩ := bind_eq_ok.1 hprinted
    obtain ⟨opensBrace, hopens, hprinted⟩ := bind_eq_ok.1 hprinted
    cases hprinted
    obtain ⟨first, hfirst, rfl, hstarts⟩ := h.startsWith hopens htext
    exact ⟨text, first, htext, hfirst, rfl, hstarts⟩
  have hfound : ∃ head text first, item c (some n.printed) = .ok text ∧
      n.leftmost = .ok (some first) ∧
      t = head ++ " => " ++ (if first.isObject then Print.parenthesized text else text) ∧
      StartsLike (first.isObject = true ∨ first.isObjectPattern = true)
        (first.isFunctionOrClass = true) text := by
    unfold Print.arrow at ht
    dsimp only at ht
    split at ht
    all_goals
      obtain ⟨inner, -, ht⟩ := bind_eq_ok.1 ht
      obtain ⟨text, first, htext, hfirst, rfl, hstarts⟩ := hbody _ ht
      exact ⟨mark isAsync "async " ++ inner, text, first, htext, hfirst, rfl, hstarts⟩
  obtain ⟨head, text, first, htext, hfirst, rfl, hstarts⟩ := hfound
  have hguarded : StartsLike (first.isObjectPattern = true) True
      (if first.isObject = true then Print.parenthesized text else text) :=
    hstarts.guarded id fun _ => .inr trivial
  refine ⟨head, _, text, rfl, htext, ?_, fun hopens => ?_⟩
  · split
    · exact .inr rfl
    · exact .inl rfl
  · obtain ⟨loc, form⟩ := first
    have hpattern := hguarded.block hopens
    cases form
    case objectPattern properties => exact ⟨loc, properties, hfirst⟩
    all_goals cases hpattern

/-- There the brace is printed, and it would be read as that of a block. -/
example : (made (.arrowFunctionExpression [made (.identifier "x")] (some (made
    (.assignmentExpression "=" (some (made (.objectPattern [made (.property
      (some (made (.identifier "a"))) (some (made (.identifier "a"))) false true false "init")])))
      (some (made (.identifier "b")))))) false)).expressionText =
    .ok "x => \x7b a \x7d = b" := by
  rfl

end

end Node

end ModuleLowering
