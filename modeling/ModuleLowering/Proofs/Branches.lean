import ModuleLowering.Proofs.Pieces
import ModuleLowering.Proofs.Printing

/-!
# Branches and loops as rows of pieces

Statements made of branches, loops, blocks, empty statements and names. Where a branch before an
`else` ends with an `if` that has none, the printer puts it in braces, since the `else` would be
taken for that of the inner `if`. The tree that the text stands for is the one with these branches
in blocks, and the text is the row of its pieces.
-/

set_option autoImplicit false

namespace ModuleLowering

open Print

namespace Node

/-! ## Statements made of branches and loops -/

/-- An identifier that is no word of the grammar. -/
inductive Named : Node → Prop where
  | mk {loc : Option Position} {x : Text} : x.isName = true → Word.ofText? x = none →
      Named (.mk loc (.identifier x))

/-- The declaration of one name without a value. -/
inductive DeclaresName : Node → Prop where
  | mk {loc loc' : Option Position} {w : Word} {id : Node} :
      (Terminal.word w).declaresVariables = true → Named id →
      DeclaresName (.mk loc (.variableDeclaration w.text
        [.mk loc' (.variableDeclarator (some id) none)]))

/-- A statement made of branches, loops, blocks, empty statements and names. Where `closed` holds,
no branch before an `else` ends with an `if` that has none. -/
inductive Structured (closed : Bool) : Node → Prop where
  | expression {loc : Option Position} {e : Node} : Named e →
      Structured closed (.mk loc (.expressionStatement (some e)))
  | empty {loc : Option Position} : Structured closed (.mk loc .emptyStatement)
  | block {loc : Option Position} {body : List Node} : (∀ n ∈ body, Structured closed n) →
      Structured closed (.mk loc (.blockStatement body))
  | ifOnly {loc : Option Position} {test consequent : Node} : Named test →
      Structured closed consequent →
      Structured closed (.mk loc (.ifStatement (some test) (some consequent) none))
  | ifElse {loc : Option Position} {test consequent alternate : Node} : Named test →
      Structured closed consequent → Structured closed alternate →
      (closed = true → consequent.endsWithOpenIf = false) →
      Structured closed (.mk loc (.ifStatement (some test) (some consequent) (some alternate)))
  | forLoop {loc : Option Position} {init test update : Option Node} {body : Node} :
      (∀ e ∈ init, Named e) → (∀ e ∈ test, Named e) → (∀ e ∈ update, Named e) →
      Structured closed body →
      Structured closed (.mk loc (.forStatement init test update (some body)))
  | forIn {loc : Option Position} {left right body : Node} : DeclaresName left → Named right →
      Structured closed body →
      Structured closed (.mk loc (.forInStatement (some left) (some right) (some body)))
  | forOf {loc : Option Position} {left right body : Node} {isAwait : Bool} : DeclaresName left →
      Named right → Structured closed body →
      Structured closed (.mk loc (.forOfStatement (some left) (some right) (some body) isAwait))
  | whileLoop {loc : Option Position} {test body : Node} : Named test → Structured closed body →
      Structured closed (.mk loc (.whileStatement (some test) (some body)))
  | doWhile {loc : Option Position} {body test : Node} : Structured closed body → Named test →
      Structured closed (.mk loc (.doWhileStatement (some body) (some test)))

/-- A module made of such statements. -/
inductive StructuredModule (closed : Bool) : Node → Prop where
  | mk {loc : Option Position} {body : List Node} : (∀ n ∈ body, Structured closed n) →
      StructuredModule closed (.mk loc (.program body))

/-- The tree with every branch that would capture an `else` in a block. -/
def braced (n : Node) : Node :=
  n.fold fun n form =>
    match n.form, form with
    | .ifStatement _ (some consequent) (some _), .ifStatement test (some branch) alternate =>
      if consequent.endsWithOpenIf then
        n.withForm (.ifStatement test (some (made (.blockStatement [branch]))) alternate)
      else n.withForm form
    | _, form => n.withForm form

/-- A word with what is in parentheses behind it, and the rest. -/
def headed (w : Word) (head rest : List Piece) : List Piece :=
  .word w :: .punctuator .leftParen :: (head ++ .punctuator .rightParen :: rest)

/-- Pieces between braces. -/
def enclosed (ps : List Piece) : List Piece :=
  .punctuator .leftBrace :: (ps ++ [.punctuator .rightBrace])

/-- The pieces that a statement made of branches and loops is written with. -/
def pieces (n : Node) : List Piece :=
  n.fold fun _ form =>
    match form with
    | .identifier x => [.name x]
    | .variableDeclarator id _ => id.getD []
    | .variableDeclaration kind declarators =>
      (Word.ofText? kind).toList.map .word ++ declarators.flatten
    | .expressionStatement e => e.getD [] ++ [.terminator true]
    | .emptyStatement => [.terminator false]
    | .blockStatement body => enclosed body.flatten
    | .ifStatement test consequent none => headed .kwIf (test.getD []) (consequent.getD [])
    | .ifStatement test consequent (some alternate) =>
      headed .kwIf (test.getD []) (consequent.getD [] ++ .word .kwElse :: alternate)
    | .forStatement init test update body =>
      headed .kwFor (init.getD [] ++ .punctuator .semicolon ::
        (test.getD [] ++ .punctuator .semicolon :: update.getD [])) (body.getD [])
    | .forInStatement left right body =>
      headed .kwFor (left.getD [] ++ .word .kwIn :: right.getD []) (body.getD [])
    | .forOfStatement left right body isAwait =>
      let head := left.getD [] ++ .word .kwOf :: right.getD []
      if isAwait then .word .kwFor :: headed .kwAwait head (body.getD [])
      else headed .kwFor head (body.getD [])
    | .whileStatement test body => headed .kwWhile (test.getD []) (body.getD [])
    | .doWhileStatement body test =>
      .word .kwDo :: (body.getD [] ++ headed .kwWhile (test.getD []) [.terminator true])
    | .program body => body.flatten
    | _ => []

/-! ## Braces -/

section

variable (loc : Option Position) (test consequent alternate left right body : Node)

@[simp] theorem braced_expression (e : Node) :
    (mk loc (.expressionStatement (some e))).braced =
      mk loc (.expressionStatement (some e.braced)) := rfl

@[simp] theorem braced_empty : (mk loc .emptyStatement).braced = mk loc .emptyStatement := rfl

@[simp] theorem braced_block (body : List Node) :
    (mk loc (.blockStatement body)).braced = mk loc (.blockStatement (body.map braced)) := by
  show mk loc (.blockStatement (foldList _ body)) = _
  rw [foldList_eq_map]
  rfl

@[simp] theorem braced_ifOnly :
    (mk loc (.ifStatement (some test) (some consequent) none)).braced =
      mk loc (.ifStatement (some test.braced) (some consequent.braced) none) := rfl

@[simp] theorem braced_ifElse :
    (mk loc (.ifStatement (some test) (some consequent) (some alternate))).braced =
      mk loc (.ifStatement (some test.braced)
        (some (if consequent.endsWithOpenIf then made (.blockStatement [consequent.braced])
          else consequent.braced)) (some alternate.braced)) := by
  show (if _ then _ else _) = _
  split
  · rfl
  · rfl

@[simp] theorem braced_forLoop (init test update : Option Node) :
    (mk loc (.forStatement init test update (some body))).braced =
      mk loc (.forStatement (init.map braced) (test.map braced) (update.map braced)
        (some body.braced)) := by
  cases init <;> cases test <;> cases update <;> rfl

@[simp] theorem braced_forIn :
    (mk loc (.forInStatement (some left) (some right) (some body))).braced =
      mk loc (.forInStatement (some left.braced) (some right.braced) (some body.braced)) := rfl

@[simp] theorem braced_forOf (isAwait : Bool) :
    (mk loc (.forOfStatement (some left) (some right) (some body) isAwait)).braced =
      mk loc (.forOfStatement (some left.braced) (some right.braced) (some body.braced) isAwait) :=
  rfl

@[simp] theorem braced_whileLoop :
    (mk loc (.whileStatement (some test) (some body))).braced =
      mk loc (.whileStatement (some test.braced) (some body.braced)) := rfl

@[simp] theorem braced_doWhile :
    (mk loc (.doWhileStatement (some body) (some test))).braced =
      mk loc (.doWhileStatement (some body.braced) (some test.braced)) := rfl

@[simp] theorem braced_program (body : List Node) :
    (mk loc (.program body)).braced = mk loc (.program (body.map braced)) := by
  show mk loc (.program (foldList _ body)) = _
  rw [foldList_eq_map]
  rfl

end

variable {closed : Bool} {n e : Node}

theorem Named.braced_eq (h : e.Named) : e.braced = e := by
  cases h
  rfl

theorem DeclaresName.braced_eq (h : e.DeclaresName) : e.braced = e := by
  cases h with
  | mk hw hid =>
    cases hid
    rfl

theorem map_braced_eq {e : Option Node} (h : ∀ x ∈ e, x.Named) : e.map braced = e := by
  cases e with
  | none => rfl
  | some e => exact congrArg some (h e rfl).braced_eq

/-- Blocks around branches do not change what a statement ends with. -/
theorem Structured.endsWithOpenIf_braced (h : n.Structured closed) :
    n.braced.endsWithOpenIf = n.endsWithOpenIf := by
  induction h with
  | expression | empty | ifOnly | doWhile => rfl
  | block => rw [braced_block]; rfl
  | ifElse _ _ _ _ _ ih => rw [braced_ifElse]; exact ih
  | forLoop _ _ _ _ ih => rw [braced_forLoop]; exact ih
  | forIn _ _ _ ih | forOf _ _ _ ih | whileLoop _ _ ih => exact ih

/-- With blocks around these branches every `else` stays with its `if`. -/
theorem Structured.braced (h : n.Structured closed) : n.braced.Structured true := by
  induction h with
  | expression he =>
    rw [braced_expression, he.braced_eq]
    exact .expression he
  | empty => exact .empty
  | block _ ih =>
    rw [braced_block]
    apply Structured.block
    intro n hn
    obtain ⟨m, hm, rfl⟩ := List.mem_map.1 hn
    exact ih m hm
  | ifOnly htest _ ih =>
    rw [braced_ifOnly, htest.braced_eq]
    exact .ifOnly htest ih
  | @ifElse loc test consequent alternate htest hconsequent _ _ ih ih' =>
    rw [braced_ifElse, htest.braced_eq]
    by_cases hopen : consequent.endsWithOpenIf = true
    · rw [if_pos hopen]
      apply Structured.ifElse htest _ ih' (fun _ => rfl)
      apply Structured.block
      intro n hn
      rw [List.mem_singleton.1 hn]
      exact ih
    · rw [if_neg hopen]
      apply Structured.ifElse htest ih ih'
      intro _
      rw [hconsequent.endsWithOpenIf_braced]
      exact Bool.eq_false_iff.2 hopen
  | forLoop hinit htest hupdate _ ih =>
    rw [braced_forLoop, map_braced_eq hinit, map_braced_eq htest, map_braced_eq hupdate]
    exact .forLoop hinit htest hupdate ih
  | forIn hleft hright _ ih =>
    rw [braced_forIn, hleft.braced_eq, hright.braced_eq]
    exact .forIn hleft hright ih
  | forOf hleft hright _ ih =>
    rw [braced_forOf, hleft.braced_eq, hright.braced_eq]
    exact .forOf hleft hright ih
  | whileLoop htest _ ih =>
    rw [braced_whileLoop, htest.braced_eq]
    exact .whileLoop htest ih
  | doWhile _ htest ih =>
    rw [braced_doWhile, htest.braced_eq]
    exact .doWhile ih htest

theorem pieces_block (loc : Option Position) (statements : List Node) :
    (mk loc (.blockStatement statements)).pieces = enclosed (statements.map pieces).flatten := by
  show enclosed (foldList _ statements).flatten = _
  rw [foldList_eq_map]
  rfl

theorem pieces_program (loc : Option Position) (statements : List Node) :
    (mk loc (.program statements)).pieces = (statements.map pieces).flatten := by
  show (foldList _ statements).flatten = _
  rw [foldList_eq_map]
  rfl

theorem pieces_declaration (loc loc' : Option Position) (w : Word) (id : Node) :
    (mk loc (.variableDeclaration w.text [mk loc' (.variableDeclarator (some id) none)])).pieces =
      .word w :: id.pieces := by
  show (Word.ofText? w.text).toList.map .word ++ [id.pieces].flatten = _
  rw [Word.ofText_text, List.flatten_singleton]
  rfl

theorem pieces_forLoop (loc : Option Position) (init test update : Option Node) (loop : Node) :
    (mk loc (.forStatement init test update (some loop))).pieces =
      headed .kwFor ((init.map pieces).getD [] ++ .punctuator .semicolon ::
        ((test.map pieces).getD [] ++ .punctuator .semicolon :: (update.map pieces).getD []))
        loop.pieces := by
  cases init <;> cases test <;> cases update <;> rfl

/-! ## Texts -/

open Scanner

variable {t u : Text} {ps qs : List Piece} {left right body : Node} {depth least : Nat}
  {c : Setting}

theorem Named.loose (h : e.Named) : Loose e.pieces := by
  cases h
  exact ⟨_, _, rfl, rfl⟩

/-- A name is written without parentheses. -/
theorem Named.exists_expression (h : e.Named) (c : Setting) (least : Nat)
    (hleast : least ≤ Precedence.primary) :
    ∃ x, Print.expression c least (some e.printed) = .ok x ∧ x ≠ [] ∧ Laid x e.pieces := by
  cases h with
  | @mk loc x hname hword =>
    refine ⟨x, ?_, ?_, Laid.one (p := .name x) ⟨hname, hword, nofun⟩⟩
    · have hloose : ¬((decide (Precedence.primary < least) ||
          (c.noIn && isIn (Node.mk loc (.identifier x)))) = true) := by
        have hin : isIn (Node.mk loc (.identifier x)) = false := rfl
        simp [hin, hleast]
      exact if_neg hloose
    · rintro rfl
      cases hname

theorem DeclaresName.loose (h : left.DeclaresName) : Loose left.pieces := by
  cases h with
  | @mk loc loc' w id hw hid =>
    rw [pieces_declaration]
    exact ⟨_, _, rfl, rfl⟩

theorem DeclaresName.exists_declaration (h : left.DeclaresName) (c : Setting) :
    ∃ t, declaration c (some left.printed) = .ok t ∧ Laid t left.pieces := by
  cases h with
  | @mk loc loc' w id hw hid =>
    obtain ⟨x, hx, -, hlaid⟩ := hid.exists_expression c Precedence.assignment (by decide)
    have htext : declaration c (some (Node.mk loc (.variableDeclaration w.text
        [Node.mk loc' (.variableDeclarator (some id) none)])).printed) =
          .ok (w.text ++ (" " ++ x)) := by
      have hitem : item c (some id.printed) = .ok x := hx
      have hdeclarator : declarator c
          (Node.mk loc' (.variableDeclarator (some id) none)).printed = .ok x := by
        show (item c (some id.printed) >>= fun target => pure target) = _
        rw [hitem]
        rfl
      show (do return w.text ++ " " ++ commas (← [(Node.mk loc' (.variableDeclarator (some id)
        none)).printed].mapM (declarator c)) : Printing Text) = _
      rw [List.mapM_cons, hdeclarator, List.mapM_nil]
      show Except.ok (w.text ++ " " ++ [x].flatten) = _
      rw [List.flatten_singleton, List.append_assoc]
    refine ⟨_, htext, ?_⟩
    rw [pieces_declaration]
    have hspaced := hlaid.spaces (g := " ") (by decide) hid.loose
    exact hspaced.behind (p := .word w) (apart_append_left (by decide) (by decide) x)

/-- However deep a statement stands, its text is a row of pieces. -/
structure Writes (n : Node) (ps : List Piece) : Prop where
  statement : ∀ depth, ∃ t, n.printed.statement depth = .ok t ∧ Laid t ps
  loose : Loose ps

/-- What a branch or a loop runs is written apart from the word before it. -/
theorem Writes.exists_body (h : n.Writes ps) (depth : Nat) :
    ∃ t, Print.body depth (some n.printed) = .ok t ∧ Apart t ∧ Laid t ps := by
  have hline : ∃ t, (do
      return "\n" ++ indent (depth + 1) ++ (← n.printed.statement (depth + 1)) : Printing Text) =
        .ok t ∧ Apart t ∧ Laid t ps := by
    obtain ⟨t, ht, hlaid⟩ := h.statement (depth + 1)
    have hgap := spaces_newLine (depth + 1)
    rw [ht]
    exact ⟨_, rfl, apart_spaces hgap (newLine_ne_nil _) t, hlaid.spaces hgap h.loose⟩
  obtain ⟨loc, form⟩ := n
  cases form
  case blockStatement statements =>
    obtain ⟨t, ht, hlaid⟩ := h.statement depth
    have hblock : Print.block depth (some (Node.mk loc (.blockStatement statements)).printed) =
        .ok t := ht
    refine ⟨" " ++ t, ?_, apart_spaces (by decide) (by decide) t, hlaid.spaces (by decide) h.loose⟩
    show (do return " " ++ (← Print.block depth (some (Node.mk loc (.blockStatement
      statements)).printed)) : Printing Text) = _
    rw [hblock]
    rfl
  case emptyStatement =>
    obtain ⟨t, ht, hlaid⟩ := h.statement depth
    obtain rfl : ";" = t := Except.ok.inj ht
    exact ⟨";", rfl, by decide, hlaid⟩
  all_goals exact hline

/-- Statements on lines of their own. -/
theorem exists_lines {statements : List Node} {pieces : Node → List Piece}
    (h : ∀ n ∈ statements, n.Writes (pieces n)) (depth : Nat) :
    ∃ ts, (foldList printedOf statements).mapM (line depth) = .ok ts ∧
      List.Forall₂ Laid ts (statements.map pieces) := by
  rw [foldList_eq_map]
  induction statements with
  | nil => exact ⟨[], rfl, .nil⟩
  | cons n statements ih =>
    obtain ⟨hn, hrest⟩ := List.forall_mem_cons.1 h
    obtain ⟨t, ht, hlaid⟩ := hn.statement depth
    obtain ⟨ts, hts, hlaids⟩ := ih hrest
    have hline : line depth n.printed = .ok (indent depth ++ t) := by
      show (do return indent depth ++ (← n.printed.statement depth) : Printing Text) = _
      rw [ht]
      rfl
    have hline' := hlaid.spaces (spaces_indent depth) hn.loose
    refine ⟨(indent depth ++ t) :: ts, ?_, .cons hline' hlaids⟩
    rw [List.map_cons, List.mapM_cons, show line depth (n.fold printedOf) = _ from hline, hts]
    rfl

theorem loose_headed (w : Word) (ps qs : List Piece) : Loose (headed w ps qs) := ⟨_, _, rfl, rfl⟩

/-- A text with a word in front of it that it stands apart from. -/
theorem laid_word (w : Word) (hapart : Apart t) (ht : Laid t ps) :
    Laid (w.text ++ t) (.word w :: ps) :=
  ht.behind (p := .word w) hapart

/-- The head of a branch or a loop, and what it runs. -/
theorem laid_head (w : Word) (ht : Laid t ps) (hu : Laid u qs) :
    Laid (w.text ++ (" " ++ (parenthesized t ++ u))) (headed w ps qs) := by
  have hhead := (ht.parenthesized hu).spaces (g := " ") (by decide) ⟨_, _, rfl, rfl⟩
  exact laid_word w (apart_spaces (by decide) (by decide) _) hhead

/-! ## Statements -/

section

variable {loc : Option Position} {test consequent alternate left right loop : Node}

theorem Named.whole (h : e.Named) (c : Setting) :
    ∃ x, Print.whole c (some e.printed) = .ok x ∧ x ≠ [] ∧ Laid x e.pieces :=
  h.exists_expression c Precedence.sequence (by decide)

theorem writes_expression (h : e.Named) :
    (Node.mk loc (.expressionStatement (some e))).Writes (e.pieces ++ [.terminator true]) := by
  refine ⟨fun depth => ?_, h.loose.append _⟩
  cases h with
  | @mk loc' x hname hword =>
    have hend : Laid ";" [.terminator true] := .one (p := .terminator true) trivial
    refine ⟨x ++ ";", rfl, ?_⟩
    exact hend.behind (p := .name x) ⟨hname, hword, by decide⟩

theorem writes_empty : (Node.mk loc .emptyStatement).Writes [.terminator false] where
  statement _ := ⟨";", rfl, .one (p := .terminator false) trivial⟩
  loose := ⟨_, _, rfl, rfl⟩

theorem writes_block {statements : List Node} {pieces : Node → List Piece}
    (h : ∀ n ∈ statements, n.Writes (pieces n)) :
    (Node.mk loc (.blockStatement statements)).Writes
      (enclosed (statements.map pieces).flatten) := by
  refine ⟨fun depth => ?_, ⟨_, _, rfl, rfl⟩⟩
  obtain ⟨ts, hts, hlaids⟩ := exists_lines h (depth + 1)
  refine ⟨linesInBraces depth ts, ?_, Laid.linesInBraces hlaids ?_ depth⟩
  · show (do return linesInBraces depth (← (foldList printedOf statements).mapM
      (line (depth + 1))) : Printing Text) = _
    rw [hts]
    rfl
  · intro ps hps
    obtain ⟨n, hn, rfl⟩ := List.mem_map.1 hps
    exact (h n hn).loose

theorem writes_ifOnly (htest : test.Named) (h : consequent.Writes ps) :
    (Node.mk loc (.ifStatement (some test) (some consequent) none)).Writes
      (headed .kwIf test.pieces ps) := by
  refine ⟨fun depth => ?_, ⟨_, _, rfl, rfl⟩⟩
  obtain ⟨x, hx, -, hlaid⟩ := htest.whole ⟨depth, false⟩
  obtain ⟨u, hu, -, hrest⟩ := h.exists_body depth
  refine ⟨_, ?_, laid_head .kwIf hlaid hrest⟩
  show (do
    let test ← Print.whole ⟨depth, false⟩ (some test.printed)
    let branch ← Print.body depth (some consequent.printed)
    return "if " ++ parenthesized test ++ branch : Printing Text) = _
  rw [hx, hu]
  show Except.ok ("if " ++ parenthesized x ++ u) = _
  rw [List.append_assoc]
  rfl

theorem writes_whileLoop (htest : test.Named) (h : loop.Writes ps) :
    (Node.mk loc (.whileStatement (some test) (some loop))).Writes
      (headed .kwWhile test.pieces ps) := by
  refine ⟨fun depth => ?_, ⟨_, _, rfl, rfl⟩⟩
  obtain ⟨x, hx, -, hlaid⟩ := htest.whole ⟨depth, false⟩
  obtain ⟨u, hu, -, hrest⟩ := h.exists_body depth
  refine ⟨_, ?_, laid_head .kwWhile hlaid hrest⟩
  show (do
    let test ← Print.whole ⟨depth, false⟩ (some test.printed)
    return "while " ++ parenthesized test ++ (← Print.body depth (some loop.printed)) :
      Printing Text) = _
  rw [hx, hu]
  show Except.ok ("while " ++ parenthesized x ++ u) = _
  rw [List.append_assoc]
  rfl

theorem body_of_isBlock {p : Option Printed} (h : isBlock p = true) (depth : Nat) :
    Print.body depth p = (do return " " ++ (← block depth p)) := by
  cases p with
  | none => cases h
  | some p =>
    obtain ⟨n, form, bare, statement⟩ := p
    cases form <;> first | rfl | cases h

theorem writes_doWhile (h : loop.Writes ps) (htest : test.Named) :
    (Node.mk loc (.doWhileStatement (some loop) (some test))).Writes
      (.word .kwDo :: (ps ++ headed .kwWhile test.pieces [.terminator true])) := by
  refine ⟨fun depth => ?_, ⟨_, _, rfl, rfl⟩⟩
  obtain ⟨x, hx, -, hlaid⟩ := htest.whole ⟨depth, false⟩
  obtain ⟨u, hu, hapart, hrest⟩ := h.exists_body depth
  have hend : Laid ";" [.terminator true] := .one (p := .terminator true) trivial
  have hcondition := laid_head .kwWhile hlaid hend
  have hlaids : ∀ g : Text, Spaces g → g ≠ [] → Laid (Word.kwDo.text ++ (u ++ (g ++
      (Word.kwWhile.text ++ (" " ++ (parenthesized x ++ ";")))))) _ := fun g hg hne =>
    laid_word .kwDo (apart_append hapart (apart_spaces hg hne _))
      (hrest.append (apart_spaces hg hne _) (hcondition.spaces hg (loose_headed _ _ _)))
  have htext : (Node.mk loc (.doWhileStatement (some loop) (some test))).printed.statement depth =
      if isBlock (some loop.printed) then
        (do return "do " ++ (← block depth (some loop.printed)) ++ " " ++
          ("while " ++ parenthesized x ++ ";"))
      else (do return "do" ++ (← Print.body depth (some loop.printed)) ++ "\n" ++ indent depth ++
        ("while " ++ parenthesized x ++ ";")) := by
    show (do
      let test ← Print.whole ⟨depth, false⟩ (some test.printed)
      _ : Printing Text) = _
    rw [hx]
    rfl
  rw [htext]
  by_cases hblock : isBlock (some loop.printed) = true
  · rw [body_of_isBlock hblock] at hu
    rw [if_pos hblock]
    cases hb : block depth (some loop.printed) with
    | error e =>
      rw [hb] at hu
      cases hu
    | ok t =>
      rw [hb] at hu
      obtain rfl : " " ++ t = u := Except.ok.inj hu
      refine ⟨_, ?_, hlaids " " (by decide) (by decide)⟩
      show Except.ok ("do " ++ t ++ " " ++ ("while " ++ parenthesized x ++ ";")) = _
      simp only [List.append_assoc]
      rfl
  · rw [if_neg hblock, hu]
    refine ⟨_, ?_, hlaids _ (spaces_newLine depth) (newLine_ne_nil depth)⟩
    show Except.ok ("do" ++ u ++ "\n" ++ indent depth ++ ("while " ++ parenthesized x ++ ";")) = _
    simp only [List.append_assoc]
    rfl

/-- A branch before an `else`, in braces if it would capture the `else`. -/
theorem Writes.exists_branch (h : consequent.Writes ps) (depth : Nat) :
    ∃ u, (if consequent.endsWithOpenIf then
        (do return " " ++ linesInBraces depth [← line (depth + 1) consequent.printed])
      else Print.body depth (some consequent.printed) : Printing Text) = .ok u ∧ Apart u ∧
      Laid u (if consequent.endsWithOpenIf then enclosed ps else ps) := by
  by_cases hopen : consequent.endsWithOpenIf = true
  · obtain ⟨t, ht, hlaid⟩ := h.statement (depth + 1)
    have hlaid := hlaid.spaces (spaces_indent (depth + 1)) h.loose
    have hline := Laid.linesInBraces (.cons hlaid .nil)
      (fun qs hqs => List.mem_singleton.1 hqs ▸ h.loose) depth
    rw [List.flatten_singleton] at hline
    have hspaced := hline.spaces (g := " ") (by decide) ⟨_, _, rfl, rfl⟩
    rw [if_pos hopen, if_pos hopen]
    refine ⟨_, ?_, apart_spaces (by decide) (by decide) _, hspaced⟩
    have hfirst : line (depth + 1) consequent.printed = .ok (indent (depth + 1) ++ t) := by
      show (do return indent (depth + 1) ++ (← consequent.printed.statement (depth + 1)) :
        Printing Text) = _
      rw [ht]
      rfl
    rw [hfirst]
    rfl
  · rw [if_neg hopen, if_neg hopen]
    exact h.exists_body depth

/-- What an `else` runs: another `if` stays on its line. -/
theorem Writes.exists_else (h : alternate.Writes qs) (head : Text) (depth : Nat) :
    ∃ v, (match alternate.printed.form with
      | .ifStatement .. => do return head ++ "else " ++ (← alternate.printed.statement depth)
      | _ => do return head ++ "else" ++ (← Print.body depth (some alternate.printed)) :
        Printing Text) = .ok (head ++ "else" ++ v) ∧ Apart v ∧ Laid v qs := by
  have hbody : ∃ v, (do return head ++ "else" ++ (← Print.body depth (some alternate.printed)) :
      Printing Text) = .ok (head ++ "else" ++ v) ∧ Apart v ∧ Laid v qs := by
    obtain ⟨v, hv, hapart, hlaid⟩ := h.exists_body depth
    refine ⟨v, ?_, hapart, hlaid⟩
    rw [hv]
    rfl
  obtain ⟨loc, form⟩ := alternate
  cases form
  case ifStatement test consequent alternate =>
    obtain ⟨t, ht, hlaid⟩ := h.statement depth
    refine ⟨" " ++ t, ?_, apart_spaces (by decide) (by decide) t, hlaid.spaces (by decide) h.loose⟩
    show (do return head ++ "else " ++ (← (Node.mk loc
      (.ifStatement test consequent alternate)).printed.statement depth) : Printing Text) = _
    rw [ht]
    show Except.ok (head ++ "else " ++ t) = _
    simp only [List.append_assoc]
    rfl
  all_goals exact hbody

/-- What stands between a branch and its `else`. -/
def gapBeforeElse (consequent : Node) (depth : Nat) : Text :=
  if consequent.endsWithOpenIf || isBlock (some consequent.printed) then " "
  else "\n" ++ indent depth

theorem spaces_gapBeforeElse (consequent : Node) (depth : Nat) :
    Spaces (gapBeforeElse consequent depth) ∧ gapBeforeElse consequent depth ≠ [] := by
  unfold gapBeforeElse
  split
  · exact ⟨by decide, by decide⟩
  · exact ⟨spaces_newLine depth, newLine_ne_nil depth⟩

theorem ifStatement_eq {x : Text} (hx : Print.whole ⟨depth, false⟩ (some test.printed) = .ok x)
    (hu : (if consequent.endsWithOpenIf then
        (do return " " ++ linesInBraces depth [← line (depth + 1) consequent.printed])
      else Print.body depth (some consequent.printed) : Printing Text) = .ok u) :
    (Node.mk loc (.ifStatement (some test) (some consequent) (some alternate))).printed.statement
      depth =
      let head : Text := "if " ++ parenthesized x ++ u ++ gapBeforeElse consequent depth
      match alternate.printed.form with
      | .ifStatement .. => do return head ++ "else " ++ (← alternate.printed.statement depth)
      | _ => do return head ++ "else" ++ (← Print.body depth (some alternate.printed)) := by
  show Print.ifStatement ⟨depth, false⟩ depth (some test.printed) (some consequent.printed)
    (some alternate.printed) = _
  unfold Print.ifStatement gapBeforeElse
  rw [hx]
  dsimp only [Option.isSome, Option.map, Option.getD, Bool.true_and]
  rw [node_printed]
  cases hopen : consequent.endsWithOpenIf with
  | false =>
    rw [hopen, if_neg Bool.false_ne_true] at hu
    show (Print.body depth (some consequent.printed) >>= _) = _
    rw [hu]
    rfl
  | true =>
    rw [hopen, if_pos rfl] at hu
    cases hline : line (depth + 1) consequent.printed with
    | error e =>
      rw [hline] at hu
      cases hu
    | ok t =>
      rw [hline] at hu
      obtain rfl : " " ++ linesInBraces depth [t] = u := Except.ok.inj hu
      show (line (depth + 1) consequent.printed >>= _) = _
      rw [hline]
      rfl

theorem writes_ifElse (htest : test.Named) (h : consequent.Writes ps) (h' : alternate.Writes qs) :
    (Node.mk loc (.ifStatement (some test) (some consequent) (some alternate))).Writes
      (headed .kwIf test.pieces
        ((if consequent.endsWithOpenIf then enclosed ps else ps) ++ .word .kwElse :: qs)) := by
  refine ⟨fun depth => ?_, ⟨_, _, rfl, rfl⟩⟩
  obtain ⟨x, hx, -, hlaid⟩ := htest.whole ⟨depth, false⟩
  obtain ⟨u, hu, hapart, hbranch⟩ := h.exists_branch depth
  obtain ⟨hgap, hne⟩ := spaces_gapBeforeElse consequent depth
  obtain ⟨v, hv, hapart', hrest⟩ := h'.exists_else
    ("if " ++ parenthesized x ++ u ++ gapBeforeElse consequent depth) depth
  have helse := (laid_word .kwElse hapart' hrest).spaces hgap ⟨_, _, rfl, rfl⟩
  refine ⟨_, ?_, laid_head .kwIf hlaid (hbranch.append (apart_spaces hgap hne _) helse)⟩
  refine (ifStatement_eq hx hu).trans (hv.trans ?_)
  simp only [List.append_assoc]
  rfl

/-- A name after a semicolon in the head of a loop, if it is there. -/
theorem exists_forPart {e : Option Node} (h : ∀ x ∈ e, x.Named) (c : Setting) :
    ∃ t, Print.forPart c (foldPart printedOf e) = .ok t ∧ Laid t ((e.map pieces).getD []) := by
  cases e with
  | none => exact ⟨[], rfl, .nil⟩
  | some e =>
    have he := h e rfl
    obtain ⟨x, hx, hne, hlaid⟩ := he.whole c
    refine ⟨" " ++ x, ?_, hlaid.spaces (by decide) he.loose⟩
    show (do
      let text ← Print.whole c (some e.printed)
      return if text.isEmpty then [] else " " ++ text : Printing Text) = _
    rw [hx]
    show Except.ok (if x.isEmpty then [] else (" " : Text) ++ x) = _
    rw [if_neg (by simpa using hne)]

/-- A name at the start of the head of a loop, if it is there. -/
theorem exists_forInit {e : Option Node} (h : ∀ x ∈ e, x.Named) (c : Setting) :
    ∃ t, Print.forInit c (foldPart printedOf e) = .ok t ∧ Laid t ((e.map pieces).getD []) := by
  cases e with
  | none => exact ⟨[], rfl, .nil⟩
  | some e =>
    have he := h e rfl
    obtain ⟨x, hx, -, hlaid⟩ := he.whole c
    refine ⟨x, ?_, hlaid⟩
    cases he
    exact hx

theorem writes_forLoop {init test update : Option Node} (hinit : ∀ e ∈ init, e.Named)
    (htest : ∀ e ∈ test, e.Named) (hupdate : ∀ e ∈ update, e.Named) (h : loop.Writes ps) :
    (Node.mk loc (.forStatement init test update (some loop))).Writes
      (headed .kwFor ((init.map pieces).getD [] ++ .punctuator .semicolon ::
        ((test.map pieces).getD [] ++ .punctuator .semicolon :: (update.map pieces).getD []))
        ps) := by
  refine ⟨fun depth => ?_, ⟨_, _, rfl, rfl⟩⟩
  obtain ⟨t₁, h₁, hlaid₁⟩ := exists_forInit hinit ⟨depth, true⟩
  obtain ⟨t₂, h₂, hlaid₂⟩ := exists_forPart htest ⟨depth, false⟩
  obtain ⟨t₃, h₃, hlaid₃⟩ := exists_forPart hupdate ⟨depth, false⟩
  obtain ⟨u, hu, -, hrest⟩ := h.exists_body depth
  have hsemicolon : ∀ v : Text, Apart (Punctuator.semicolon.text ++ v) := fun v =>
    apart_append_left (by decide) (by decide) v
  have hlast := hlaid₂.append (hsemicolon _) (hlaid₃.behind (p := .punctuator .semicolon) rfl)
  have hall := hlaid₁.append (hsemicolon _) (hlast.behind (p := .punctuator .semicolon) rfl)
  refine ⟨_, ?_, laid_head .kwFor hall hrest⟩
  show (do
    let init ← forInit ⟨depth, true⟩ (foldPart printedOf init)
    let test ← forPart ⟨depth, false⟩ (foldPart printedOf test)
    let update ← forPart ⟨depth, false⟩ (foldPart printedOf update)
    return "for " ++ parenthesized (init ++ ";" ++ test ++ ";" ++ update) ++
      (← Print.body depth (some loop.printed)) : Printing Text) = _
  rw [h₁, h₂, h₃, hu]
  show Except.ok ("for " ++ parenthesized (t₁ ++ ";" ++ t₂ ++ ";" ++ t₃) ++ u) = _
  simp only [List.append_assoc]
  rfl

/-- What a loop goes over: a declared name, a word and a name. -/
theorem laid_over (w : Word) (hleft : Laid t ps) (hright : Laid u qs) (hqs : Loose qs) :
    Laid (t ++ (" " ++ (w.text ++ (" " ++ u)))) (ps ++ .word w :: qs) := by
  have hword := laid_word w (apart_spaces (by decide) (by decide) u)
    (hright.spaces (g := " ") (by decide) hqs)
  exact hleft.append (apart_spaces (by decide) (by decide) _)
    (hword.spaces (g := " ") (by decide) ⟨_, _, rfl, rfl⟩)

theorem writes_forIn (hleft : left.DeclaresName) (hright : right.Named) (h : loop.Writes ps) :
    (Node.mk loc (.forInStatement (some left) (some right) (some loop))).Writes
      (headed .kwFor (left.pieces ++ .word .kwIn :: right.pieces) ps) := by
  refine ⟨fun depth => ?_, ⟨_, _, rfl, rfl⟩⟩
  obtain ⟨t, ht, hlaid⟩ := hleft.exists_declaration ⟨depth, false⟩
  obtain ⟨x, hx, -, hlaid'⟩ := hright.whole ⟨depth, false⟩
  obtain ⟨u, hu, -, hrest⟩ := h.exists_body depth
  refine ⟨_, ?_, laid_head .kwFor (laid_over .kwIn hlaid hlaid' hright.loose) hrest⟩
  show (do
    let left ← declaration ⟨depth, false⟩ (some left.printed)
    let right ← Print.whole ⟨depth, false⟩ (some right.printed)
    return "for " ++ parenthesized (left ++ " in " ++ right) ++
      (← Print.body depth (some loop.printed)) : Printing Text) = _
  rw [ht, hx, hu]
  show Except.ok ("for " ++ parenthesized (t ++ " in " ++ x) ++ u) = _
  simp only [List.append_assoc]
  rfl

theorem writes_forOf {isAwait : Bool} (hleft : left.DeclaresName) (hright : right.Named)
    (h : loop.Writes ps) :
    (Node.mk loc (.forOfStatement (some left) (some right) (some loop) isAwait)).Writes
      (if isAwait then
        .word .kwFor :: headed .kwAwait (left.pieces ++ .word .kwOf :: right.pieces) ps
      else headed .kwFor (left.pieces ++ .word .kwOf :: right.pieces) ps) := by
  refine ⟨fun depth => ?_, by cases isAwait <;> exact ⟨_, _, rfl, rfl⟩⟩
  obtain ⟨t, ht, hlaid⟩ := hleft.exists_declaration ⟨depth, false⟩
  obtain ⟨x, hx, -, hlaid'⟩ := hright.exists_expression ⟨depth, false⟩ Precedence.assignment
    (by decide)
  obtain ⟨u, hu, -, hrest⟩ := h.exists_body depth
  have hover := laid_over .kwOf hlaid hlaid' hright.loose
  have htext : (Node.mk loc (.forOfStatement (some left) (some right) (some loop)
      isAwait)).printed.statement depth =
        .ok ((if isAwait then ("for await " : Text) else "for ") ++
          parenthesized (t ++ " of " ++ x) ++ u) := by
    have hitem : item ⟨depth, false⟩ (some right.printed) = .ok x := hx
    show (do
      let left ← declaration ⟨depth, false⟩ (some left.printed)
      let right ← item ⟨depth, false⟩ (some right.printed)
      let word : Text := if isAwait then "for await " else "for "
      return word ++ parenthesized (left ++ " of " ++ right) ++
        (← Print.body depth (some loop.printed)) : Printing Text) = _
    rw [ht, hitem, hu]
    rfl
  rw [htext]
  cases isAwait with
  | false =>
    refine ⟨_, ?_, laid_head .kwFor hover hrest⟩
    simp only [List.append_assoc]
    rfl
  | true =>
    have hawait := (laid_head .kwAwait hover hrest).spaces (g := " ") (by decide) ⟨_, _, rfl, rfl⟩
    refine ⟨_, ?_, laid_word .kwFor (apart_spaces (by decide) (by decide) _) hawait⟩
    simp only [List.append_assoc]
    rfl

end

/-! ## All together -/

/-- The text of a statement is the row of pieces of the tree with its braces. -/
theorem Structured.writes (h : n.Structured closed) : n.Writes n.braced.pieces := by
  induction h with
  | expression he =>
    rw [braced_expression, he.braced_eq]
    exact writes_expression he
  | empty => exact writes_empty
  | block _ ih =>
    rw [braced_block, pieces_block, List.map_map]
    exact writes_block ih
  | ifOnly htest _ ih =>
    rw [braced_ifOnly, htest.braced_eq]
    exact writes_ifOnly htest ih
  | @ifElse loc test consequent alternate htest _ _ _ ih ih' =>
    have hwrites :
        (Node.mk loc (.ifStatement (some test) (some consequent) (some alternate))).Writes
          (headed .kwIf test.pieces
            ((if consequent.endsWithOpenIf then enclosed consequent.braced.pieces
              else consequent.braced.pieces) ++ .word .kwElse :: alternate.braced.pieces)) :=
      writes_ifElse htest ih ih'
    rw [braced_ifElse, htest.braced_eq]
    by_cases hopen : consequent.endsWithOpenIf = true
    · have hblock : (made (.blockStatement [consequent.braced])).pieces =
          enclosed consequent.braced.pieces := by
        rw [made, pieces_block, List.map_singleton, List.flatten_singleton]
      rw [if_pos hopen] at hwrites ⊢
      rw [← hblock] at hwrites
      exact hwrites
    · rw [if_neg hopen] at hwrites ⊢
      exact hwrites
  | forLoop hinit htest hupdate _ ih =>
    rw [braced_forLoop, map_braced_eq hinit, map_braced_eq htest, map_braced_eq hupdate,
      pieces_forLoop]
    exact writes_forLoop hinit htest hupdate ih
  | forIn hleft hright _ ih =>
    rw [braced_forIn, hleft.braced_eq, hright.braced_eq]
    exact writes_forIn hleft hright ih
  | forOf hleft hright _ ih =>
    rw [braced_forOf, hleft.braced_eq, hright.braced_eq]
    exact writes_forOf hleft hright ih
  | whileLoop htest _ ih =>
    rw [braced_whileLoop, htest.braced_eq]
    exact writes_whileLoop htest ih
  | doWhile _ htest ih =>
    rw [braced_doWhile, htest.braced_eq]
    exact writes_doWhile ih htest

theorem StructuredModule.braced {m : Node} (h : m.StructuredModule closed) :
    m.braced.StructuredModule true := by
  cases h with
  | mk hbody =>
    rw [braced_program]
    apply StructuredModule.mk
    intro n hn
    obtain ⟨m, hm, rfl⟩ := List.mem_map.1 hn
    exact (hbody m hm).braced

/-- The text of a module is the row of pieces of the tree with its braces, and a line feed. -/
theorem StructuredModule.exists_moduleText {m : Node} (h : m.StructuredModule closed) :
    ∃ t w, m.moduleText = .ok (t ++ w) ∧ Spaces w ∧ Laid t m.braced.pieces := by
  cases h with
  | @mk loc statements hbody =>
    have hwrites : ∀ n ∈ statements, n.Writes n.braced.pieces := fun n hn => (hbody n hn).writes
    obtain ⟨ts, hts, hlaids⟩ := exists_lines hwrites 0
    have hloose : ∀ ps ∈ statements.map fun n => n.braced.pieces, Loose ps := by
      intro ps hps
      obtain ⟨n, hn, rfl⟩ := List.mem_map.1 hps
      exact (hwrites n hn).loose
    have hjoined := Laid.join hlaids hloose
    have hlines : lines 0 (some (Node.mk loc (.program statements)).printed) = .ok ts := hts
    have htext : (Node.mk loc (.program statements)).moduleText =
        .ok (Text.join "\n" ts ++ if ts = [] then [] else ("\n" : Text)) := by
      unfold moduleText
      rw [hlines]
      cases ts with
      | nil => rfl
      | cons t ts => rfl
    refine ⟨_, _, htext, ?_, ?_⟩
    · split
      · decide
      · decide
    · rw [braced_program, pieces_program, List.map_map]
      exact hjoined

end Node

end ModuleLowering
