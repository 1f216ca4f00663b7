import ModuleLowering.Proofs.BranchTokens
import ModuleLowering.Proofs.Joining

/-!
# Branches and loops read back

The text of a module made of branches and loops is read back as the tree with its braces. A
statement is read up to its last piece, whatever comes behind it, unless it ends with an open `if`
and an `else` comes next; with the braces no `else` does.
-/

set_option autoImplicit false

namespace ModuleLowering

open Node (Named DeclaresName Structured StructuredModule)

namespace Parser

variable {n e : Node} {ts us rest : List Token} {fuel : Nat}

/-! ## Rules -/

/-- A statement is read as a tree, up to `rest`. -/
def ReadsStatement (fuel : Nat) (n : Node) (ts rest : List Token) : Prop :=
  ∃ n', (statement (.within fuel)).run (ts ++ rest) = .ok (.ok n', rest) ∧ Alike n n'

/-- No `else` comes next where one would be taken for that of the statement before it. -/
def KeepsElse (n : Node) (rest : List Token) : Prop :=
  n.endsWithOpenIf = true → rest.head?.map Token.terminal ≠ some (.word .kwElse)

/-- The rule for the pieces of one statement. -/
def Rule (n : Node) : Prop :=
  ∀ (fuel : Nat) (ts rest : List Token), List.Forall₂ Piece.Reads n.pieces ts →
    ts.length ≤ fuel → KeepsElse n rest → ReadsStatement fuel n ts rest

/-! ## Pieces as tokens -/

/-- A piece as a token at the place of another one. -/
def tokenAt (p : Piece) (t : Token) : Token := { t with terminal := p.terminal, text := p.text }

variable {p : Piece} {ps qs : List Piece}

theorem exists_tokenAt (h : List.Forall₂ Piece.Reads (p :: ps) ts) :
    ∃ t us, ts = tokenAt p t :: us ∧ List.Forall₂ Piece.Reads ps us := by
  cases h with
  | @cons _ t _ us ht hus =>
    refine ⟨t, us, ?_, hus⟩
    obtain ⟨terminal, text⟩ := t
    obtain ⟨rfl, htext⟩ := ht
    rw [show text = p.text from htext]
    rfl

/-- The tokens of a name. -/
theorem exists_tokenAt_name (he : e.Named) (h : List.Forall₂ Piece.Reads (e.pieces ++ ps) ts) :
    ∃ loc x t us, e = .mk loc (.identifier x) ∧ ts = tokenAt (.name x) t :: us ∧
      List.Forall₂ Piece.Reads ps us := by
  cases he with
  | @mk loc x _ _ =>
    obtain ⟨t, us, rfl, hus⟩ := exists_tokenAt h
    exact ⟨loc, x, t, us, rfl, rfl, hus⟩

/-- The tokens of a word with a name in parentheses behind it. -/
theorem exists_tokenAt_headed {w : Word} (he : e.Named)
    (h : List.Forall₂ Piece.Reads (Node.headed w e.pieces ps) ts) :
    ∃ loc x t₁ t₂ t₃ t₄ us, e = .mk loc (.identifier x) ∧
      ts = tokenAt (.word w) t₁ :: tokenAt (.punctuator .leftParen) t₂ :: tokenAt (.name x) t₃ ::
        tokenAt (.punctuator .rightParen) t₄ :: us ∧ List.Forall₂ Piece.Reads ps us := by
  obtain ⟨t₁, us₁, rfl, h₁⟩ := exists_tokenAt h
  obtain ⟨t₂, us₂, rfl, h₂⟩ := exists_tokenAt h₁
  obtain ⟨loc, x, t₃, us₃, rfl, rfl, h₃⟩ := exists_tokenAt_name he h₂
  obtain ⟨t₄, us₄, rfl, h₄⟩ := exists_tokenAt h₃
  exact ⟨loc, x, t₁, t₂, t₃, t₄, us₄, rfl, rfl, h₄⟩

theorem exists_tokens_append (h : List.Forall₂ Piece.Reads (ps ++ qs) ts) :
    ∃ us vs, ts = us ++ vs ∧ List.Forall₂ Piece.Reads ps us ∧ List.Forall₂ Piece.Reads qs vs := by
  induction ps generalizing ts with
  | nil => exact ⟨[], ts, rfl, .nil, h⟩
  | cons p ps ih =>
    cases h with
    | @cons _ t _ ts ht hts =>
      obtain ⟨us, vs, rfl, hus, hvs⟩ := ih hts
      exact ⟨t :: us, vs, rfl, .cons ht hus, hvs⟩

/-- The tokens of a declared name. -/
theorem exists_tokenAt_declared {left : Node} (hleft : left.DeclaresName)
    (h : List.Forall₂ Piece.Reads (left.pieces ++ ps) ts) :
    ∃ loc loc' loc'' w x t₁ t₂ us, (w = .kwVar ∨ w = .kwLet ∨ w = .kwConst) ∧
      left = .mk loc (.variableDeclaration w.text
        [.mk loc' (.variableDeclarator (some (.mk loc'' (.identifier x))) none)]) ∧
      ts = tokenAt (.word w) t₁ :: tokenAt (.name x) t₂ :: us ∧
      List.Forall₂ Piece.Reads ps us := by
  cases hleft with
  | @mk loc loc' w id hw hid =>
    have hpieces : (Node.mk loc (.variableDeclaration w.text
        [.mk loc' (.variableDeclarator (some id) none)])).pieces = .word w :: id.pieces :=
      Node.pieces_declaration _ _ _ _
    rw [hpieces] at h
    obtain ⟨t₁, us₁, rfl, h₁⟩ := exists_tokenAt h
    obtain ⟨loc'', x, t₂, us₂, rfl, rfl, h₂⟩ := exists_tokenAt_name hid h₁
    refine ⟨loc, loc', loc'', w, x, t₁, t₂, us₂, ?_, rfl, rfl, h₂⟩
    revert hw
    cases w <;> decide

/-! ## Statements -/

variable {loc : Option Position} {test consequent alternate left right loop : Node}

theorem rule_expression (he : e.Named) : Rule (.mk loc (.expressionStatement (some e))) := by
  intro fuel ts rest hts _ _
  have hts : List.Forall₂ Piece.Reads (e.pieces ++ [.terminator true]) ts := hts
  obtain ⟨loc', x, t, us, rfl, rfl, hus⟩ := exists_tokenAt_name he hts
  obtain ⟨u, vs, rfl, hvs⟩ := exists_tokenAt hus
  cases hvs
  exact ⟨.mk (some t.start) (.expressionStatement (some (.mk (some t.start) (.identifier x)))),
    rfl, alike_mk (by simp [Form.bare])⟩

theorem rule_empty : Rule (.mk loc .emptyStatement) := by
  intro fuel ts rest hts _ _
  have hts : List.Forall₂ Piece.Reads [.terminator false] ts := hts
  obtain ⟨t, us, rfl, hus⟩ := exists_tokenAt hts
  cases hus
  exact ⟨.mk (some t.start) .emptyStatement, rfl, alike_mk rfl⟩

theorem rule_whileLoop (htest : test.Named) (h : Rule loop) :
    Rule (.mk loc (.whileStatement (some test) (some loop))) := by
  intro fuel ts rest hts hfuel helse
  have hts : List.Forall₂ Piece.Reads (Node.headed .kwWhile test.pieces loop.pieces) ts := hts
  obtain ⟨loc', x, t₁, t₂, t₃, t₄, us, rfl, rfl, hus⟩ := exists_tokenAt_headed htest hts
  obtain ⟨fuel, rfl⟩ := Nat.exists_eq_add_of_le' (Nat.lt_of_lt_of_le (Nat.succ_pos _) hfuel)
  simp only [List.length_cons] at hfuel
  obtain ⟨loop', hrun, halike⟩ := h fuel us rest hus (by omega) helse
  refine ⟨.mk (some t₁.start) (.whileStatement (some (.mk (some t₃.start) (.identifier x)))
    (some loop')), ?_, alike_mk (by simp [halike])⟩
  show (do
    let body ← statement (.within fuel)
    return do return .mk (some t₁.start) (.whileStatement
      (some (.mk (some t₃.start) (.identifier x))) (some (← body))) : Parser (Shaped Node)).run
        (us ++ rest) = _
  exact run_bind_of_ok hrun

theorem rule_doWhile (h : Rule loop) (htest : test.Named) :
    Rule (.mk loc (.doWhileStatement (some loop) (some test))) := by
  intro fuel ts rest hts hfuel _
  have hts : List.Forall₂ Piece.Reads
      (.word .kwDo :: (loop.pieces ++ Node.headed .kwWhile test.pieces [.terminator true])) ts :=
    hts
  obtain ⟨t₁, us₁, rfl, h₁⟩ := exists_tokenAt hts
  obtain ⟨us, vs, rfl, hus, hvs⟩ := exists_tokens_append h₁
  obtain ⟨loc', x, t₂, t₃, t₄, t₅, ws, rfl, rfl, hws⟩ := exists_tokenAt_headed htest hvs
  obtain ⟨t₆, _, rfl, hnil⟩ := exists_tokenAt hws
  cases hnil
  obtain ⟨fuel, rfl⟩ := Nat.exists_eq_add_of_le' (Nat.lt_of_lt_of_le (Nat.succ_pos _) hfuel)
  simp only [List.length_cons, List.length_append] at hfuel
  obtain ⟨loop', hrun, halike⟩ := h fuel us (tokenAt (.word .kwWhile) t₂ ::
    tokenAt (.punctuator .leftParen) t₃ :: tokenAt (.name x) t₄ ::
    tokenAt (.punctuator .rightParen) t₅ :: tokenAt (.terminator true) t₆ :: rest) hus (by omega)
    (fun _ => nofun)
  refine ⟨.mk (some t₁.start) (.doWhileStatement (some loop')
    (some (.mk (some t₄.start) (.identifier x)))), ?_, alike_mk (by simp [halike])⟩
  rw [List.cons_append, List.append_assoc]
  show (do
    let body ← statement (.within fuel)
    word .kwWhile
    let test ← condition (.within (fuel + 1))
    terminator
    return do
      let body ← body
      return .mk (some t₁.start) (.doWhileStatement (some body) (some (← test))) :
        Parser (Shaped Node)).run _ = _
  exact run_bind_of_ok hrun

theorem rule_ifOnly (htest : test.Named) (h : Rule consequent) :
    Rule (.mk loc (.ifStatement (some test) (some consequent) none)) := by
  intro fuel ts rest hts hfuel helse
  have hts : List.Forall₂ Piece.Reads (Node.headed .kwIf test.pieces consequent.pieces) ts := hts
  obtain ⟨loc', x, t₁, t₂, t₃, t₄, us, rfl, rfl, hus⟩ := exists_tokenAt_headed htest hts
  obtain ⟨fuel, rfl⟩ := Nat.exists_eq_add_of_le' (Nat.lt_of_lt_of_le (Nat.succ_pos _) hfuel)
  simp only [List.length_cons] at hfuel
  -- The `if` is open, so no `else` comes next.
  have hnone := helse rfl
  obtain ⟨branch, hrun, halike⟩ := h fuel us rest hus (by omega) fun _ => hnone
  refine ⟨.mk (some t₁.start) (.ifStatement (some (.mk (some t₃.start) (.identifier x)))
    (some branch) none), ?_, alike_mk (by simp [halike])⟩
  show (do
    let consequent ← statement (.within fuel)
    let alternate ← if ← taken (.word .kwElse) then some <$> statement (.within fuel) else pure none
    return do
      let alternate ← alternate.mapM id
      return .mk (some t₁.start) (.ifStatement (some (.mk (some t₃.start) (.identifier x)))
        (some (← consequent)) alternate) : Parser (Shaped Node)).run (us ++ rest) = _
  rw [run_bind_of_ok hrun, run_bind_of_ok (run_taken_of_ne hnone)]
  rfl

theorem rule_ifElse (htest : test.Named) (h : Rule consequent) (h' : Rule alternate)
    (hclosed : consequent.endsWithOpenIf = false) :
    Rule (.mk loc (.ifStatement (some test) (some consequent) (some alternate))) := by
  intro fuel ts rest hts hfuel helse
  have hts : List.Forall₂ Piece.Reads
      (Node.headed .kwIf test.pieces (consequent.pieces ++ .word .kwElse :: alternate.pieces)) ts :=
    hts
  obtain ⟨loc', x, t₁, t₂, t₃, t₄, _, rfl, rfl, hboth⟩ := exists_tokenAt_headed htest hts
  obtain ⟨us, _, rfl, hus, hother⟩ := exists_tokens_append hboth
  obtain ⟨t₅, vs, rfl, hvs⟩ := exists_tokenAt hother
  obtain ⟨fuel, rfl⟩ := Nat.exists_eq_add_of_le' (Nat.lt_of_lt_of_le (Nat.succ_pos _) hfuel)
  simp only [List.length_cons, List.length_append] at hfuel
  have hkeeps : KeepsElse consequent (tokenAt (.word .kwElse) t₅ :: (vs ++ rest)) := by
    intro hopen
    rw [hclosed] at hopen
    cases hopen
  obtain ⟨branch, hrun, halike⟩ := h fuel us _ hus (by omega) hkeeps
  obtain ⟨other, hrun', halike'⟩ := h' fuel vs rest hvs (by omega) helse
  refine ⟨.mk (some t₁.start) (.ifStatement (some (.mk (some t₃.start) (.identifier x)))
    (some branch) (some other)), ?_, alike_mk (by simp [halike, halike'])⟩
  rw [List.cons_append, List.cons_append, List.cons_append, List.cons_append, List.append_assoc]
  show (do
    let consequent ← statement (.within fuel)
    let alternate ← if ← taken (.word .kwElse) then some <$> statement (.within fuel) else pure none
    return do
      let alternate ← alternate.mapM id
      return .mk (some t₁.start) (.ifStatement (some (.mk (some t₃.start) (.identifier x)))
        (some (← consequent)) alternate) : Parser (Shaped Node)).run
          (us ++ tokenAt (.word .kwElse) t₅ :: (vs ++ rest)) = _
  have htaken : (taken (.word .kwElse)).run (tokenAt (.word .kwElse) t₅ :: (vs ++ rest)) =
      .ok (true, vs ++ rest) := rfl
  have hother :
      (some <$> statement (.within fuel)).run (vs ++ rest) = .ok (some (.ok other), rest) :=
    run_map_ok.2 ⟨_, hrun', rfl⟩
  rw [run_bind_of_ok hrun, run_bind_of_ok htaken, if_pos rfl, run_bind_of_ok hother]
  rfl

theorem rule_forIn (hleft : left.DeclaresName) (hright : right.Named) (h : Rule loop) :
    Rule (.mk loc (.forInStatement (some left) (some right) (some loop))) := by
  intro fuel ts rest hts hfuel helse
  obtain ⟨t₁, us₁, rfl, h₁⟩ := exists_tokenAt (p := .word .kwFor) hts
  obtain ⟨t₂, us₂, rfl, h₂⟩ := exists_tokenAt h₁
  rw [List.append_assoc] at h₂
  obtain ⟨loc₁, loc₂, loc₃, w, x, t₃, t₄, us₃, hw, rfl, rfl, h₃⟩ := exists_tokenAt_declared hleft h₂
  obtain ⟨t₅, us₄, rfl, h₄⟩ := exists_tokenAt h₃
  obtain ⟨loc₄, y, t₆, us₅, rfl, rfl, h₅⟩ := exists_tokenAt_name hright h₄
  obtain ⟨t₇, us, rfl, hus⟩ := exists_tokenAt h₅
  obtain ⟨fuel, rfl⟩ := Nat.exists_eq_add_of_le' (Nat.lt_of_lt_of_le (Nat.succ_pos _) hfuel)
  simp only [List.length_cons] at hfuel
  obtain ⟨loop', hrun, halike⟩ := h fuel us rest hus (by omega) helse
  refine ⟨.mk (some t₁.start) (.forInStatement (some (.mk (some t₃.start)
    (.variableDeclaration w.text [.mk (some t₄.start)
      (.variableDeclarator (some (.mk (some t₄.start) (.identifier x))) none)])))
    (some (.mk (some t₆.start) (.identifier y))) (some loop')), ?_, alike_mk (by simp [halike])⟩
  rcases hw with rfl | rfl | rfl
  all_goals
    show (do
      let body ← statement (.within fuel)
      return do return .mk (some t₁.start) (.forInStatement (some (.mk (some t₃.start) _))
        (some (.mk (some t₆.start) (.identifier y))) (some (← body))) : Parser (Shaped Node)).run
          (us ++ rest) = _
    exact run_bind_of_ok hrun

theorem rule_forOf {isAwait : Bool} (hleft : left.DeclaresName) (hright : right.Named)
    (h : Rule loop) :
    Rule (.mk loc (.forOfStatement (some left) (some right) (some loop) isAwait)) := by
  intro fuel ts rest hts hfuel helse
  have hhead : ∃ t₁ us, List.Forall₂ Piece.Reads ((left.pieces ++ .word .kwOf :: right.pieces) ++
      .punctuator .rightParen :: loop.pieces) us ∧ ∃ t₂ t₃, ts = tokenAt (.word .kwFor) t₁ ::
        (if isAwait then [tokenAt (.word .kwAwait) t₂] else []) ++
          tokenAt (.punctuator .leftParen) t₃ :: us := by
    cases isAwait with
    | false =>
      obtain ⟨t₁, us₁, rfl, h₁⟩ := exists_tokenAt (p := .word .kwFor) hts
      obtain ⟨t₃, us₂, rfl, h₂⟩ := exists_tokenAt h₁
      exact ⟨t₁, us₂, h₂, t₁, t₃, rfl⟩
    | true =>
      obtain ⟨t₁, us₁, rfl, h₁⟩ := exists_tokenAt (p := .word .kwFor) hts
      obtain ⟨t₂, us₂, rfl, h₂⟩ := exists_tokenAt h₁
      obtain ⟨t₃, us₃, rfl, h₃⟩ := exists_tokenAt h₂
      exact ⟨t₁, us₃, h₃, t₂, t₃, rfl⟩
  obtain ⟨t₁, us₁, h₁, t₂, t₃, rfl⟩ := hhead
  rw [List.append_assoc] at h₁
  obtain ⟨loc₁, loc₂, loc₃, w, x, t₄, t₅, us₂, hw, rfl, rfl, h₂⟩ := exists_tokenAt_declared hleft h₁
  obtain ⟨t₆, us₃, rfl, h₃⟩ := exists_tokenAt h₂
  obtain ⟨loc₄, y, t₇, us₄, rfl, rfl, h₄⟩ := exists_tokenAt_name hright h₃
  obtain ⟨t₈, us, rfl, hus⟩ := exists_tokenAt h₄
  simp only [List.length_cons, List.length_append] at hfuel
  obtain ⟨fuel, rfl⟩ := Nat.exists_eq_add_of_le' (show 1 ≤ fuel by omega)
  obtain ⟨loop', hrun, halike⟩ := h fuel us rest hus (by omega) helse
  refine ⟨.mk (some t₁.start) (.forOfStatement (some (.mk (some t₄.start)
    (.variableDeclaration w.text [.mk (some t₅.start)
      (.variableDeclarator (some (.mk (some t₅.start) (.identifier x))) none)])))
    (some (.mk (some t₇.start) (.identifier y))) (some loop') isAwait), ?_,
    alike_mk (by simp [halike])⟩
  rcases hw with rfl | rfl | rfl
  all_goals
    cases isAwait
    all_goals
      show (do
        let body ← statement (.within fuel)
        return do return .mk (some t₁.start) (.forOfStatement (some (.mk (some t₄.start) _))
          (some (.mk (some t₇.start) (.identifier y))) (some (← body)) _) :
            Parser (Shaped Node)).run (us ++ rest) = _
      exact run_bind_of_ok hrun

/-- The token of a name that may be missing. -/
theorem exists_tokenAt_optional {e : Option Node} (he : ∀ x ∈ e, x.Named)
    (h : List.Forall₂ Piece.Reads ((e.map Node.pieces).getD []) us) :
    e = none ∧ us = [] ∨
      ∃ loc x t, e = some (.mk loc (.identifier x)) ∧ us = [tokenAt (.name x) t] := by
  cases e with
  | none =>
    cases h
    exact .inl ⟨rfl, rfl⟩
  | some e =>
    have h : List.Forall₂ Piece.Reads (e.pieces ++ []) us := by rwa [List.append_nil]
    obtain ⟨loc, x, t, vs, rfl, rfl, hvs⟩ := exists_tokenAt_name (he e rfl) h
    cases hvs
    exact .inr ⟨loc, x, t, rfl, rfl⟩

/-- A name that may be missing in the head of a loop. -/
theorem exists_run_unless (fuel : Nat) {e : Option Node} (he : ∀ x ∈ e, x.Named)
    (h : List.Forall₂ Piece.Reads ((e.map Node.pieces).getD []) us) {stop : Punctuator}
    (hstop : stop = .semicolon ∨ stop = .rightParen) (t : Token) (rest : List Token) :
    ∃ e' : Option Node, (expressionUnless (.within (fuel + 1)) stop).run
        (us ++ tokenAt (.punctuator stop) t :: rest) =
      .ok (e'.map .ok, tokenAt (.punctuator stop) t :: rest) ∧ Alike e e' := by
  rcases exists_tokenAt_optional he h with ⟨rfl, rfl⟩ | ⟨loc, x, u, rfl, rfl⟩
  · refine ⟨none, ?_, rfl⟩
    rcases hstop with rfl | rfl
    · rfl
    · rfl
  · refine ⟨some (.mk (some u.start) (.identifier x)), ?_, rfl⟩
    rcases hstop with rfl | rfl
    · rfl
    · rfl

/-- A loop whose head starts with a name or nothing declares no variable. -/
theorem run_for {e : Option Node} (he : ∀ x ∈ e, x.Named)
    (h : List.Forall₂ Piece.Reads ((e.map Node.pieces).getD []) us) (t₁ t₂ t₃ : Token) :
    (statement (.within (fuel + 1))).run (tokenAt (.word .kwFor) t₁ ::
        tokenAt (.punctuator .leftParen) t₂ ::
          (us ++ tokenAt (.punctuator .semicolon) t₃ :: rest)) =
      (do
        let init ← expressionUnless (.within (fuel + 1)) .semicolon
        forRest (.within (fuel + 1)) (some t₁.start) init : Parser (Shaped Node)).run
          (us ++ tokenAt (.punctuator .semicolon) t₃ :: rest) := by
  rcases exists_tokenAt_optional he h with ⟨rfl, rfl⟩ | ⟨loc, x, u, rfl, rfl⟩
  · rfl
  · rfl

theorem run_punctuator (p : Punctuator) (t : Token) (rest : List Token) :
    (punctuator p).run (tokenAt (.punctuator p) t :: rest) = .ok ((), rest) := by
  have htake : (take (.punctuator p)).run (tokenAt (.punctuator p) t :: rest) =
      .ok (tokenAt (.punctuator p) t, rest) := by
    unfold take
    rw [run_takeIf_cons, if_pos (by simp [tokenAt, Piece.terminal])]
  show ((fun _ => ()) <$> take (.punctuator p)).run _ = _
  rw [StateT.run_map, htake]
  rfl

theorem rule_forLoop {init test update : Option Node} (hinit : ∀ e ∈ init, e.Named)
    (htest : ∀ e ∈ test, e.Named) (hupdate : ∀ e ∈ update, e.Named) (h : Rule loop) :
    Rule (.mk loc (.forStatement init test update (some loop))) := by
  intro fuel ts rest hts hfuel helse
  rw [Node.pieces_forLoop] at hts
  simp only [Node.headed, List.append_assoc, List.cons_append] at hts
  obtain ⟨t₁, us₁, rfl, h₁⟩ := exists_tokenAt hts
  obtain ⟨t₂, us₂, rfl, h₂⟩ := exists_tokenAt h₁
  obtain ⟨vs₁, us₃, rfl, hvs₁, h₃⟩ := exists_tokens_append h₂
  obtain ⟨t₃, us₄, rfl, h₄⟩ := exists_tokenAt h₃
  obtain ⟨vs₂, us₅, rfl, hvs₂, h₅⟩ := exists_tokens_append h₄
  obtain ⟨t₄, us₆, rfl, h₆⟩ := exists_tokenAt h₅
  obtain ⟨vs₃, us₇, rfl, hvs₃, h₇⟩ := exists_tokens_append h₆
  obtain ⟨t₅, us, rfl, hus⟩ := exists_tokenAt h₇
  simp only [List.length_cons, List.length_append] at hfuel
  obtain ⟨fuel, rfl⟩ := Nat.exists_eq_add_of_le' (show 1 ≤ fuel by omega)
  obtain ⟨loop', hrun, halike⟩ := h fuel us rest hus (by omega) helse
  obtain ⟨update', hrun₃, halike₃⟩ := exists_run_unless fuel hupdate hvs₃ (.inr rfl) t₅
    (us ++ rest)
  obtain ⟨test', hrun₂, halike₂⟩ := exists_run_unless fuel htest hvs₂ (.inl rfl) t₄
    (vs₃ ++ tokenAt (.punctuator .rightParen) t₅ :: (us ++ rest))
  obtain ⟨init', hrun₁, halike₁⟩ := exists_run_unless fuel hinit hvs₁ (.inl rfl) t₃
    (vs₂ ++ tokenAt (.punctuator .semicolon) t₄ ::
      (vs₃ ++ tokenAt (.punctuator .rightParen) t₅ :: (us ++ rest)))
  refine ⟨.mk (some t₁.start) (.forStatement init' test' update' (some loop')), ?_,
    alike_mk (by simp [halike, halike₁, halike₂, halike₃])⟩
  have hbuilt : ∀ e : Option Node, (e.map .ok).mapM id = (.ok e : Shaped (Option Node)) := by
    intro e
    cases e with
    | none => rfl
    | some e => rfl
  simp only [List.cons_append, List.append_assoc]
  rw [run_for hinit hvs₁, run_bind_of_ok hrun₁, forRest, run_bind_of_ok (run_punctuator _ _ _),
    run_bind_of_ok hrun₂, run_bind_of_ok (run_punctuator _ _ _), run_bind_of_ok hrun₃,
    run_bind_of_ok (run_punctuator _ _ _)]
  refine (run_bind_of_ok hrun).trans ?_
  rw [hbuilt, hbuilt, hbuilt]
  rfl

/-! ## Statements one after the other -/

/-- The terminals that a statement made of branches and loops starts with. -/
def startsStructured (t : Terminal) : Bool :=
  [Terminal.name, .terminator, .punctuator .leftBrace, .word .kwIf, .word .kwFor, .word .kwWhile,
    .word .kwDo].contains t

theorem Structured.exists_first {closed : Bool} (h : n.Structured closed) :
    ∃ p ps, n.pieces = p :: ps ∧ startsStructured p.terminal = true := by
  cases h with
  | expression he =>
    cases he
    exact ⟨_, _, rfl, rfl⟩
  | @forOf _ _ _ _ isAwait =>
    cases isAwait
    · exact ⟨_, _, rfl, rfl⟩
    · exact ⟨_, _, rfl, rfl⟩
  | _ => exact ⟨_, _, rfl, rfl⟩

/-- What comes behind a statement: more statements, or `rest`. -/
theorem head_statements {closed : Bool} {statements : List Node}
    (h : ∀ n ∈ statements, n.Structured closed)
    (hts : List.Forall₂ Piece.Reads (statements.map Node.pieces).flatten ts) :
    (statements = [] ∧ ts = []) ∨
      ∃ t us, ts = t :: us ∧ startsStructured t.terminal = true := by
  cases statements with
  | nil =>
    cases hts
    exact .inl ⟨rfl, rfl⟩
  | cons n statements =>
    obtain ⟨p, ps, hpieces, hstart⟩ := Structured.exists_first (h n List.mem_cons_self)
    rw [List.map_cons, List.flatten_cons, hpieces] at hts
    obtain ⟨t, us, rfl, -⟩ := exists_tokenAt hts
    exact .inr ⟨_, us, rfl, hstart⟩

/-- Statements one after the other are read one after the other. -/
theorem exists_run_statements (fuel : Nat) (rest : List Token) (stop : Option Terminal → Bool)
    {closed : Bool} {statements : List Node}
    (h : ∀ n ∈ statements, n.Structured closed ∧ Rule n) {q : Parser (Shaped Node)}
    (hq : ∀ t us, startsStructured t.terminal = true →
      q.run (t :: us) = (statement (.within fuel)).run (t :: us))
    (hgo : ∀ t, startsStructured t = true → stop (some t) = false)
    (hstop : stop (rest.head?.map Token.terminal) = true)
    (helse : rest.head?.map Token.terminal ≠ some (.word .kwElse))
    (hts : List.Forall₂ Piece.Reads (statements.map Node.pieces).flatten ts)
    (hfuel : ts.length ≤ fuel) {m : Nat} (hm : ts.length < m) :
    ∃ ns, (manyUntil q stop m).run (ts ++ rest) = .ok (ns.map .ok, rest) ∧ Alike statements ns := by
  induction statements generalizing ts m with
  | nil =>
    cases hts
    obtain ⟨m, rfl⟩ := Nat.exists_eq_add_of_le' (show 1 ≤ m from hm)
    refine ⟨[], ?_, rfl⟩
    rw [List.nil_append, manyUntil, run_bind_of_ok (run_look rest), if_pos hstop]
    rfl
  | cons n statements ih =>
    obtain ⟨⟨hn, hrule⟩, hrest⟩ := List.forall_mem_cons.1 h
    rw [List.map_cons, List.flatten_cons] at hts
    obtain ⟨us, vs, rfl, hus, hvs⟩ := exists_tokens_append hts
    obtain ⟨p, ps, hpieces, hstart⟩ := Structured.exists_first hn
    rw [hpieces] at hus
    obtain ⟨t, us, rfl, hus'⟩ := exists_tokenAt hus
    rw [← hpieces] at hus
    simp only [List.length_append, List.length_cons] at hfuel hm
    have hkeeps : KeepsElse n (vs ++ rest) := by
      intro _
      rcases head_statements (fun n hn => (hrest n hn).1) hvs with ⟨-, rfl⟩ | ⟨u, vs, rfl, hu⟩
      · exact helse
      · intro hhead
        rw [show u.terminal = _ from Option.some.inj hhead] at hu
        cases hu
    obtain ⟨n', hrun, halike⟩ :=
      hrule fuel _ (vs ++ rest) hus (by simp only [List.length_cons]; omega) hkeeps
    obtain ⟨m, rfl⟩ := Nat.exists_eq_add_of_le' (show 1 ≤ m by omega)
    obtain ⟨ns, hruns, halikes⟩ := ih hrest hvs (by omega) (m := m) (by omega)
    rw [List.cons_append] at hrun
    rw [← hq _ _ hstart] at hrun
    refine ⟨n' :: ns, ?_, List.cons_eq_cons.2 ⟨halike, halikes⟩⟩
    rw [List.append_assoc, List.cons_append, manyUntil, run_bind_of_ok (run_look _),
      if_neg (by simp [tokenAt, hgo _ hstart]), run_bind_of_ok hrun, run_bind_of_ok hruns]
    rfl

theorem rule_block {closed : Bool} {statements : List Node}
    (h : ∀ n ∈ statements, n.Structured closed ∧ Rule n) :
    Rule (.mk loc (.blockStatement statements)) := by
  intro fuel ts rest hts hfuel _
  rw [Node.pieces_block] at hts
  obtain ⟨t₁, us₁, rfl, h₁⟩ := exists_tokenAt hts
  obtain ⟨us, us₂, rfl, hus, h₂⟩ := exists_tokens_append h₁
  obtain ⟨t₂, us₃, rfl, h₃⟩ := exists_tokenAt h₂
  cases h₃
  simp only [List.length_cons, List.length_append, List.length_nil] at hfuel
  obtain ⟨fuel, rfl⟩ := Nat.exists_eq_add_of_le' (show 1 ≤ fuel by omega)
  have hgo : ∀ t, startsStructured t = true →
      decide (some t = some (Terminal.punctuator .rightBrace)) = false := by
    intro t ht
    rw [decide_eq_false_iff_not]
    intro heq
    rw [Option.some.inj heq] at ht
    cases ht
  obtain ⟨ns, hruns, halikes⟩ := exists_run_statements fuel
    (tokenAt (.punctuator .rightBrace) t₂ :: rest)
    (fun next => next = some (.punctuator .rightBrace)) h (q := statement (.within fuel))
    (fun _ _ _ => rfl) hgo rfl nofun hus (by omega)
    (m := (us ++ tokenAt (.punctuator .rightBrace) t₂ :: rest).length + 1)
    (by simp only [List.length_append]; omega)
  have hitems : (itemsUntil (statement (.within fuel)) (.punctuator .rightBrace)).run
      (us ++ tokenAt (.punctuator .rightBrace) t₂ :: rest) = .ok (ns.map .ok, rest) := by
    rw [itemsUntil, run_bind_of_ok (run_left _), run_bind_of_ok hruns]
    rfl
  refine ⟨.mk (some t₁.start) (.blockStatement ns), ?_, alike_mk (by simp [halikes])⟩
  simp only [List.cons_append, List.append_assoc, List.nil_append]
  show (do
    let body ← itemsUntil (statement (.within fuel)) (.punctuator .rightBrace)
    return do return .mk (some t₁.start) (.blockStatement (← inOrder body)) :
      Parser (Shaped Node)).run _ = _
  rw [run_bind_of_ok hitems, inOrder_eq_ok.2 rfl]
  rfl

/-- Every statement made of branches and loops is read up to its last piece. -/
theorem rule (h : n.Structured true) : Rule n := by
  induction h with
  | expression he => exact rule_expression he
  | empty => exact rule_empty
  | block h ih => exact rule_block fun n hn => ⟨h n hn, ih n hn⟩
  | ifOnly htest _ ih => exact rule_ifOnly htest ih
  | ifElse htest _ _ hclosed ih ih' => exact rule_ifElse htest ih ih' (hclosed rfl)
  | forLoop hinit htest hupdate _ ih => exact rule_forLoop hinit htest hupdate ih
  | forIn hleft hright _ ih => exact rule_forIn hleft hright ih
  | forOf hleft hright _ ih => exact rule_forOf hleft hright ih
  | whileLoop htest _ ih => exact rule_whileLoop htest ih
  | doWhile _ htest ih => exact rule_doWhile ih htest

theorem startsStructured_item {t : Token} (h : startsStructured t.terminal = true) :
    (item (.within fuel)).run (t :: us) = (statement (.within fuel)).run (t :: us) := by
  unfold item
  rw [run_bind_of_ok (run_look _)]
  split
  next heq =>
    rw [show t.terminal = _ from Option.some.inj heq] at h
    cases h
  next heq =>
    rw [show t.terminal = _ from Option.some.inj heq] at h
    cases h
  next => rfl

/-- The pieces of a module are read as its statements. -/
theorem exists_run_moduleItems {body : List Node} (h : ∀ n ∈ body, n.Structured true)
    (hts : List.Forall₂ Piece.Reads (body.map Node.pieces).flatten ts) :
    ∃ ns, (moduleItems (.within (ts.length + 1))).run ts = .ok (ns.map .ok, []) ∧
      Alike body ns := by
  obtain ⟨ns, hruns, halike⟩ := exists_run_statements (ts.length + 1) [] Option.isNone
    (fun n hn => ⟨h n hn, rule (h n hn)⟩) (m := ts.length + 1) (q := item (.within (ts.length + 1)))
    (fun _ _ => startsStructured_item) (fun _ _ => rfl) rfl nofun hts (Nat.le_succ _)
    (Nat.lt_succ_self _)
  rw [List.append_nil] at hruns
  refine ⟨ns, ?_, halike⟩
  rw [moduleItems, run_bind_of_ok (run_left _)]
  exact hruns

end Parser

namespace Node

/-- **Every `else` stays with its `if`.** The text of a module made of branches and loops is read
back as its tree, in which each branch that would capture an `else` is a block. -/
theorem StructuredModule.ofSource_moduleText {m : Node} (h : m.StructuredModule false) :
    ∃ t read, m.moduleText = .ok t ∧ ofSource t = .ok read ∧ Alike m.braced read := by
  obtain ⟨t, w, htext, hw, hlaid⟩ := h.exists_moduleText
  obtain ⟨ls, hscans, hls⟩ := hlaid.exists_scans hw 0 .start true
  have hclosed := h.braced
  obtain ⟨ts, htokens, hts⟩ := Terminators.exists_tokens hclosed hls
  generalize m.braced = n at hts hclosed ⊢
  cases hclosed with
  | @mk loc body hbody =>
    rw [pieces_program] at hts
    obtain ⟨ns, hruns, halike⟩ := Parser.exists_run_moduleItems hbody hts
    refine ⟨t ++ w, .mk (some .start) (.program ns), htext, ?_, ?_⟩
    · rw [ofSource_eq_ok]
      exact ⟨ls, ts, _, ns, Scanner.scan_iff.2 hscans, htokens, hruns,
        Parser.inOrder_eq_ok.2 rfl, rfl⟩
    · exact alike_mk (by simp [halike])

/-- A branch and its `else`, where the branch is a loop whose body is an `if` that has none. -/
def openBranch : Node :=
  let name (x : Text) : Node := made (.identifier x)
  let call (x : Text) : Node := made (.expressionStatement (some (name x)))
  made (.ifStatement (some (name "a"))
    (some (made (.whileStatement (some (name "b"))
      (some (made (.ifStatement (some (name "c")) (some (call "d")) none))))))
    (some (made (.doWhileStatement (some (made .emptyStatement)) (some (name "e"))))))

theorem ofSource_openBranch : (made (.program [openBranch])).StructuredModule false ∧
    (made (.program [openBranch])).moduleText =
      .ok "if (a) \x7b\n  while (b)\n    if (c)\n      d;\n\x7d else\n  do;\n  while (e);\n" ∧
    ∃ t read, (made (.program [openBranch])).moduleText = .ok t ∧ ofSource t = .ok read ∧
      Alike (made (.program [openBranch])).braced read := by
  have hnamed : ∀ x ∈ [("a" : Text), "b", "c", "d", "e"], (made (.identifier x)).Named := by
    intro x hx
    apply Named.mk
    · revert x
      decide
    · revert x
      decide
  have hstatement : openBranch.Structured false := by
    apply Structured.ifElse (hnamed "a" (by simp))
    · apply Structured.whileLoop (hnamed "b" (by simp))
      exact .ifOnly (hnamed "c" (by simp)) (.expression (hnamed "d" (by simp)))
    · exact .doWhile .empty (hnamed "e" (by simp))
    · intro h
      cases h
  have hmodule : (made (.program [openBranch])).StructuredModule false :=
    .mk (by simpa using hstatement)
  exact ⟨hmodule, rfl, hmodule.ofSource_moduleText⟩

end Node

end ModuleLowering
