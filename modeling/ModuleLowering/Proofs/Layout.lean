import ModuleLowering.Proofs.Publishing
import ModuleLowering.Proofs.Resuming

/-!
# Layout

What stands between the lexemes of a text decides where they are, and whether a line break comes
before them. Nothing but that line break matters: two texts whose lexemes match are modules with the
same tree but for places, or fail with the same kind of error.
-/

set_option autoImplicit false

namespace ModuleLowering

/-! ## Errors without their places -/

/-- Two errors that differ in their places at most. The text of a terminator does not count: it is
empty where the terminator is inserted behind everything else. -/
inductive ParseError.SameKind : ParseError → ParseError → Prop where
  | lexeme (fault : ScanFault) (place place' : Position) :
      SameKind (.lexeme fault place) (.lexeme fault place')
  | bracket (fault : BracketFault) (place place' : Position) :
      SameKind (.bracket fault place) (.bracket fault place')
  | unexpected (terminal : Option Terminal) {text text' : Text} (place place' : Position)
      (htext : terminal ≠ some .terminator → text = text') :
      SameKind (.unexpected terminal text place) (.unexpected terminal text' place')
  | shape (e : ShapeError) (place place' : Option Position) :
      SameKind (.shape e place) (.shape e place')
  | numeral : SameKind .numeral .numeral
  | escape (fault : EscapeFault) : SameKind (.escape fault) (.escape fault)

theorem ParseError.sameKind_ofShapeFault {fault fault' : ShapeFault}
    (h : fault.bare = fault'.bare) : (ofShapeFault fault).SameKind (ofShapeFault fault') := by
  cases fault <;> cases fault' <;> cases h
  · exact .shape _ _ _
  · exact .numeral
  · exact .escape _

/-- Two answers that are alike, or two errors of the same kind. -/
inductive SameOutcome {α : Type} [Placed α] :
    Except ParseError α → Except ParseError α → Prop where
  | ok {a b : α} : Alike a b → SameOutcome (.ok a) (.ok b)
  | error {e e' : ParseError} : e.SameKind e' → SameOutcome (.error e) (.error e')

/-! ## Terminators -/

/-- Two streams with the same tokens but for places, ended by the same fault or by none. -/
structure TokenStream.Matches (a b : TokenStream) : Prop where
  tokens : Continues [] a.tokens b.tokens
  stop : Option.Rel (fun p q => p.fault = q.fault) a.stop b.stop

theorem TokenStream.Matches.precededBy {a b : TokenStream} {ts us : List Token} (h : a.Matches b)
    (htokens : Continues [] ts us) : (a.precededBy ts).Matches (b.precededBy us) :=
  ⟨htokens.append h.tokens, h.stop⟩

namespace Terminators

variable {last last' : Option Lexeme} {ls ms : List Lexeme}

theorem finish_matches (s : Terminators) (h : last = none ↔ last' = none) :
    (s.finish last).Matches (s.finish last') := by
  cases last with
  | none =>
    rw [h.1 rfl]
    exact ⟨.nil, .none⟩
  | some l =>
    obtain ⟨l', rfl⟩ := Option.ne_none_iff_exists'.1 fun hl => Option.some_ne_none l (h.2 hl)
    simp only [finish]
    cases s.scopes with
    | cons scope outer => exact ⟨.nil, .some rfl⟩
    | nil =>
      cases s.mayEnd with
      | false => exact ⟨.nil, .none⟩
      | true => exact ⟨.cons ⟨rfl, fun _ => rfl⟩ .nil, .none⟩

/-- Lexemes that match are read as tokens that match, up to the same fault. -/
theorem tokens_matches (s : Terminators) (h : List.Forall₂ Lexeme.Matches ls ms)
    (hlast : last = none ↔ last' = none) : (s.tokens last ls).Matches (s.tokens last' ms) := by
  induction h generalizing s last last' with
  | nil => exact finish_matches s hlast
  | @cons l m ls ms hlm hms ih =>
    have hfollow : Option.Rel Lexeme.Matches ls.head? ms.head? := by
      cases hms with
      | nil => exact .none
      | cons hlm _ => exact .some hlm
    have hinserted : Continues [] (if s.needsTerminator l then [insertedBefore l] else [])
        (if s.needsTerminator l then [insertedBefore m] else []) := by
      split
      · exact .cons ⟨rfl, fun _ => rfl⟩ .nil
      · exact .nil
    rw [tokens, tokens, ← needsTerminator_matches hlm, ← read_matches hlm hfollow]
    cases (if s.needsTerminator l then s.remember .terminator none else s).read l ls.head? with
    | error fault => exact ⟨hinserted, .some rfl⟩
    | ok r =>
      refine (ih r.2 (iff_of_false (Option.some_ne_none l) (Option.some_ne_none m))).precededBy ?_
      exact hinserted.append (.cons ⟨rfl, fun _ => hlm.text⟩ .nil)

end Terminators

/-! ## The grammar -/

/-- Tokens that match are read as items that are alike, or cannot be read from tokens on that match
again. -/
theorem Parser.follows_moduleItems (n : Nat) :
    Follows .ended false 0 Alike (moduleItems (.within n)) (moduleItems (.within n)) :=
  .bind .left fun _ _ hfuel =>
    .manyUntil (.item (Deeper.follows_within .ended inert_nil rfl) inert_nil) hfuel.succ

theorem TokenStream.Matches.items {a b : TokenStream} (h : a.Matches b) :
    SameOutcome a.items b.items := by
  have hfollows := Parser.follows_moduleItems (a.tokens.length + 1)
  have hlength : b.tokens.length = a.tokens.length := h.tokens.length_eq
  have hbracket : ∀ {p q : BracketStop}, p.fault = q.fault →
      SameOutcome (.error (.bracket p.fault p.position) : Except ParseError (List (Shaped Node)))
        (.error (.bracket q.fault q.position)) := by
    intro p q hpq
    rw [hpq]
    exact .error (.bracket _ _ _)
  obtain ⟨ts, stop⟩ := a
  obtain ⟨us, stop'⟩ := b
  obtain ⟨htokens, hstop⟩ := h
  dsimp only at hfollows hlength htokens hstop
  unfold TokenStream.items
  dsimp only
  rw [hlength]
  cases hrun : (Parser.moduleItems (Deeper.within (ts.length + 1))).run ts with
  | error rest =>
    obtain ⟨rest', hrun', hrest⟩ := hfollows.stops rfl htokens hrun
    rw [hrun']
    cases hrest with
    | nil =>
      cases hstop with
      | none => exact .error (.unexpected none _ _ fun _ => rfl)
      | some hfault => exact hbracket hfault
    | @cons t u _ _ htu _ =>
      show SameOutcome (.error (.unexpected (some t.terminal) t.text t.start))
        (.error (.unexpected (some u.terminal) u.text u.start))
      rw [← htu.terminal]
      exact .error (.unexpected _ _ _ fun ht => htu.text fun h => ht (congrArg some h))
  | ok r =>
    obtain ⟨items, rest'⟩ := r
    obtain ⟨items', rest', hrun', halike, -⟩ := hfollows.goes htokens hrun (.inr (.inl rfl))
    rw [hrun']
    cases hstop with
    | none => exact .ok halike
    | some hfault => exact hbracket hfault

/-! ## The tree -/

/-- Layout carries no meaning beyond line breaks: white space, comments and places decide neither
the tree nor whether there is one. -/
theorem Node.ofSource_layout {s t : Text} {ls ms : List Lexeme} (hs : Lexeme.scan s = .ok ls)
    (ht : Lexeme.scan t = .ok ms) (h : List.Forall₂ Lexeme.Matches ls ms) :
    SameOutcome (ofSource s) (ofSource t) := by
  have hitems : SameOutcome (TokenStream.ofLexemes ls).items (TokenStream.ofLexemes ms).items :=
    (Terminators.tokens_matches {} h Iff.rfl).items
  unfold ofSource
  rw [hs, ht]
  simp only [bind, Except.bind]
  revert hitems
  generalize (TokenStream.ofLexemes ls).items = found
  generalize (TokenStream.ofLexemes ms).items = found'
  intro hitems
  cases hitems with
  | error he => exact .error he
  | @ok items items' halike =>
    have hbodies : Alike (Parser.inOrder items) (Parser.inOrder items') := halike.inOrder
    dsimp only
    cases hbody : Parser.inOrder items with
    | ok body =>
      rw [hbody] at hbodies
      obtain ⟨body', hbody', hsame⟩ := hbodies.exists_ok
      rw [hbody']
      exact .ok (alike_mk (by simp [hsame]))
    | error fault =>
      rw [hbody] at hbodies
      cases hbody' : Parser.inOrder items' with
      | ok body' =>
        rw [hbody'] at hbodies
        cases hbodies
      | error fault' =>
        rw [hbody'] at hbodies
        exact .error (ParseError.sameKind_ofShapeFault (Except.error.inj hbodies))

instance : DecidableRel Lexeme.Matches := fun l m =>
  decidable_of_iff (l.kind = m.kind ∧ l.text = m.text ∧ l.lineBreakBefore = m.lineBreakBefore)
    ⟨fun ⟨hkind, htext, hline⟩ => ⟨hkind, htext, hline⟩,
      fun h => ⟨h.kind, h.text, h.lineBreakBefore⟩⟩

/-- Whether two texts have lexemes that match. -/
def scansAlike (s t : Text) : Bool :=
  match Lexeme.scan s, Lexeme.scan t with
  | .ok ls, .ok ms => decide (List.Forall₂ Lexeme.Matches ls ms)
  | _, _ => false

theorem exists_of_scansAlike {s t : Text} (h : scansAlike s t = true) :
    ∃ ls ms, Lexeme.scan s = .ok ls ∧ Lexeme.scan t = .ok ms ∧
      List.Forall₂ Lexeme.Matches ls ms := by
  unfold scansAlike at h
  split at h
  · exact ⟨_, _, ‹_›, ‹_›, of_decide_eq_true h⟩
  · cases h

theorem Node.ofSource_layout_comment :
    ∃ ls ms, Lexeme.scan "a = [b, c]" = .ok ls ∧
      Lexeme.scan "/* d */ a=[\tb ,c] // e" = .ok ms ∧ List.Forall₂ Lexeme.Matches ls ms ∧
      SameOutcome (ofSource "a = [b, c]") (ofSource "/* d */ a=[\tb ,c] // e") := by
  have hscans : scansAlike "a = [b, c]" "/* d */ a=[\tb ,c] // e" = true := by decide +kernel
  obtain ⟨ls, ms, hs, ht, h⟩ := exists_of_scansAlike hscans
  exact ⟨ls, ms, hs, ht, h, Node.ofSource_layout hs ht h⟩

end ModuleLowering
