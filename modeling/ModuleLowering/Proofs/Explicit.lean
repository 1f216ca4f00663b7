import ModuleLowering.Proofs.FollowingStatements
import ModuleLowering.Proofs.KeepingStatements
import ModuleLowering.Proofs.Rescanning

/-!
# Semicolons in place of inserted terminators

A module can be written with a semicolon wherever a terminator is inserted. Nothing else changes:
the lexemes are the same with the semicolons between them, each of them is read in the same state as
before, and no terminator has to be inserted any more.
-/

set_option autoImplicit false

namespace ModuleLowering

/-- Two lexemes that the insertion of terminators cannot tell apart. -/
structure Lexeme.Matches (l m : Lexeme) : Prop where
  kind : l.kind = m.kind
  text : l.text = m.text
  lineBreakBefore : l.lineBreakBefore = m.lineBreakBefore

theorem Lexeme.Matches.punctuator? {l m : Lexeme} (h : l.Matches m) :
    l.punctuator? = m.punctuator? := by
  unfold Lexeme.punctuator?
  rw [h.kind]

/-- A semicolon on the line of the lexeme before it. -/
structure Lexeme.IsSemicolon (l : Lexeme) : Prop where
  kind : l.kind = .punctuator .semicolon
  lineBreakBefore : l.lineBreakBefore = false

namespace Terminators

open Terminal (word punctuator)

variable {s next : Terminators} {l m c : Lexeme} {last last' follow follow' : Option Lexeme}
  {ls ms : List Lexeme} {t : Terminal} {ts : List Token}

/-! ## One lexeme -/

theorem needsTerminator_matches (h : l.Matches m) (s : Terminators) :
    s.needsTerminator l = s.needsTerminator m := by
  unfold needsTerminator startsStatement
  rw [h.kind, h.text, h.lineBreakBefore]

theorem needsTerminator_semicolon (h : c.IsSemicolon) (s : Terminators) :
    s.needsTerminator c = false := by
  simp [needsTerminator, h.kind, h.lineBreakBefore]

/-- Behind a terminator no other one is inserted. -/
theorem needsTerminator_remember (s : Terminators) (l : Lexeme) :
    (s.remember .terminator none).needsTerminator l = false := by
  simp [needsTerminator, remember, mayEnd, endsStatement]

theorem needsTerminator_cases (h : s.needsTerminator l = true) :
    s.inStatements = true ∧ (l.kind = .punctuator .rightBrace ∨ l.lineBreakBefore = true ∨
      s.previous = some (punctuator .rightParen)) := by
  unfold needsTerminator at h
  split at h
  · cases h
  rename_i hin
  rw [Bool.or_eq_true, not_or, Bool.not_eq_true', Bool.not_eq_false] at hin
  refine ⟨hin.1, ?_⟩
  split at h
  · exact .inl ‹_›
  split at h
  · rename_i hcondition
    rw [Bool.and_eq_true, decide_eq_true_eq] at hcondition
    exact .inr (.inr hcondition.1)
  split at h
  · cases h
  · rename_i hline
    exact .inr (.inl (by simpa using hline))

theorem read_semicolon (h : c.IsSemicolon) (hs : s.inStatements = true) (follow : Option Lexeme) :
    s.read c follow = .ok (.terminator, s.remember .terminator none) := by
  simp only [read, h.kind, readPunctuator, hs, if_true]

theorem wordOf_matches (hfollow : Option.Rel Lexeme.Matches follow follow') (text : Text) :
    s.wordOf text follow = s.wordOf text follow' := by
  cases hfollow with
  | none => rfl
  | some hfollow =>
    simp only [wordOf, Option.bind_some, Option.map_some, hfollow.punctuator?,
      hfollow.lineBreakBefore]

theorem read_matches (h : l.Matches m) (hfollow : Option.Rel Lexeme.Matches follow follow') :
    s.read l follow = s.read m follow' := by
  unfold read
  rw [← h.kind, h.text, wordOf_matches hfollow]

/-- What comes behind a name matters where it may be the name of a property or of a member. -/
theorem wordOf_before_semicolon (hc : c.IsSemicolon) (hs : s.scopes.head? ≠ some .object)
    (hfollow : ∀ r ∈ follow, r.kind = .punctuator .rightBrace ∨ r.lineBreakBefore = true)
    (text : Text) : s.wordOf text (some c) = s.wordOf text follow := by
  have hmember : ((follow.map Lexeme.lineBreakBefore).getD true ||
      [some Punctuator.leftParen, some .assign, some .semicolon, some .rightBrace].contains
        (follow.bind Lexeme.punctuator?)) = true := by
    cases follow with
    | none => rfl
    | some r =>
      rcases hfollow r rfl with hr | hr
      · simp [Lexeme.punctuator?, hr]
      · simp [hr]
  simp only [wordOf, hs, decide_false, Bool.false_and, hmember]
  simp [Lexeme.punctuator?, hc.kind]

theorem readWord_scopes (s : Terminators) (w : Word) :
    (s.readWord w).2.scopes = s.scopes ∧ (s.readWord w).2.previous = some (word w) := by
  cases w
  case kwWhile =>
    simp only [readWord, remember]
    split <;> simp
  all_goals exact ⟨rfl, rfl⟩

/-- A name leaves the scopes as they are. -/
theorem read_name_scopes (hl : l.kind = .name) (h : s.read l follow = .ok (t, next)) :
    next.scopes = s.scopes ∧ next.previous ≠ some (punctuator .rightParen) := by
  simp only [read, hl] at h
  split at h
  · cases h
    exact ⟨rfl, nofun⟩
  · rename_i w _
    have hnext : (s.readWord w).2 = next := congrArg Prod.snd (Except.ok.inj h)
    obtain ⟨hscopes, hprevious⟩ := readWord_scopes s w
    rw [← hnext, hscopes, hprevious]
    exact ⟨rfl, nofun⟩

/-- A lexeme is read in the same way if the terminator that is inserted behind it is spelled out. -/
theorem read_before_semicolon (h : s.read l follow = .ok (t, next)) (hc : c.IsSemicolon)
    (hnext : next.inStatements = true)
    (hfollow : ∀ r ∈ follow, r.kind = .punctuator .rightBrace ∨ r.lineBreakBefore = true ∨
      next.previous = some (punctuator .rightParen)) :
    s.read l (some c) = .ok (t, next) := by
  by_cases hl : l.kind = .name
  · obtain ⟨hscopes, hprevious⟩ := read_name_scopes hl h
    have hobject : s.scopes.head? ≠ some .object := by
      intro hobject
      obtain ⟨outer, houter⟩ := List.head?_eq_some_iff.1 hobject
      simp [inStatements, hscopes, houter, Scope.holdsStatements] at hnext
    have hword : s.wordOf l.text (some c) = s.wordOf l.text follow := by
      refine wordOf_before_semicolon hc hobject (fun r hr => ?_) l.text
      rcases hfollow r hr with hr | hr | hr
      · exact .inl hr
      · exact .inr hr
      · exact absurd hr hprevious
    rw [← h]
    unfold read
    rw [hword]
  · rw [← h]
    unfold read
    split
    · rfl
    · rfl
    · rfl
    · rfl
    · contradiction
    · rfl

/-! ## The stream -/

theorem tokens_cons_eq_ok {rest : List Lexeme} :
    s.tokens last (l :: rest) = ⟨ts, none⟩ ↔
      ∃ t next us,
        (if s.needsTerminator l then s.remember .terminator none else s).read l rest.head? =
          .ok (t, next) ∧
        next.tokens (some l) rest = ⟨us, none⟩ ∧
        ts = (if s.needsTerminator l then [insertedBefore l] else []) ++ tokenOf t l :: us := by
  rw [tokens]
  cases hread : (if s.needsTerminator l then s.remember .terminator none else s).read l
      rest.head? with
  | error fault => simp
  | ok r =>
    obtain ⟨t, next⟩ := r
    simp only [TokenStream.precededBy, TokenStream.mk.injEq]
    constructor
    · rintro ⟨rfl, hstop⟩
      refine ⟨t, next, (next.tokens (some l) rest).tokens, rfl, ?_, by simp⟩
      rw [← hstop]
    · rintro ⟨t', next', us, hr, hus, rfl⟩
      cases hr
      rw [hus]
      simp

theorem finish_eq_ok : s.finish (some l) = ⟨ts, none⟩ ↔
    s.scopes = [] ∧ ts = if s.mayEnd then [insertedAfter l] else [] := by
  simp only [finish]
  cases hscopes : s.scopes with
  | cons scope outer => simp
  | nil =>
    cases s.mayEnd <;> simp [eq_comm]

/-- The second list has a semicolon wherever a terminator is inserted in the first one. -/
inductive Explicit : Terminators → List Lexeme → List Lexeme → Prop where
  | done {s : Terminators} : s.mayEnd = false → Explicit s [] []
  | ended {s : Terminators} {c : Lexeme} : s.scopes = [] → s.mayEnd = true → c.IsSemicolon →
      Explicit s [] [c]
  | kept {s next : Terminators} {l m : Lexeme} {t : Terminal} {ls ms : List Lexeme} :
      s.needsTerminator l = false → l.Matches m → s.read l ls.head? = .ok (t, next) →
      Explicit next ls ms → Explicit s (l :: ls) (m :: ms)
  | parted {s next : Terminators} {c l m : Lexeme} {t : Terminal} {ls ms : List Lexeme} :
      s.needsTerminator l = true → c.IsSemicolon → l.Matches m →
      (s.remember .terminator none).read l ls.head? = .ok (t, next) →
      Explicit next ls ms → Explicit s (l :: ls) (c :: m :: ms)

/-- What comes first in the second list. -/
theorem Explicit.read (h : Explicit next ls ms) (hl : l.Matches m)
    (hread : s.read l ls.head? = .ok (t, next)) : s.read m ms.head? = .ok (t, next) := by
  have hmatch : s.read m ls.head? = .ok (t, next) := by
    rw [← hread]
    refine (read_matches hl ?_).symm
    cases ls.head? with
    | none => exact .none
    | some r => exact .some ⟨rfl, rfl, rfl⟩
  cases h with
  | done => exact hmatch
  | ended hscopes _ hc =>
    exact read_before_semicolon hmatch hc (by simp [inStatements, hscopes]) nofun
  | kept _ hmatches _ _ =>
    rw [← hread]
    exact (read_matches hl (.some hmatches)).symm
  | parted hneeded hc hmatches _ _ =>
    obtain ⟨hin, hcases⟩ := needsTerminator_cases hneeded
    refine read_before_semicolon hmatch hc hin fun r hr => ?_
    cases hr
    exact hcases

/-- The semicolons stand for the inserted terminators, and no other one is inserted. -/
theorem Explicit.tokens (h : Explicit s ls ms) (hts : s.tokens last ls = ⟨ts, none⟩)
    (hlast : last = none → s.mayEnd = false) (hlast' : last' = none ↔ last = none) :
    ∃ us, s.tokens last' ms = ⟨us, none⟩ ∧ Continues [] ts us ∧ ∀ u ∈ us, u.inserted = false := by
  induction h generalizing last last' ts with
  | done hend =>
    cases last with
    | none =>
      rw [hlast'.2 rfl]
      cases hts
      exact ⟨[], rfl, .nil, nofun⟩
    | some l =>
      obtain ⟨l', rfl⟩ := Option.ne_none_iff_exists'.1 fun h => nomatch hlast'.1 h
      obtain ⟨hscopes, rfl⟩ := finish_eq_ok.1 hts
      rw [hend]
      exact ⟨[], finish_eq_ok.2 ⟨hscopes, by rw [hend]; rfl⟩, .nil, nofun⟩
  | @ended s c hscopes hend hc =>
    cases last with
    | none => exact absurd hend (by rw [hlast rfl]; exact Bool.false_ne_true)
    | some l =>
      obtain ⟨-, rfl⟩ := finish_eq_ok.1 hts
      rw [hend]
      have hfinish : (s.remember .terminator none).finish (some c) = ⟨[], none⟩ :=
        finish_eq_ok.2 ⟨hscopes, rfl⟩
      refine ⟨[tokenOf .terminator c], tokens_cons_eq_ok.2 ⟨.terminator, _, [], ?_, hfinish, ?_⟩,
        .cons ⟨rfl, fun h => absurd rfl h⟩ .nil, ?_⟩
      · rw [needsTerminator_semicolon hc]
        exact read_semicolon hc (by simp [inStatements, hscopes]) _
      · rw [needsTerminator_semicolon hc]
        rfl
      · simp [tokenOf]
  | @kept s next l m t ls ms hneeded hmatches hread hrest ih =>
    obtain ⟨t', next', ts', hread', hts', rfl⟩ := tokens_cons_eq_ok.1 hts
    rw [hneeded] at hread' ⊢
    cases hread.symm.trans hread'
    obtain ⟨us, hus, hcontinues, hinserted⟩ := ih hts' nofun
      (iff_of_false (Option.some_ne_none m) (Option.some_ne_none l))
    refine ⟨tokenOf t m :: us, tokens_cons_eq_ok.2 ⟨t, next, us, ?_, hus, ?_⟩,
      .cons ⟨rfl, fun _ => hmatches.text⟩ hcontinues, List.forall_mem_cons.2 ⟨rfl, hinserted⟩⟩
    · rw [← needsTerminator_matches hmatches, hneeded]
      exact hrest.read hmatches hread
    · rw [← needsTerminator_matches hmatches, hneeded]
      rfl
  | @parted s next c l m t ls ms hneeded hc hmatches hread hrest ih =>
    obtain ⟨t', next', ts', hread', hts', rfl⟩ := tokens_cons_eq_ok.1 hts
    rw [hneeded] at hread' ⊢
    cases hread.symm.trans hread'
    obtain ⟨us, hus, hcontinues, hinserted⟩ := ih hts' nofun
      (iff_of_false (Option.some_ne_none m) (Option.some_ne_none l))
    have hbehind : (s.remember .terminator none).tokens (some c) (m :: ms) =
        ⟨tokenOf t m :: us, none⟩ := by
      refine tokens_cons_eq_ok.2 ⟨t, next, us, ?_, hus, ?_⟩
      · rw [needsTerminator_remember]
        exact hrest.read hmatches hread
      · rw [needsTerminator_remember]
        rfl
    refine ⟨tokenOf .terminator c :: tokenOf t m :: us,
      tokens_cons_eq_ok.2 ⟨.terminator, _, _, ?_, hbehind, ?_⟩,
      .cons ⟨rfl, fun h => absurd rfl h⟩ (.cons ⟨rfl, fun _ => hmatches.text⟩ hcontinues),
      List.forall_mem_cons.2 ⟨rfl, List.forall_mem_cons.2 ⟨rfl, hinserted⟩⟩⟩
    · rw [needsTerminator_semicolon hc]
      exact read_semicolon hc (needsTerminator_cases hneeded).1 _
    · rw [needsTerminator_semicolon hc]
      rfl

end Terminators

/-! ## The text -/

/-- A text from `offset` on, with a semicolon for every inserted one of the tokens; each stands
where the token before it ends. -/
def explicitFrom (offset : Nat) : List Token → Text → Text
  | [], t => t
  | u :: us, t =>
    if u.inserted then ';' :: explicitFrom offset us t
    else t.take (u.endOffset - offset) ++
      explicitFrom u.endOffset us (t.drop (u.endOffset - offset))

/-- The tokens of a text, as far as it has any. -/
def TokenStream.ofSource (source : Text) : TokenStream :=
  match Lexeme.scan source with
  | .ok lexemes => .ofLexemes lexemes
  | .error _ => ⟨[], none⟩

/-- A module with all its terminators spelled out. -/
def explicitSource (source : Text) : Text :=
  explicitFrom 0 (TokenStream.ofSource source).tokens source

namespace Scanner

open Terminators

variable {s s' next : Terminators} {l c : Lexeme} {last : Option Lexeme}
  {ls ms : List Lexeme} {t : Text} {ts us : List Token} {offset o : Nat}
  {position p : Position} {regex : Bool} {g rest : Text} {terminal : Terminal}

/-- A semicolon on the line of what is before it. -/
def semicolonAt (offset : Nat) (position : Position) : Lexeme :=
  ⟨.punctuator .semicolon, [CodePoint.ofChar ';'], offset, position, false⟩

theorem Scans.semicolon (h : Scans (offset + 1) (position.advance [CodePoint.ofChar ';']) true t ms) :
    Scans offset position regex (CodePoint.ofChar ';' :: t) (semicolonAt offset position :: ms) :=
  .cons (g := []) (l := semicolonAt offset position) .semicolon rfl rfl h

/-- The same lexeme at another place. -/
def movedTo (l : Lexeme) (offset : Nat) (position : Position) : Lexeme :=
  { l with offset := offset, start := position }

theorem Scans.moved (h : Starts (offset = 0) regex g l.lineBreakBefore l.kind l.text rest)
    (hrest : Scans (offset + g.length + l.text.length) ((position.advance g).advance l.text)
      l.precedesRegex rest ms) :
    Scans offset position regex (g ++ (l.text ++ rest))
      (movedTo l (offset + g.length) (position.advance g) :: ms) :=
  .cons (l := movedTo l (offset + g.length) (position.advance g)) h rfl rfl hrest

/-- A token is copied with the gap before it. -/
theorem explicitFrom_token (hoffset : l.offset = offset + g.length) :
    explicitFrom offset (tokenOf terminal l :: us) (g ++ (l.text ++ rest)) =
      g ++ (l.text ++ explicitFrom l.endOffset us rest) := by
  have hlength : l.endOffset - offset = (g ++ l.text).length := by
    rw [Lexeme.endOffset, hoffset, List.length_append]
    omega
  show (g ++ (l.text ++ rest)).take (l.endOffset - offset) ++
    explicitFrom l.endOffset us ((g ++ (l.text ++ rest)).drop (l.endOffset - offset)) = _
  rw [hlength, ← List.append_assoc, List.take_left, List.drop_left, List.append_assoc]

/-- A slash that no regular expression starts with is a token that divides. -/
theorem divides_of_read {follow : Option Lexeme} (h : s.read l follow = .ok (terminal, next))
    (hl : l.kind = .punctuator .slash ∨ l.kind = .punctuator .slashAssign) :
    divides terminal = true := by
  rcases hl with hl | hl
  all_goals
    simp only [Terminators.read, hl, readPunctuator] at h
    cases h
    rfl

/-- A semicolon before anything else breaks a text at its start. -/
theorem breaks_semicolon {t b : Text} : Breaks t (CodePoint.ofChar ';' :: b) :=
  .inr ⟨[], t, _, b, rfl, rfl, rfl, fun h => absurd h.symm (List.cons_ne_nil _ _)⟩

/-- The explicit text has the same lexemes, and semicolons for the inserted terminators. -/
theorem Scans.explicit (h : Scans offset position regex t ls)
    (hts : s.tokens last ls = ⟨ts, none⟩) (hannounces : s.AnnouncesBodies)
    (hsteps : s.Steps ts s') (hlast : last = none → s.mayEnd = false)
    (hstart : offset = 0 → s.previous = none) (hoffset : o = 0 ↔ offset = 0) :
    Breaks t (explicitFrom offset ts t) ∧
      ∃ ms, Scans o p regex (explicitFrom offset ts t) ms ∧ Explicit s ls ms := by
  induction h generalizing s last ts o p with
  | @done offset position regex lineBreak t hspace =>
    have hsame : decide (o = 0) = decide (offset = 0) := decide_eq_decide.2 hoffset
    have hspaces : Scans o p regex t [] := .done fun hn => by rw [hsame, hspace hn]
    cases last with
    | none =>
      cases hts
      exact ⟨.inl rfl, [], hspaces, .done (hlast rfl)⟩
    | some l =>
      obtain ⟨hscopes, rfl⟩ := finish_eq_ok.1 hts
      cases hend : s.mayEnd with
      | false => exact ⟨.inl rfl, [], hspaces, .done hend⟩
      | true =>
        have hback : offset ≠ 0 := fun h => by simp [mayEnd, hstart h] at hend
        have hdone : Scans (o + 1) (p.advance [CodePoint.ofChar ';']) true t [] := by
          refine .done fun hn => Eq.trans ?_ (hspace hn)
          rw [decide_eq_false hback]
          rfl
        exact ⟨breaks_semicolon, _, hdone.semicolon,
          .ended hscopes hend ⟨rfl, rfl⟩⟩
  | @cons offset position regex g rest l ls hstarts hplace hposition hscans ih =>
    obtain ⟨terminal, next, us, hread, hus, rfl⟩ := tokens_cons_eq_ok.1 hts
    obtain ⟨c, v, hv, -⟩ := hstarts.exists_cons
    have hlong : 0 < l.text.length := by
      rw [hv]
      exact Nat.succ_pos _
    have hend : l.endOffset ≠ 0 := by
      rw [Lexeme.endOffset]
      omega
    have htext : explicitFrom offset (tokenOf terminal l :: us) (g ++ (l.text ++ rest)) = _ :=
      explicitFrom_token hplace
    cases hneeded : s.needsTerminator l with
    | false =>
      simp only [hneeded, Bool.false_eq_true, if_false, List.nil_append] at hread hsteps ⊢
      obtain ⟨rfl, hbodies⟩ := read_after hannounces hread
      cases hsteps with
      | cons hdivides hsteps =>
        obtain ⟨hbreaks, ms, hms, hexplicit⟩ := ih hus hbodies hsteps
          (fun h => absurd h (Option.some_ne_none l)) (fun h => absurd h hend) (o := o + g.length + l.text.length)
          (p := (p.advance g).advance l.text) (by omega)
        have hstarts' := hstarts.breaks hbreaks
        rw [← decide_eq_decide.2 hoffset] at hstarts'
        rw [htext]
        exact ⟨hstarts.breaks_text hbreaks, _, .moved hstarts' hms,
          .kept hneeded ⟨rfl, rfl, rfl⟩ hread hexplicit⟩
    | true =>
      simp only [hneeded, if_true, List.cons_append, List.nil_append] at hread hsteps ⊢
      have hback : offset ≠ 0 := fun h => by simp [needsTerminator, hstart h] at hneeded
      obtain ⟨rfl, hbodies⟩ := read_after (s := s.remember .terminator none) hannounces hread
      cases hsteps with
      | cons _ hsteps =>
        cases hsteps with
        | cons hdivides hsteps =>
          have hno : ¬(l.kind = .punctuator .slash ∨ l.kind = .punctuator .slashAssign) :=
            fun hl => hdivides (divides_of_read hread hl) rfl
          rw [not_or] at hno
          obtain ⟨hbreaks, ms, hms, hexplicit⟩ := ih hus hbodies hsteps
            (fun h => absurd h (Option.some_ne_none l)) (fun h => absurd h hend) (o := o + 1 + g.length + l.text.length)
            (p := ((p.advance [CodePoint.ofChar ';']).advance g).advance l.text)
            (by omega)
          have hstarts' := (hstarts.breaks hbreaks).withRegex hno.1 hno.2 fun _ => rfl
          rw [show decide (offset = 0) = decide (o + 1 = 0) from
            (decide_eq_false hback).trans rfl] at hstarts'
          have hwhole : explicitFrom offset (insertedBefore l :: tokenOf terminal l :: us)
              (g ++ (l.text ++ rest)) =
              CodePoint.ofChar ';' :: (g ++ (l.text ++ explicitFrom l.endOffset us rest)) :=
            congrArg _ htext
          rw [hwhole]
          exact ⟨breaks_semicolon, _,
            .semicolon (.moved hstarts' hms), .parted hneeded ⟨rfl, rfl⟩ ⟨rfl, rfl, rfl⟩ hread hexplicit⟩

end Scanner

/-! ## The module -/

/-- A module with all its terminators spelled out is the same module, and no terminator has to be
inserted into it. -/
theorem Node.ofSource_explicitSource {source : Text} {tree : Node}
    (h : Node.ofSource source = .ok tree) :
    ∃ tree', Node.ofSource (explicitSource source) = .ok tree' ∧ Alike tree tree' ∧
      ∀ u ∈ (TokenStream.ofSource (explicitSource source)).tokens, u.inserted = false := by
  obtain ⟨ls, ts, items, body, hscan, hts, hrun, hbody, rfl⟩ := ofSource_eq_ok.1 h
  obtain ⟨s', hsteps, -⟩ := Parser.steps_of_moduleItems hrun
  have hwritten : explicitSource source = explicitFrom 0 ts source := by
    rw [explicitSource, TokenStream.ofSource, hscan]
    dsimp only
    rw [hts]
  obtain ⟨-, ms, hms, hexplicit⟩ := (Scanner.scan_iff.1 hscan).explicit (o := 0)
    (p := .start) hts nofun hsteps (fun _ => rfl) (fun _ => rfl) Iff.rfl
  rw [← hwritten, ← Scanner.scan_iff] at hms
  obtain ⟨us, hus, hcontinues, hinserted⟩ :=
    hexplicit.tokens hts (fun _ => rfl) (Iff.refl (none = none))
  obtain ⟨items', hitems', halike⟩ := Parser.moduleItems_append (n := us.length + 1)
    Parser.inert_nil hrun (rfl : (Parser.moduleItems (.within 0)).run [] = .ok ([], [])) hcontinues .nil
    (by rw [hcontinues.length_eq]; exact Nat.le_refl _) (Nat.zero_le _)
  rw [List.append_nil] at halike
  have hbodies := halike.inOrder
  rw [hbody] at hbodies
  obtain ⟨body', hbody', hbodies⟩ := hbodies.exists_ok
  refine ⟨.mk (some .start) (.program body'),
    ofSource_eq_ok.2 ⟨ms, us, items', body', hms, hus, hitems', hbody', rfl⟩,
    alike_mk (by simp [hbodies]), ?_⟩
  rw [TokenStream.ofSource, hms]
  dsimp only
  rw [show TokenStream.ofLexemes ms = ⟨us, none⟩ from hus]
  exact hinserted

theorem Node.explicitSource_two_lines :
    ∃ tree tree', Node.ofSource "do a\nwhile (b) c" = .ok tree ∧
      Node.ofSource "do a;\nwhile (b); c;" = .ok tree' ∧ Alike tree tree' := by
  have hexplicit : explicitSource "do a\nwhile (b) c" = "do a;\nwhile (b); c;" := by
    decide +kernel
  have htest : (Node.ofSource "do a\nwhile (b) c").isOk = true := by decide +kernel
  cases htree : Node.ofSource "do a\nwhile (b) c" with
  | error e =>
    rw [htree] at htest
    cases htest
  | ok tree =>
    obtain ⟨tree', htree', halike, -⟩ := Node.ofSource_explicitSource htree
    rw [hexplicit] at htree'
    exact ⟨tree, tree', rfl, htree', halike⟩

end ModuleLowering
