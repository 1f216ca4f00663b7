import ModuleLowering.Proofs.BuildingModules
import ModuleLowering.Proofs.Insertion
import ModuleLowering.Proofs.Positions
import ModuleLowering.Proofs.ReadPlaces

/-!
# The first form that is rejected

A module is collected unless one of its statements has a form that cannot be lowered, and then the
first of these is told of. In a module that has been read, all parts are of the kinds that this
asks for. Its tokens lie in order in the text, so the place that is told, at which a token of the
statement was read, lies in that statement.
-/

set_option autoImplicit false

namespace ModuleLowering

/-! ## Tokens in a text -/

/-- A token does not start behind another one, and if it is that of a lexeme it starts before. -/
structure Token.Precedes (t u : Token) : Prop where
  le : t.offset ≤ u.offset
  lt : t.inserted = false → t.offset < u.offset

/-- Tokens behind a place of a source are in order, each at the position of its offset. -/
structure Token.InOrder (source : Text) (place : Nat) (ts : List Token) : Prop where
  behind : ∀ t ∈ ts, place ≤ t.offset
  isAt : ∀ t ∈ ts, t.start.IsAt source t.offset
  ordered : ts.Pairwise Token.Precedes

namespace Token.InOrder

variable {source : Text} {place next : Nat} {ts : List Token} {t : Token}

theorem nil : InOrder source place [] :=
  ⟨List.forall_mem_nil _, List.forall_mem_nil _, .nil⟩

theorem cons (hplace : place ≤ t.offset) (hisAt : t.start.IsAt source t.offset)
    (hle : t.offset ≤ next) (hlt : t.inserted = false → t.offset < next)
    (h : InOrder source next ts) : InOrder source place (t :: ts) where
  behind := List.forall_mem_cons.2
    ⟨hplace, fun u hu => hplace.trans (hle.trans (h.behind u hu))⟩
  isAt := List.forall_mem_cons.2 ⟨hisAt, h.isAt⟩
  ordered := h.ordered.cons fun u hu =>
    ⟨hle.trans (h.behind u hu), fun ht => (hlt ht).trans_le (h.behind u hu)⟩

end Token.InOrder

namespace Lexeme

variable {source : Text} {place : Nat} {l : Lexeme} {ls : List Lexeme}

theorem Tiling.head (h : Tiling source place (l :: ls)) : l.LiesBehind source place :=
  h.lexeme [] l ls rfl

theorem Tiling.tail (h : Tiling source place (l :: ls)) : Tiling source l.endOffset ls where
  lexeme before m after hls := h.lexeme (l :: before) m after (congrArg (List.cons l) hls)
  rest := h.rest

end Lexeme

namespace Terminators

variable {source : Text} {place : Nat} {s : Terminators} {last : Option Lexeme}
  {ls : List Lexeme} {ts : List Token}

/-- The tokens of lexemes that lie in a text are in order. -/
theorem inOrder_of_tokens (h : s.tokens last ls = ⟨ts, none⟩)
    (htiling : Lexeme.Tiling source place ls)
    (hls : ∀ l ∈ ls, l.start.IsAt source l.offset ∧ l.finish.IsAt source l.endOffset)
    (hlast : ∀ l ∈ last, l.endOffset = place ∧ l.finish.IsAt source l.endOffset) :
    Token.InOrder source place ts := by
  induction ls generalizing s last place ts with
  | nil =>
    cases last with
    | none =>
      cases h
      exact .nil
    | some l =>
      obtain ⟨hend, hfinish⟩ := hlast l rfl
      obtain ⟨-, rfl⟩ := finish_eq_ok.1 h
      split
      · exact .cons hend.ge hfinish (Nat.le_refl _) nofun .nil
      · exact .nil
  | cons l ls ih =>
    obtain ⟨⟨hstart, hfinish⟩, hrest⟩ := List.forall_mem_cons.1 hls
    have hbehind := htiling.head.behind
    have hlt := htiling.head.nonempty
    obtain ⟨t, next, us, -, hus, rfl⟩ := tokens_cons_eq_ok.1 h
    have hlast' : ∀ m ∈ some l, m.endOffset = l.endOffset ∧ m.finish.IsAt source m.endOffset := by
      rintro m ⟨⟩
      exact ⟨rfl, hfinish⟩
    have hmore : Token.InOrder source l.endOffset us := ih hus htiling.tail hrest hlast'
    split
    · exact .cons hbehind hstart (Nat.le_refl _) nofun
        (.cons (Nat.le_refl _) hstart hlt.le (fun _ => hlt) hmore)
    · exact .cons hbehind hstart hlt.le (fun _ => hlt) hmore

end Terminators

/-! ## The parts of what has been read -/

namespace Node

variable {n : Node} {r : Role}

theorem Fits.isSome_name? (h : n.Fits .name) : n.name?.isSome := by
  obtain ⟨x, hx⟩ := h.exists_named
  cases hx
  rfl

theorem Fits.isSome_literalValue? (h : n.Fits .literal) : (literalValue? (some n)).isSome := by
  cases h
  rfl

theorem Fits.isImportSpecifier (h : n.Fits .importSpecifier) : n.IsImportSpecifier := by
  cases h with
  | importSpecifier hname => exact ⟨hname.isSome_name?, rfl⟩
  | importDefaultSpecifier hname => exact hname.isSome_name?
  | importNamespaceSpecifier hname => exact hname.isSome_name?

theorem Fits.isExportSpecifier (h : n.Fits .exportSpecifier) : n.IsExportSpecifier := by
  cases h
  exact ⟨rfl, rfl⟩

theorem Fits.isDeclaration (h : n.Fits r) : n.IsDeclaration := by
  induction h
  case functionDefinition hid _ _ _ _ _ => exact fun name hname => (hid name hname).isSome_name?
  case classDefinition hid _ _ _ _ _ => exact fun name hname => (hid name hname).isSome_name?
  case variableDeclaration hdeclarators _ =>
    intro d hd
    cases hdeclarators d hd with
    | variableDeclarator => exact ⟨_, _, rfl⟩
  all_goals first | assumption | trivial

/-- What may stand in a tree has the parts that are asked for. -/
theorem Fits.hasParts (h : n.Fits r) : n.HasParts := by
  induction h
  case importDeclaration hspecifiers hsource _ _ =>
    exact ⟨hsource.isSome_literalValue?, fun n hn => (hspecifiers n hn).isImportSpecifier⟩
  case exportNames hspecifiers hsource _ _ =>
    exact ⟨fun n hn => (hsource n hn).isSome_literalValue?,
      fun n hn => (hspecifiers n hn).isExportSpecifier⟩
  case exportDeclared hdeclared _ => exact hdeclared.isDeclaration
  case exportDefault hdeclaration _ =>
    rintro d ⟨⟩
    exact hdeclaration.isDeclaration
  case exportAll hsource _ _ _ => exact hsource.isSome_literalValue?
  all_goals first | assumption | trivial

end Node

/-! ## Where the place is -/

namespace Parser

variable {n m : Nat} {ts : List Token} {before after : List Node} {s : Node}
  {runtimeModule : Bool} {f : UnsupportedForm} {place : Option Position}

/-- A statement among those of a module has been read from tokens of its own, which hold the place
that may be told of it. -/
theorem exists_read_of_unsupported
    (hrun : (moduleItems (.within n)).run ts = .ok ((before ++ s :: after).map .ok, []))
    (h : s.Unsupported runtimeModule f place) :
    ∃ front read back, ts = front ++ (read ++ back) ∧ PlacedAt read place ∧
      s.loc = (read ++ back).head?.map Token.start ∧
      ∀ next ∈ after.head?, ∃ v ∈ back, next.loc = some v.start := by
  have hitems : (manyUntil (item (.within n)) Option.isNone (ts.length + 1)).run ts =
      .ok (before.map .ok ++ .ok s :: after.map .ok, []) := by
    rw [← List.map_cons, ← List.map_append]
    exact hrun
  obtain ⟨front, read, back, m, rfl, hs, hread, hmore⟩ :=
    (Locates.item runtimeModule fun _ => False).exists_read_of_manyUntil hitems
  refine ⟨front, read, back, rfl, ?_, Answers.item _ _ hs s rfl, ?_⟩
  · exact (hread place ⟨s, rfl, f, h⟩).resolve_left id
  · intro next hnext
    obtain ⟨rest, rfl⟩ := List.head?_eq_some_iff.1 hnext
    obtain ⟨m', mid, hitem, -⟩ := Locates.exists_run_of_manyUntil hmore
    have hloc : next.loc = back.head?.map Token.start := Answers.item _ _ hitem next rfl
    -- The next statement is no longer there if no tokens are left.
    cases back with
    | nil => cases m <;> cases hmore
    | cons v back => exact ⟨v, List.mem_cons_self, hloc⟩

end Parser

/-- A place lies in a statement of a source, before those that follow: a lexeme starts there, not
before the statement does and before the next one. -/
def Node.Holds (source : Text) (s : Node) (after : List Node) (place : Option Position) : Prop :=
  ∃ ls l start i, Lexeme.scan source = .ok ls ∧ l ∈ ls ∧ place = some l.start ∧
    l.start.IsAt source l.offset ∧ s.loc = some start ∧ start.IsAt source i ∧ i ≤ l.offset ∧
      ∀ next ∈ after.head?, ∃ p k, next.loc = some p ∧ p.IsAt source k ∧ l.offset < k

/-- A token with a text of its own is that of a lexeme. -/
theorem TokenStream.exists_standsFor {ls : List Lexeme} {ts : List Token} {t : Token}
    (h : ofLexemes ls = ⟨ts, none⟩) (ht : t ∈ ts) (htext : t.terminal ≠ .terminator) :
    t.inserted = false ∧ ∃ l ∈ ls, t.StandsFor l := by
  have hterminated := terminated_ofLexemes (congrArg stop h)
  rw [h] at hterminated
  have hkept : t.inserted = false := by
    cases hinserted : t.inserted with
    | false => rfl
    | true => exact absurd (hterminated.inserted t ht hinserted) htext
  have hmem : t ∈ ts.filter fun u => !u.inserted := List.mem_filter.2 ⟨ht, by rw [hkept]; rfl⟩
  obtain ⟨i, hi, rfl⟩ := List.getElem_of_mem hmem
  obtain ⟨hlength, hget⟩ := List.forall₂_iff_get.1 hterminated.kept
  exact ⟨hkept, ls.get ⟨i, hlength ▸ hi⟩, List.get_mem _ _, hget i (hlength ▸ hi) hi⟩

/-- The place that is told of a statement that has been read lies in it. -/
theorem Node.holds_of_ofSource {source : Text} {program : Node} {runtimeModule : Bool}
    {before after : List Node} {s : Node} {f : UnsupportedForm} {place : Option Position}
    (hsource : ofSource source = .ok program)
    (hform : program.form = .program (before ++ s :: after))
    (h : s.Unsupported runtimeModule f place) : s.Holds source after place := by
  obtain ⟨ls, ts, items, body, hscan, hts, hrun, hbody, rfl⟩ := ofSource_eq_ok.1 hsource
  cases hform
  rw [Parser.inOrder_eq_ok.1 hbody] at hrun
  obtain ⟨front, read, back, rfl, ⟨t, ht, htext, rfl⟩, hs, hnext⟩ :=
    Parser.exists_read_of_unsupported hrun h
  have horder := Terminators.inOrder_of_tokens hts (Lexeme.tiling_of_scan hscan)
    (Lexeme.isAt_of_scan hscan) nofun
  have hpairwise := (List.pairwise_append.1 horder.ordered).2.1
  have hall : ∀ u ∈ read ++ back, u ∈ front ++ (read ++ back) := fun u hu =>
    List.mem_append_right front hu
  have hmem : t ∈ read ++ back := List.mem_append_left back ht
  obtain ⟨hkept, l, hl, hstands⟩ := TokenStream.exists_standsFor hts (hall t hmem) htext
  have hplace := (Lexeme.isAt_of_scan hscan l hl).1
  -- The statement starts at the first of its tokens.
  obtain ⟨u, us, hus⟩ := List.exists_cons_of_ne_nil (List.ne_nil_of_mem hmem)
  have hstart : u.start.IsAt source u.offset :=
    horder.isAt u (hall u (hus ▸ List.mem_cons_self))
  have hle : u.offset ≤ l.offset := by
    rw [← hstands.offset]
    rw [hus] at hmem hpairwise
    rcases List.mem_cons.1 hmem with rfl | hmem
    · exact Nat.le_refl _
    · exact ((List.pairwise_cons.1 hpairwise).1 t hmem).le
  rw [hus] at hs
  refine ⟨ls, l, u.start, u.offset, hscan, hl, by rw [hstands.start], hplace, hs, hstart, hle, ?_⟩
  intro next hafter
  obtain ⟨v, hv, hloc⟩ := hnext next hafter
  have hlt := ((List.pairwise_append.1 hpairwise).2.2 t ht v hv).lt hkept
  rw [hstands.offset] at hlt
  exact ⟨v.start, v.offset, hloc, horder.isAt v (hall v (List.mem_append_right read hv)), hlt⟩

/-! ## Modules -/

namespace Collection

variable {runtimeModule : Bool} {names : Names} {program : Node} {body : List Node}

theorem error_iff_unsupported (hform : program.form = .program body)
    (hparts : ∀ s ∈ body, s.HasParts) :
    (∃ f place, (ofProgram runtimeModule names program).1 = .error (.unsupported f place)) ↔
      ∃ s ∈ body, ∃ f place, s.Unsupported runtimeModule f place := by
  rcases ofProgram_cases runtimeModule names hform hparts with
    ⟨hok, hnone⟩ | ⟨before, s, after, f, place, rfl, hfirst, herror⟩
  · constructor
    · rintro ⟨f, place, herror⟩
      rw [hok] at herror
      cases herror
    · rintro ⟨s, hs, f, place, h⟩
      exact absurd h (hnone s hs f place)
  · have hs : s ∈ before ++ s :: after := List.mem_append_right _ List.mem_cons_self
    exact ⟨fun _ => ⟨s, hs, f, place, hfirst.unsupported⟩, fun _ => ⟨f, place, herror⟩⟩

/-- Whatever keeps a module from being collected is the first form that cannot be lowered. -/
theorem exists_first_of_error (hform : program.form = .program body)
    (hparts : ∀ s ∈ body, s.HasParts) {e : CollectError}
    (h : (ofProgram runtimeModule names program).1 = .error e) :
    ∃ before s after f place, body = before ++ s :: after ∧ e = .unsupported f place ∧
      Node.FirstUnsupported runtimeModule before s f place := by
  rcases ofProgram_cases runtimeModule names hform hparts with
    ⟨hok, hnone⟩ | ⟨before, s, after, f, place, hbody, hfirst, herror⟩
  · rw [hok] at h
    cases h
  · rw [herror] at h
    exact ⟨before, s, after, f, place, hbody, (Except.error.inj h).symm, hfirst⟩

/-- A module is collected unless a statement has a form that cannot be lowered. The first of these
is told of, and if the module has been read, a place in it. -/
theorem ofProgram_unsupported (runtimeModule : Bool) (names : Names) :
    (∀ program body, program.form = .program body → (∀ s ∈ body, s.HasParts) →
      ((∃ f place, (ofProgram runtimeModule names program).1 = .error (.unsupported f place)) ↔
        ∃ s ∈ body, ∃ f place, s.Unsupported runtimeModule f place) ∧
      ∀ e, (ofProgram runtimeModule names program).1 = .error e →
        ∃ before s after f place, body = before ++ s :: after ∧ e = .unsupported f place ∧
          Node.FirstUnsupported runtimeModule before s f place) ∧
    ∀ source program, Node.ofSource source = .ok program →
      ∃ body, program.form = .program body ∧ (∀ s ∈ body, s.HasParts) ∧
        ∀ e, (ofProgram runtimeModule names program).1 = .error e →
          ∃ before s after f place, body = before ++ s :: after ∧ e = .unsupported f place ∧
            Node.FirstUnsupported runtimeModule before s f place ∧
              s.Holds source after place := by
  refine ⟨fun program body hform hparts => ?_, fun source program hsource => ?_⟩
  · exact ⟨error_iff_unsupported hform hparts, fun e => exists_first_of_error hform hparts⟩
  · have hfits := Node.fits_ofSource hsource
    cases hfits with
    | @program loc body hbody =>
      have hparts : ∀ s ∈ body, s.HasParts := fun s hs => (hbody s hs).hasParts
      refine ⟨body, rfl, hparts, fun e herror => ?_⟩
      obtain ⟨before, s, after, f, place, rfl, he, hfirst⟩ :=
        exists_first_of_error rfl hparts herror
      exact ⟨before, s, after, f, place, rfl, he, hfirst,
        Node.holds_of_ofSource hsource rfl hfirst.unsupported⟩

/-- The second of three statements takes a value apart, and the third one has a string as a name. -/
theorem ofProgram_unsupported_second_statement : ∃ program before s after,
    Node.ofSource "import a from 'm';\nexport const b = 1, [c] = a;\nexport * as 'd' from 'n';" =
        .ok program ∧
      program.form = .program (before ++ s :: after) ∧
      (ofProgram true (.ofProgram program) program).1 =
        .error (.unsupported .destructuredVariable (some ⟨2, 21⟩)) ∧
      (∃ r ∈ before ++ s :: after, ∃ f place, r.Unsupported true f place) ∧
      Node.FirstUnsupported true before s .destructuredVariable (some ⟨2, 21⟩) ∧
      s.Holds "import a from 'm';\nexport const b = 1, [c] = a;\nexport * as 'd' from 'n';"
        after (some ⟨2, 21⟩) := by
  have htest : Node.parsesTo
      "import a from 'm';\nexport const b = 1, [c] = a;\nexport * as 'd' from 'n';"
      (fun program => (ofProgram true (.ofProgram program) program).1 =
        .error (.unsupported .destructuredVariable (some ⟨2, 21⟩))) = true := by
    decide +kernel
  obtain ⟨program, _, hsource, -, hchecks⟩ := Node.exists_of_parsesTo htest
  have herror := of_decide_eq_true hchecks
  obtain ⟨hall, hread⟩ := ofProgram_unsupported true (.ofProgram program)
  obtain ⟨body, hform, hparts, hfirst⟩ := hread _ program hsource
  have hsome := (hall program body hform hparts).1.1 ⟨_, _, herror⟩
  obtain ⟨before, s, after, f, place, rfl, he, hfirst, hholds⟩ := hfirst _ herror
  cases he
  exact ⟨program, before, s, after, hsource, hform, herror, hsome, hfirst, hholds⟩

end Collection

end ModuleLowering
