import ModuleLowering.Proofs.Issuing
import ModuleLowering.Proofs.Rejections

/-!
# The places of nodes

Every node of a module is placed at a lexeme, and none before the node that holds it. A node is
placed at the first token that was read for it; only a terminator behind the last lexeme is at no
lexeme's place, and no statement is read from it alone.
-/

set_option autoImplicit false

namespace ModuleLowering

open Sited

/-! ## Statements that end with another one -/

/-- The parsers for what lies deeper, in states and in regions. -/
structure Deeper.Stays (k : Deeper) : Prop where
  keeps : k.Keeps
  situates : k.Situates
  statement : ∀ {K : Region} {f : Frame}, f.Unannounced →
    Parser.Stays K (·.Starting f) k.statement (InRegion K) fun _ s => s.Finished f

namespace Parser.Stays

open Terminators (behind_after behind_after_while finished_after_terminator opens_head
  starting_after_else in_after_semicolon isPlain divides)

variable {K : Region} {s : Option Position} {g : Frame} {k : Deeper} (h : k.Stays)
  (hg : g.Unannounced)
include h hg

omit h hg in
theorem word {w : Word} (hw : isPlain (.word w) = true) :
    Stays K (·.Starting g) (Parser.word w) (fun _ => True) fun _ s => s.Behind g (.word w) :=
  take (·.Behind g (.word w)) rfl fun _ hs => behind_after hs.toIn hw

/-- Behind a condition a statement starts. -/
theorem condition {w : Word}
    (hw : [Word.kwIf, .kwFor, .kwWhile, .kwSwitch, .kwCatch].contains w = true) :
    Stays K (·.Behind g (.word w)) (condition k) (InRegion K) fun _ s => s.Starting g :=
  of_situates ((Keeps.condition h.keeps hg (Keeps.opens_headed hw)).post fun _ _ hs => hs.starting)
    (Situates.condition h.situates)

theorem ifStatement :
    Stays K (·.Starting g) (ifStatement k) (InRegion K) fun _ s => s.Finished g := by
  refine place (Situates.ifStatement h.situates) (fun _ hs => hs.started) fun K s => ?_
  refine next (word rfl) fun _ => bind (condition h hg rfl) fun test => ?_
  refine bind (h.statement hg) fun consequent => ?_
  dsimp only
  refine ifTaken (·.Starting g) rfl (fun _ hs => starting_after_else hs.toIn) ?_ (pureBind (pure ?_ ?_))
  · have halternate : Stays K (·.Starting g) (some <$> k.statement) (InRegion K)
        fun _ s => s.Finished g := (h.statement hg).map (fun _ hx => .some hx) fun _ _ => id
    refine bind halternate fun alternate => pure ?_ fun _ => id
    exact fun halternate hconsequent htest hs =>
      Situates.inRegion_ifStatement hs htest hconsequent halternate
  · exact fun hconsequent htest hs => Situates.inRegion_ifStatement hs htest hconsequent .none
  · exact fun _ => id

theorem whileStatement :
    Stays K (·.Starting g) (whileStatement k) (InRegion K) fun _ s => s.Finished g := by
  refine place (Situates.whileStatement h.situates) (fun _ hs => hs.started) fun K s => ?_
  refine next (take (·.Behind g (.word .kwWhile)) rfl fun _ hs => behind_after_while hs.toCalm)
    fun _ => ?_
  refine bind (condition h hg rfl) fun test => bind (h.statement hg) fun body => ?_
  exact pure (fun hbody htest hs => Situates.inRegion_whileStatement hs htest hbody) fun _ => id

/-! ### Loops -/

omit h hg in
/-- Behind the head of a loop a statement starts. -/
theorem closeHead :
    Stays K (·.In (g.push .head)) (Parser.punctuator .rightParen) (fun _ => True)
      fun _ s => s.Starting g :=
  of_situates ((Keeps.shut (C := (· = .head)) rfl rfl).post fun _ _ hs => hs.starting)
    (Situates.punctuator _)

theorem forRest (init : Option (Shaped Node)) :
    Stays K (·.In (g.push .head)) (forRest k s init)
      (fun x => K.StartsAt s → InRegion K init → InRegion K x) fun _ s => s.Finished g := by
  have hsemicolon : Stays K (·.In (g.push .head)) (Parser.punctuator .semicolon) (fun _ => True)
      fun _ s => s.In (g.push .head) := take (·.In _) rfl fun _ hs => in_after_semicolon hs
  have hpart (stop : Punctuator) : Stays K (·.In (g.push .head)) (Parser.expressionUnless k stop)
      (InRegion K) fun _ s => s.In (g.push .head) :=
    of_situates (Keeps.expressionUnless h.keeps (hg.toSound.push _) stop)
      (Situates.expressionUnless h.situates stop)
  refine next hsemicolon fun _ => bind (hpart _) fun test => ?_
  refine next hsemicolon fun _ => bind (hpart _) fun step => ?_
  refine next closeHead fun _ => bind (h.statement hg) fun body => pure ?_ fun _ => id
  exact fun hbody hstep htest hs hinit => Situates.inRegion_forStatement hs hinit htest hstep hbody

theorem forInRest (declared : Shaped Node) :
    Stays K (·.Mid (g.push .head)) (forInRest k s declared)
      (fun x => K.StartsAt s → InRegion K declared → InRegion K x) fun _ s => s.Finished g := by
  refine next (take (·.In _) rfl fun _ hs => (behind_after hs.toIn rfl).toIn) fun _ => ?_
  refine bind (of_situates (Keeps.innerExpression h.keeps (hg.toSound.push .head))
    (Situates.innerExpression h.situates)) fun right => ?_
  refine next (closeHead.weaken (fun _ hs => hs.toIn) (fun _ => id) fun _ _ => id) fun _ => ?_
  refine bind (h.statement hg) fun body => pure ?_ fun _ => id
  exact fun hbody hright hs hdeclared => Situates.inRegion_loop hs
    (fun a b c => .forInStatement (some a) (some b) (some c)) (fun _ _ _ => rfl) hdeclared hright hbody

theorem forOfRest (isAwait : Bool) (declared : Shaped Node) :
    Stays K (·.Mid (g.push .head)) (forOfRest k s isAwait declared)
      (fun x => K.StartsAt s → InRegion K declared → InRegion K x) fun _ s => s.Finished g := by
  refine next (take (·.In _) rfl fun _ hs => (behind_after hs.toIn rfl).toIn) fun _ => ?_
  refine bind (of_situates (h.keeps.assignment (hg.toSound.push .head)) h.situates.assignment)
    fun right => ?_
  refine next (closeHead.weaken (fun _ hs => hs.toIn) (fun _ => id) fun _ _ => id) fun _ => ?_
  refine bind (h.statement hg) fun body => pure ?_ fun _ => id
  exact fun hbody hright hs hdeclared => Situates.inRegion_loop hs
    (fun a b c => .forOfStatement (some a) (some b) (some c) isAwait) (fun _ _ _ => rfl)
    hdeclared hright hbody

theorem loopDeclaration :
    Stays K (·.In (g.push .head)) (loopDeclaration k) (InRegion K)
      fun _ s => s.Mid (g.push .head) := by
  have hinner := hg.toSound.push .head
  have hkeeps : Keeps (·.In (g.push .head)) (Parser.loopDeclaration k)
      fun _ s => s.Mid (g.push .head) := by
    refine .next (.plain Keeps.declaresVariables_plain) fun _ => .bind .place fun _ => ?_
    exact .bind (.binding h.keeps hinner.toSound) fun _ => .pure fun _ => id
  exact of_situates hkeeps (Situates.loopDeclaration h.situates)

theorem forDeclaring (isAwait : Bool) :
    Stays K (·.In (g.push .head)) (forDeclaring k s isAwait)
      (fun x => K.StartsAt s → InRegion K x) fun _ s => s.Finished g where
  reads hs hp := by
    have hloop {rest : Shaped Node → Parser (Shaped Node)}
        (hrest : ∀ declared, Stays K (·.Mid (g.push .head)) (rest declared)
          (fun x => K.StartsAt s → InRegion K declared → InRegion K x) fun _ s => s.Finished g) :
        Stays K (·.In (g.push .head)) (Parser.loopDeclaration k >>= rest)
          (fun x => K.StartsAt s → InRegion K x) fun _ s => s.Finished g :=
      bind (loopDeclaration h hg) fun declared =>
        (hrest declared).mono fun _ hx hdeclared hs => hx hs hdeclared
    rcases run_forDeclaring_ok hp with ⟨isAwait, hp⟩ | hp | hp
    · exact (hloop fun declared => forOfRest h hg isAwait declared).reads hs hp
    · exact (hloop fun declared => forInRest h hg declared).reads hs hp
    · have hdeclared := of_situates (Keeps.declaredVariables h.keeps (hg.toSound.push .head))
        (Situates.declaredVariables (K := K) h.situates)
      have hall : Stays K (·.In (g.push .head)) _ (fun x => K.StartsAt s → InRegion K x)
          fun _ s => s.Finished g :=
        bind hdeclared fun declared => (forRest h hg (some declared)).weaken (fun _ hs => hs.toIn)
          (fun _ hx hdeclared hs => hx hs (.some hdeclared)) fun _ _ => id
      exact hall.reads hs hp

theorem forStatement :
    Stays K (·.Starting g) (forStatement k) (InRegion K) fun _ s => s.Finished g := by
  refine place (Situates.forStatement h.situates) (fun _ hs => hs.started) fun K s => ?_
  refine next (word rfl) fun _ => ?_
  refine mark (fun s => s.In g ∧ s.afterHeadWord = true) rfl ?_ ?_ fun isAwait => ?_
  · intro s hs
    have hprevious : (s.after (.word .kwAwait)).beforePrevious = some (.word .kwFor) := hs.previous
    have hbehind := behind_after (t := .word .kwAwait) hs.toIn rfl
    exact ⟨hbehind.toIn, by simp [Terminators.afterHeadWord, hbehind.previous, hprevious]⟩
  · exact fun s hs => ⟨hs.toIn, by simp [Terminators.afterHeadWord, hs.previous]⟩
  have hopen : ∀ s : Terminators, s.In g ∧ s.afterHeadWord = true →
      (s.after (.punctuator .leftParen)).In (g.push .head) := by
    intro s hs
    obtain ⟨_, rfl, -, hin⟩ := opens_head (fun _ => id) s hs
    exact hin
  refine next (take (·.In (g.push .head)) rfl hopen) fun _ => look fun t => ite (fun _ => ?_) fun _ => ?_
  · exact forDeclaring h hg isAwait
  · refine bind (of_situates (Keeps.expressionUnless h.keeps (hg.toSound.push .head) _)
      (Situates.expressionUnless h.situates _)) fun init => ?_
    exact (forRest h hg init).mono fun _ hx hinit hs => hx hs hinit

/-! ## Statements and items -/

/-- A terminator where a statement starts is read as an empty one. No other statement is read from a
terminator alone. -/
theorem statement :
    Stays K (·.Starting g) (statement k) (InRegion K) fun _ s => s.Finished g := by
  have hin : ∀ s : Terminators, s.Starting g → s.In g := fun _ hs => hs.toIn
  have hplain {K : Region} {s : Option Position} {p : Parser (Shaped Node)}
      (hkeeps : Keeps (·.In g) p fun _ s => s.Finished g)
      (hsituates : Situates K false true p (InRegion K)) :
      Stays K (·.Starting g) p (fun x => K.StartsAt s → InRegion K x) fun _ s => s.Finished g :=
    (of_situates (hkeeps.pre hin) hsituates).mono fun _ hx _ => hx
  have hk := h.keeps
  have hs := h.situates
  refine place (Situates.statement hs) (fun _ hs => hs.started) fun K s => look fun t => ?_
  refine lookFurther fun u => ite (fun _ => ?_) fun _ => ?_
  · exact hplain (Keeps.functionDeclaration_finished hk hg _) (Situates.functionDeclaration hs _)
  split
  · exact hplain (Keeps.classDeclaration_finished hk hg _) (Situates.classDeclaration hs _)
  · refine next (take (·.Finished g) rfl fun _ hs => finished_after_terminator hs.toIn) fun _ => ?_
    exact pure (fun hs => .ok (.node hs .nil)) fun _ => id
  · refine (of_situates ?_ (Situates.block hs)).mono fun _ hx _ => hx
    exact (Keeps.block hk (Terminators.Starting.opens_block hg) hg.toSound).post fun _ _ hs =>
      hs.finished (by rintro _ rfl; rfl)
  · exact hplain (Keeps.variableStatement hk hg) (Situates.variableStatement hs)
  · exact hplain (Keeps.variableStatement hk hg) (Situates.variableStatement hs)
  · exact hplain (Keeps.variableStatement hk hg) (Situates.variableStatement hs)
  · exact (ifStatement h hg).mono fun _ hx _ => hx
  · exact (forStatement h hg).mono fun _ hx _ => hx
  · exact (whileStatement h hg).mono fun _ hx _ => hx
  · exact hplain (Keeps.doStatement hk hg) (Situates.doStatement hs)
  · exact hplain (Keeps.returnStatement hk hg) (Situates.returnStatement hs)
  · exact hplain (Keeps.throwStatement hk hg) (Situates.throwStatement hs)
  · exact hplain (Keeps.wordStatement rfl _) (Situates.wordStatement _ rfl)
  · exact hplain (Keeps.wordStatement rfl _) (Situates.wordStatement _ rfl)
  · exact hplain (Keeps.tryStatement hk hg) (Situates.tryStatement hs)
  · exact hplain (Keeps.switchStatement hk hg) (Situates.switchStatement hs)
  · exact hplain (Keeps.expressionStatement hk hg) (Situates.expressionStatement hs)

theorem item : Stays K (·.Starting g) (item k) (InRegion K)
    fun x s => s.Finished (g.labelled (g.label || opensLabel x)) := by
  have hin : ∀ s : Terminators, s.Starting g → s.In g := fun _ hs => hs.toIn
  have hstatement : Stays K (·.Starting g) (Parser.statement k) (InRegion K)
      fun x s => s.Finished (g.labelled (g.label || opensLabel x)) :=
    (statement h hg).weaken (fun _ => id) (fun _ => id) fun _ _ hs => hs.labelled _
  refine look fun t => ?_
  split
  · exact of_situates ((Keeps.exportDeclaration h.keeps hg).pre hin)
      (Situates.exportDeclaration h.situates)
  · refine lookFurther fun u => ite (fun _ => hstatement) fun _ => ?_
    exact of_situates (Keeps.importDeclaration.weaken hin fun _ _ hs => hs.labelled _)
      Situates.importDeclaration
  · exact hstatement

/-- Items start one behind the other, whatever labels some of them leave open. -/
theorem manyItems (hquiet : g.Quiet) (n : Nat) (label : Bool) :
    Stays K (·.Starting (g.labelled label)) (Parser.manyUntil (Parser.item k) Option.isNone n)
      (InRegion K) fun _ _ => True := by
  induction n generalizing label with
  | zero => exact ⟨fun _ hp => by cases hp⟩
  | succ n ih =>
    refine look fun t => ite (fun _ => pure .nil fun _ _ => trivial) fun _ => ?_
    have hitem : Stays K (·.Starting (g.labelled label)) (Parser.item k) (InRegion K)
        fun x s => s.Starting (g.labelled (label || opensLabel x)) :=
      (item h (hg.labelled label)).weaken (fun _ => id) (fun _ => id) fun _ _ hs =>
        hs.starting hquiet
    refine bind hitem fun x => bind (ih (label || opensLabel x)) fun xs => ?_
    exact pure (fun hxs hx => .cons hx hxs) fun _ _ => trivial

end Parser.Stays

/-- The parsers for what lies deeper build in the region of the tokens that are issued. -/
theorem Deeper.stays_within (n : Nat) : (Deeper.within n).Stays := by
  induction n with
  | zero => exact ⟨keeps_within 0, situates_within 0, fun _ => ⟨fun _ hp => by cases hp⟩⟩
  | succ n ih => exact ⟨keeps_within _, situates_within _, fun hf => Parser.Stays.statement ih hf⟩

theorem Parser.Stays.moduleItems {K : Region} (n : Nat) :
    Stays K (·.Starting .outermost) (moduleItems (.within n)) (InRegion K) fun _ _ => True :=
  left fun fuel => manyItems (Deeper.stays_within n) Frame.unannounced_outermost
    Frame.quiet_outermost (fuel + 1) false

/-! ## Tokens of a text -/

namespace Terminators

variable {K : Region} {s : Terminators} {last : Option Lexeme} {ls : List Lexeme}
  {ts : List Token}

/-- The tokens of lexemes start where these do, but for a terminator behind them all. -/
theorem issues_of_tokens (h : s.tokens last ls = ⟨ts, none⟩) (hs : s.AnnouncesBodies)
    (hls : ∀ l ∈ ls, K l.start) (hordered : ts.Pairwise fun t u => t.start ≤ u.start) :
    s.Issues K ts := by
  induction ls generalizing s last ts with
  | nil =>
    cases last with
    | none =>
      cases h
      exact .nil
    | some l =>
      obtain ⟨-, rfl⟩ := finish_eq_ok.1 h
      split
      case isTrue hend => exact .ended hend rfl
      case isFalse => exact .nil
  | cons l ls ih =>
    obtain ⟨hl, hls⟩ := List.forall_mem_cons.1 hls
    obtain ⟨t, next, us, hread, hus, rfl⟩ := tokens_cons_eq_ok.1 h
    have hmore {s : Terminators} (hs : s.AnnouncesBodies)
        (hread : s.read l ls.head? = .ok (t, next))
        (hordered : (tokenOf t l :: us).Pairwise fun t u => t.start ≤ u.start) :
        s.Issues K (tokenOf t l :: us) := by
      obtain ⟨hfirst, hordered⟩ := List.pairwise_cons.1 hordered
      obtain ⟨rfl, hnext⟩ := read_after hs hread
      exact .cons hl hfirst (ih hus hnext hls hordered)
    cases hneeded : s.needsTerminator l with
    | false =>
      simp only [hneeded, Bool.false_eq_true, if_false, List.nil_append] at hread hordered ⊢
      exact hmore hs hread hordered
    | true =>
      simp only [hneeded, if_true, List.singleton_append] at hread hordered ⊢
      obtain ⟨hfirst, hordered⟩ := List.pairwise_cons.1 hordered
      exact .cons hl hfirst (hmore (s := s.remember .terminator none) hs hread hordered)

end Terminators

/-! ## Modules -/

namespace Node

/-- In a region every node has a place, and none comes before the node that holds it. -/
theorem InRegion.walk {K : Region} {n : Node} (h : n.InRegion K) : ∀ m ∈ n.walk,
    (∃ p, m.loc = some p ∧ K p) ∧
      ∀ c ∈ m.children, ∃ p q, m.loc = some p ∧ c.loc = some q ∧ p ≤ q := by
  induction h with
  | @mk K p form hp hparts ih =>
    intro m hm
    rw [walk_eq_cons] at hm
    rcases List.mem_cons.1 hm with rfl | hm
    · refine ⟨⟨p, rfl, hp⟩, fun c hc => ?_⟩
      cases hparts c hc with
      | @mk _ q _ hq => exact ⟨p, q, rfl, rfl, hq.2 p rfl⟩
    · obtain ⟨c, hc, hm⟩ := List.mem_flatMap.1 hm
      obtain ⟨⟨q, hloc, hq⟩, hchildren⟩ := ih c hc m hm
      exact ⟨⟨q, hloc, hq.1⟩, hchildren⟩

/-- Every node of a module is placed. The module is placed at the start of the text, everything in it
at a lexeme, and nothing before the node that holds it. -/
theorem ofSource_places {source : Text} {program : Node} (h : ofSource source = .ok program) :
    program.loc = some ⟨1, 1⟩ ∧ ∃ ls, Lexeme.scan source = .ok ls ∧
      (∀ c ∈ program.children, ∀ n ∈ c.walk, ∃ l ∈ ls, n.loc = some l.start) ∧
      ∀ n ∈ program.walk, ∀ c ∈ n.children, ∃ p q, n.loc = some p ∧ c.loc = some q ∧ p ≤ q := by
  obtain ⟨ls, ts, items, body, hscan, hts, hrun, hbody, rfl⟩ := ofSource_eq_ok.1 h
  let K : Region := fun q => ∃ l ∈ ls, q = l.start
  have hinOrder := Terminators.inOrder_of_tokens hts (Lexeme.tiling_of_scan hscan)
    (Lexeme.isAt_of_scan hscan) nofun
  have hordered : ts.Pairwise fun t u => t.start ≤ u.start :=
    hinOrder.ordered.imp_of_mem fun ht hu htu =>
      (hinOrder.isAt _ ht).le (hinOrder.isAt _ hu) htu.le
  have hissues : ({} : Terminators).Issues K ts :=
    Terminators.issues_of_tokens hts nofun (fun l hl => ⟨l, hl, rfl⟩) hordered
  obtain ⟨read, -, hread, -, -, hin⟩ :=
    (Parser.Stays.moduleItems _).reads Terminators.starting_outermost hrun
  rw [List.append_nil] at hread
  subst hread
  have hparts : Sited.InRegion K body := Sited.InRegion.inOrder (hin hissues) body hbody
  have hchildren : ∀ c ∈ (Form.program body).parts, Node.InRegion K c := by
    intro c hc
    refine hparts c ?_
    simpa [Form.parts, Form.slots, Slot.parts] using hc
  have hstart : ∀ q, K q → Position.start ≤ q := by
    rintro q ⟨l, hl, rfl⟩
    exact (Position.isAt_advance [] source).le (Lexeme.isAt_of_scan hscan l hl).1 (Nat.zero_le _)
  have hroot : Node.InRegion (fun _ => True) (.mk (some .start) (.program body)) := by
    refine .mk trivial fun c hc => (hchildren c hc).mono fun q hq => ⟨trivial, ?_⟩
    rintro _ ⟨⟩
    exact hstart q hq
  refine ⟨rfl, ls, hscan, fun c hc n hn => ?_, fun n hn => (hroot.walk n hn).2⟩
  obtain ⟨⟨_, hloc, l, hl, rfl⟩, -⟩ := (hchildren c hc).walk n hn
  exact ⟨l, hl, hloc⟩

/-- The parameters of an arrow function are placed where they stood in parentheses, and behind each of
the two statements a terminator is inserted. -/
theorem places_arrow : ∃ program ls,
    ofSource "([a, {b}]) => a\nif (c) f()" = .ok program ∧
      Lexeme.scan "([a, {b}]) => a\nif (c) f()" = .ok ls ∧ program.loc = some ⟨1, 1⟩ ∧
      program.children.map loc = [some ⟨1, 1⟩, some ⟨2, 1⟩] ∧
      (∀ c ∈ program.children, ∀ n ∈ c.walk, ∃ l ∈ ls, n.loc = some l.start) ∧
      ∀ n ∈ program.walk, ∀ c ∈ n.children, ∃ p q, n.loc = some p ∧ c.loc = some q ∧ p ≤ q := by
  have htest : parsesTo "([a, {b}]) => a\nif (c) f()"
      (fun program => program.children.map loc = [some ⟨1, 1⟩, some ⟨2, 1⟩]) = true := by
    decide +kernel
  obtain ⟨program, -, hprogram, -, hlocs⟩ := exists_of_parsesTo htest
  obtain ⟨hstart, ls, hscan, hplaced, hordered⟩ := ofSource_places hprogram
  exact ⟨program, ls, hprogram, hscan, hstart, of_decide_eq_true hlocs, hplaced, hordered⟩

end Node

end ModuleLowering
