import ModuleLowering.Proofs.Joining
import ModuleLowering.Proofs.Rejecting
import ModuleLowering.Proofs.StatementPlaces

/-!
# Places that were read

The names and specifiers of imports and exports are placed at tokens that were read with them. For
each parser it is said which places its answer has: they were known before, or they are those of
tokens that the parser has read. Rules for the parts of a parser give the fact for the whole.
-/

set_option autoImplicit false

namespace ModuleLowering

open Collecting (namePart? importedPart? exportedPart?)
open Shaped (Builds)

namespace Parser

/-- A place is that of a token with a text of its own. -/
def PlacedAt (ts : List Token) (place : Option Position) : Prop :=
  ∃ t ∈ ts, t.terminal ≠ .terminator ∧ place = some t.start

theorem PlacedAt.mono {ts us : List Token} {place : Option Position} (h : PlacedAt ts place)
    (hts : ∀ t ∈ ts, t ∈ us) : PlacedAt us place := by
  obtain ⟨t, ht, htext, hplace⟩ := h
  exact ⟨t, hts t ht, htext, hplace⟩

/-- A list of tokens starts with one that has a text of its own. -/
def OpensWithText (ts : List Token) : Prop := ∃ t us, ts = t :: us ∧ t.terminal ≠ .terminator

/-- The places in an answer are known before or those of tokens that the parser has read. Where
`opens` holds, the first of these tokens has a text of its own. -/
structure Locates {α : Type} (known : Option Position → Prop) (opens : Bool) (p : Parser α)
    (places : α → Option Position → Prop) : Prop where
  reads : ∀ {ts a rest}, p.run ts = .ok (a, rest) → ∃ read, ts = read ++ rest ∧
    (opens = true → OpensWithText read) ∧ ∀ l, places a l → known l ∨ PlacedAt read l

namespace Locates

variable {α β : Type} {known : Option Position → Prop} {opens opens' : Bool} {p q : Parser α}
  {f : α → Parser β} {places places' : α → Option Position → Prop}
  {placed : β → Option Position → Prop}

theorem pure {a : α} (h : ∀ l, places a l → known l) :
    Locates known false (Pure.pure a) places where
  reads {ts b rest} hp := by
    obtain ⟨rfl, rfl⟩ := run_pure_ok.1 hp
    exact ⟨[], rfl, nofun, fun l hl => .inl (h l hl)⟩

theorem fail : Locates known opens fail places where
  reads hp := by cases hp

/-- What comes behind may use the places in the answer of what comes first. -/
theorem bind (h : Locates known opens p places)
    (hf : ∀ a, Locates (fun l => known l ∨ places a l) false (f a) placed) :
    Locates known opens (p >>= f) placed where
  reads {ts b rest} hp := by
    obtain ⟨a, mid, ha, hb⟩ := run_bind_ok.1 hp
    obtain ⟨read, rfl, hopens, hread⟩ := h.reads ha
    obtain ⟨read', rfl, -, hread'⟩ := (hf a).reads hb
    refine ⟨read ++ read', by rw [List.append_assoc], fun ho => ?_, fun l hl => ?_⟩
    · obtain ⟨t, us, rfl, ht⟩ := hopens ho
      exact ⟨t, us ++ read', rfl, ht⟩
    · have hfirst : PlacedAt read l → PlacedAt (read ++ read') l := fun h =>
        h.mono fun _ => List.mem_append_left read'
      rcases hread' l hl with (hknown | hplaces) | hplaced
      · exact .inl hknown
      · exact (hread l hplaces).imp_right hfirst
      · exact .inr (hplaced.mono fun _ => List.mem_append_right read)

theorem knows {known' : Option Position → Prop} (h : Locates known opens p places)
    (hknown : ∀ l, known l → known' l) : Locates known' opens p places where
  reads hp := by
    obtain ⟨read, hts, hopens, hread⟩ := h.reads hp
    exact ⟨read, hts, hopens, fun l hl => (hread l hl).imp_left (hknown l)⟩

/-- What comes first has no places of its own. -/
theorem next (h : Locates known opens p fun _ _ => False)
    (hf : ∀ a, Locates known false (f a) placed) : Locates known opens (p >>= f) placed :=
  bind h fun a => (hf a).knows fun _ => .inl

theorem weaken (h : Locates known opens p places) (hopens : opens' = true → opens = true)
    (hplaces : ∀ a l, places' a l → known l ∨ places a l) : Locates known opens' p places' where
  reads hp := by
    obtain ⟨read, hts, ho, hread⟩ := h.reads hp
    refine ⟨read, hts, fun h' => ho (hopens h'), fun l hl => ?_⟩
    rcases hplaces _ l hl with hknown | hl
    · exact .inl hknown
    · exact hread l hl

theorem loose (h : Locates known opens p places) : Locates known false p places :=
  h.weaken nofun fun _ _ => .inr

theorem ite {c : Prop} [Decidable c] (h : c → Locates known opens p places)
    (h' : ¬c → Locates known opens q places) :
    Locates known opens (if c then p else q) places := by
  split
  · exact h ‹_›
  · exact h' ‹_›

/-- The place of the first token may be used where that token is read. -/
theorem place {f : Option Position → Parser β}
    (h : ∀ s, Locates (fun l => known l ∨ l = s) true (f s) placed) :
    Locates known true (place >>= f) placed where
  reads {ts b rest} hp := by
    have hrest : (f (ts.head?.map Token.start)).run ts = .ok (b, rest) := hp
    obtain ⟨read, rfl, hopens, hread⟩ := (h _).reads hrest
    obtain ⟨t, us, rfl, ht⟩ := hopens rfl
    refine ⟨t :: us, rfl, fun _ => ⟨t, us, rfl, ht⟩, fun l hl => ?_⟩
    rcases hread l hl with (hknown | rfl) | hread
    · exact .inl hknown
    · exact .inr ⟨t, List.mem_cons_self, ht, rfl⟩
    · exact .inr hread

/-- The place of the first token need not be used. -/
theorem unplaced {f : Option Position → Parser β}
    (h : ∀ s, Locates known opens (f s) placed) :
    Locates known opens (Parser.place >>= f) placed where
  reads hp := (h _).reads hp

theorem look {f : Option Terminal → Parser β} (h : ∀ t, Locates known opens (f t) placed) :
    Locates known opens (look >>= f) placed where
  reads hp := (h _).reads hp

theorem lookFurther {f : Option Terminal → Parser β}
    (h : ∀ t, Locates known opens (f t) placed) :
    Locates known opens (lookFurther >>= f) placed where
  reads hp := (h _).reads hp

theorem left {f : Nat → Parser β} (h : ∀ n, Locates known opens (f n) placed) :
    Locates known opens (left >>= f) placed where
  reads hp := (h _).reads hp

theorem takeIf {test : Terminal → Bool} (h : test .terminator = false) :
    Locates known true (takeIf test) fun t l => l = some t.start where
  reads {ts t rest} hp := by
    obtain ⟨rfl, ht⟩ := run_takeIf_ok.1 hp
    have htext : t.terminal ≠ .terminator := by
      intro hterminal
      rw [hterminal, h] at ht
      cases ht
    refine ⟨[t], rfl, fun _ => ⟨t, [], rfl, htext⟩, fun l hl => .inr ?_⟩
    exact ⟨t, List.mem_singleton_self t, htext, hl⟩

/-- A parser that leads on from some state reads tokens from the front of the list. -/
theorem of_keeps {P : Terminators → Prop} {Q : α → Terminators → Prop} {s : Terminators}
    (h : Keeps P p Q) (hs : P s) : Locates known false p fun _ _ => False where
  reads hp := by
    obtain ⟨read, -, hts, -⟩ := h.leads hs hp
    exact ⟨read, hts, nofun, nofun⟩

theorem map {g : α → β} (h : Locates known opens p places)
    (hg : ∀ a l, placed (g a) l → known l ∨ places a l) :
    Locates known opens (g <$> p) placed where
  reads hp := by
    obtain ⟨a, ha, rfl⟩ := run_map_ok.1 hp
    exact (h.weaken id hg).reads ha

theorem pureBind {a : α} (h : Locates known opens (f a) placed) :
    Locates known opens (Pure.pure a >>= f) placed := by
  rwa [pure_bind]

/-- A token whose place does not matter. -/
theorem skip (test : Terminal → Bool) :
    Locates known false (Functor.discard (Parser.takeIf test)) fun _ _ => False where
  reads {ts u rest} hp := by
    obtain ⟨t, ht, -⟩ := run_map_ok.1 hp
    obtain ⟨rfl, -⟩ := run_takeIf_ok.1 ht
    exact ⟨[t], rfl, nofun, nofun⟩

/-- A terminal with a text of its own. -/
theorem take {t : Terminal} (h : t ≠ .terminator) :
    Locates known true (Functor.discard (Parser.take t)) fun _ _ => False :=
  (takeIf (decide_eq_false fun h' => h h'.symm)).map nofun

theorem taken (t : Terminal) : Locates known false (Parser.taken t) fun _ _ => False :=
  look fun _ => ite (fun _ => next (skip _) fun _ => pure nofun) fun _ => pure nofun

/-- A part that is read behind a terminal if that comes. -/
theorem perhaps {t : Terminal} {f : Option α → Parser β} (h : Locates known opens p places)
    (hf : ∀ o, Locates (fun l => known l ∨ ∃ a ∈ o, places a l) false (f o) placed) :
    Locates known false
      (Parser.taken t >>= fun b => if b = true then some <$> p >>= f else Pure.pure none >>= f)
      placed := by
  have hsome : Locates known opens (some <$> p) fun o l => ∃ a ∈ o, places a l :=
    h.map fun a l ⟨b, hb, hl⟩ => .inr (Option.some.inj hb ▸ hl)
  have hnone : Locates known false (Pure.pure none : Parser (Option α))
      fun o l => ∃ a ∈ o, places a l := pure fun l ⟨a, ha, _⟩ => nomatch ha
  exact next (taken t) fun b => ite (fun _ => (bind hsome hf).loose) fun _ => bind hnone hf

/-! ### Lists -/

/-- The places in the answers of a list. -/
def Each (places : α → Option Position → Prop) (as : List α) (l : Option Position) : Prop :=
  ∃ a ∈ as, places a l

theorem each_nil (l : Option Position) (h : Each places [] l) : known l := by
  obtain ⟨a, ha, -⟩ := h
  cases ha

theorem each_cons {a : α} {as : List α} (l : Option Position) (h : Each places (a :: as) l) :
    (known l ∨ places a l) ∨ Each places as l := by
  obtain ⟨b, hb, hl⟩ := h
  rcases List.mem_cons.1 hb with rfl | hb
  · exact .inl (.inr hl)
  · exact .inr ⟨b, hb, hl⟩

/-- An answer before those of a list. -/
theorem cons {more : Parser (List α)} (h : Locates known opens p places)
    (hmore : ∀ {known}, Locates known false more (Each places)) :
    Locates known opens (p >>= fun a => more >>= fun as => Pure.pure (a :: as)) (Each places) :=
  bind h fun _ => bind hmore fun _ => pure each_cons

theorem moreItems (h : ∀ {known}, Locates known opens p places) (close : Terminal) (n : Nat) :
    Locates known false (Parser.moreItems p close n) (Each places) := by
  induction n generalizing known with
  | zero => exact fail
  | succ n ih =>
    refine next (taken close) fun _ => ite (fun _ => pure each_nil) fun _ => ?_
    refine next (skip _) fun _ => next (taken close) fun _ => ?_
    exact ite (fun _ => pure each_nil) fun _ => (cons h ih).loose

theorem items (h : ∀ {known}, Locates known opens p places) (close : Terminal) :
    Locates known false (Parser.items p close) (Each places) := by
  refine next (taken close) fun _ => ite (fun _ => pure each_nil) fun _ => ?_
  exact (bind h fun _ => left fun _ => bind (moreItems h close _) fun _ => pure each_cons).loose

theorem moreParts (h : ∀ {known}, Locates known opens p places) (n : Nat) :
    Locates known false (Parser.moreParts p n) (Each places) := by
  induction n generalizing known with
  | zero => exact fail
  | succ n ih =>
    refine next (taken _) fun _ => ite (fun _ => ?_) fun _ => pure each_nil
    exact (cons h ih).loose

theorem parts (h : ∀ {known}, Locates known opens p places) :
    Locates known opens (Parser.parts p) (Each places) :=
  bind h fun _ => left fun _ => bind (moreParts h _) fun _ => pure each_cons

/-! ### What is built -/

/-- The places in what is built. -/
def Built (places : α → Option Position → Prop) (x : Shaped α) (l : Option Position) : Prop :=
  ∃ a, x = .ok a ∧ places a l

/-- What is built has the places that were read for it. -/
theorem builds_built (places : α → Option Position → Prop) (x : Shaped α) :
    Builds x fun a => ∀ l, places a l → Built places x l := fun a ha _ hl => ⟨a, ha, hl⟩

theorem built {x : Shaped α} (h : Builds x fun a => ∀ l, places a l → known l) :
    Locates known false (Pure.pure x) (Built places) := by
  refine pure ?_
  rintro l ⟨a, ha, hl⟩
  exact h a ha l hl

/-- A list that is built in order has the places of its parts. -/
theorem each_of_inOrder (places : Node → Option Position → Prop) (xs : List (Shaped Node)) :
    Builds (inOrder xs) fun ns => ∀ l, Each places ns l → Each (Built places) xs l := by
  intro ns hns l hl
  obtain ⟨n, hn, hl⟩ := hl
  rw [inOrder_eq_ok.1 hns]
  exact ⟨.ok n, List.mem_map_of_mem hn, n, rfl, hl⟩

/-! ### Names across modules -/

/-- The place of a node. -/
def Own (n : Node) (l : Option Position) : Prop := l = n.loc

/-- The place of a part that is there. -/
def OwnPart (part : Option Node) (l : Option Position) : Prop := ∃ n ∈ part, Own n l

/-- The places of a specifier and of the names that it exports. -/
def Specified (n : Node) (l : Option Position) : Prop :=
  Own n l ∨ OwnPart (namePart? n) l ∨ OwnPart (exportedPart? n) l

theorem identifier : Locates known true Parser.identifier Own := by
  refine bind (takeIf rfl) fun t => pure ?_
  rintro l rfl
  exact .inr rfl

theorem stringLiteral : Locates known true Parser.stringLiteral (Built Own) := by
  refine bind (takeIf rfl) fun t => pure ?_
  rintro l ⟨n, hn, rfl⟩
  right
  unfold stringOf at hn
  split at hn
  case h_1 => cases hn; rfl
  case h_2 => cases hn

theorem exportName : Locates known true Parser.exportName (Built Own) := by
  refine place fun s => look fun t => ?_
  split
  · exact stringLiteral
  · refine next (take nofun) fun _ => built (.pure ?_)
    rintro l rfl
    exact .inr rfl
  · refine bind identifier fun n => built (.pure ?_)
    intro l hl
    exact .inr hl

theorem importSpecifier :
    Locates known true Parser.importSpecifier (Built fun n => OwnPart (importedPart? n)) := by
  refine place fun s => bind exportName fun x => perhaps identifier fun renamed => built ?_
  refine .bind (builds_built Own x) fun imported himported => ?_
  have hplaces (name : Node) (l : Option Position)
      (hl : OwnPart (importedPart? (.mk s (.importSpecifier (some name) (some imported)))) l) :
      Built Own x l := by
    obtain ⟨n, hn, hl⟩ := hl
    cases hn
    exact himported l hl
  cases renamed with
  | none => exact .behind fun name => .pure fun l hl => .inl (.inr (hplaces name l hl))
  | some name => exact .pure fun l hl => .inl (.inr (hplaces name l hl))

theorem specified_exportSpecifier {s l : Option Position} {name exported : Node}
    (h : Specified (.mk s (.exportSpecifier (some name) (some exported))) l) :
    l = s ∨ Own name l ∨ Own exported l := by
  rcases h with hs | ⟨n, hn, hl⟩ | ⟨n, hn, hl⟩
  · exact .inl hs
  · cases hn
    exact .inr (.inl hl)
  · cases hn
    exact .inr (.inr hl)

theorem exportSpecifier : Locates known true Parser.exportSpecifier (Built Specified) := by
  refine place fun s => bind exportName fun x => perhaps exportName fun renamed => built ?_
  refine .bind (builds_built Own x) fun name hname => ?_
  cases renamed with
  | none =>
    refine .pure fun l hl => ?_
    rcases specified_exportSpecifier hl with hs | hl | hl
    · exact .inl (.inl (.inr hs))
    · exact .inl (.inr (hname l hl))
    · exact .inl (.inr (hname l hl))
  | some y =>
    refine .bind (builds_built Own y) fun exported hexported => .pure fun l hl => ?_
    rcases specified_exportSpecifier hl with hs | hl | hl
    · exact .inl (.inl (.inr hs))
    · exact .inl (.inr (hname l hl))
    · exact .inr ⟨y, rfl, hexported l hl⟩

/-! ### Imports -/

variable {runtimeModule : Bool} {s l : Option Position} {f : UnsupportedForm}

/-- The places that may be told of a statement. -/
def Rejected (runtimeModule : Bool) (s : Node) (l : Option Position) : Prop :=
  ∃ f, s.Unsupported runtimeModule f l

/-- What is told of a name that is no identifier is its own place. -/
theorem ownPart_of_notIdentifier {role : NameRole} {part : Option Node}
    (h : Node.NotIdentifier role part f l) : OwnPart part l := by
  obtain ⟨n, hn, -, -, hl⟩ := h
  exact ⟨n, hn, hl⟩

/-- The places of the names that the specifiers of an import ask for. -/
def Asked : List Node → Option Position → Prop := Each fun n => OwnPart (importedPart? n)

theorem namespaceImport :
    Locates known true Parser.namespaceImport fun n => OwnPart (importedPart? n) := by
  refine place fun s => next (take nofun) fun _ => next (skip _) fun _ => ?_
  refine bind identifier.loose fun name => pure ?_
  rintro l ⟨n, hn, hl⟩
  cases hn

theorem importedNames : Locates known false Parser.importedNames (Built Asked) := by
  refine look fun t => ite (fun _ => ?_) fun _ => next (skip _) fun _ => ?_
  · refine bind namespaceImport.loose fun n => built (.pure ?_)
    rintro l ⟨m, hm, hl⟩
    rw [List.mem_singleton.1 hm] at hl
    exact .inr hl
  · refine bind (items importSpecifier _) fun xs => built ?_
    exact (each_of_inOrder _ xs).mono fun ns h l hl => .inr (h l hl)

theorem importClause : Locates known false Parser.importClause (Built Asked) := by
  refine unplaced fun s => look fun t => ite (fun _ => ?_) fun _ => importedNames
  refine bind identifier.loose fun name => next (taken _) fun _ => ite (fun _ => ?_) fun _ => ?_
  · refine bind importedNames fun x => built (.map (builds_built Asked x) fun ns h l hl => ?_)
    obtain ⟨m, hm, hl⟩ := hl
    rcases List.mem_cons.1 hm with rfl | hm
    · obtain ⟨n, hn, -⟩ := hl
      cases hn
    · exact .inr (h l ⟨m, hm, hl⟩)
  · refine built (.pure ?_)
    rintro l ⟨m, hm, n, hn, -⟩
    rw [List.mem_singleton.1 hm] at hn
    cases hn

theorem importDeclaration :
    Locates known true Parser.importDeclaration (Built (Rejected runtimeModule)) := by
  refine place fun s => next (take nofun) fun _ => look fun t => ite (fun _ => ?_) fun _ => ?_
  · refine bind stringLiteral.loose fun x => next (skip _) fun _ => built ?_
    refine .behind fun source => .pure ?_
    rintro l ⟨f, -, n, hn, -⟩
    cases hn
  · refine bind importClause fun x => next (skip _) fun _ => bind stringLiteral.loose fun y => ?_
    refine next (skip _) fun _ => built (.bind (builds_built Asked x) fun specifiers h => ?_)
    refine .behind fun source => .pure ?_
    rintro l ⟨f, -, n, hn, hl⟩
    exact .inl (.inr (h l ⟨n, hn, ownPart_of_notIdentifier hl⟩))

/-! ### Exports -/

theorem specified_of_rejected {specifiers : List Node} {source : Option Node}
    (h : Rejected runtimeModule (.mk s (.exportNamedDeclaration none specifiers source)) l) :
    Each Specified specifiers l := by
  obtain ⟨f, h⟩ := h
  cases source with
  | none =>
    obtain ⟨n, hn, hname | hexported | ⟨-, -, hl⟩⟩ := h
    · exact ⟨n, hn, .inr (.inl (ownPart_of_notIdentifier hname))⟩
    · exact ⟨n, hn, .inr (.inr (ownPart_of_notIdentifier hexported))⟩
    · exact ⟨n, hn, .inl hl⟩
  | some source =>
    obtain ⟨n, hn, hname | hexported⟩ := h
    · exact ⟨n, hn, .inr (.inl (ownPart_of_notIdentifier hname))⟩
    · exact ⟨n, hn, .inr (.inr (ownPart_of_notIdentifier hexported))⟩

theorem namedExports :
    Locates known false (Parser.namedExports s) (Built (Rejected runtimeModule)) := by
  refine next (skip _) fun _ => bind (items exportSpecifier _) fun xs => ?_
  refine perhaps stringLiteral fun y => next (skip _) fun _ => built ?_
  refine .bind (each_of_inOrder Specified xs) fun specifiers h => .behind fun source => .pure ?_
  intro l hl
  exact .inl (.inr (h l (specified_of_rejected hl)))

theorem wholeExport :
    Locates known false (Parser.wholeExport s) (Built (Rejected runtimeModule)) := by
  refine next (skip _) fun _ => perhaps exportName fun y => next (skip _) fun _ => ?_
  refine bind stringLiteral.loose fun x => next (skip _) fun _ => built (.behind fun source => ?_)
  have hname : Builds (y.mapM id) fun exported =>
      exported.isSome = y.isSome ∧ ∀ n ∈ exported, ∀ l, Own n l → ∃ x ∈ y, Built Own x l :=
    .optionMapM fun x hx n hn l hl => ⟨x, hx, n, hn, hl⟩
  refine .bind hname fun exported h => .pure ?_
  rintro l ⟨f, n, hn, -, -, hl⟩
  exact .inl (.inr (h.2 n hn l hl))

/-! ### Declarations -/

variable {n : Nat}

/-- Nothing is open before the first token. -/
theorem in_outermost : ({} : Terminators).In Frame.outermost := ⟨rfl, rfl, rfl, rfl, nofun⟩

/-- No name and no pattern starts with a terminator. -/
theorem refuses_binding {t : Token} (h : t.terminal = .terminator) :
    Refuses t (Parser.binding (.within n)) := by
  refine .look ?_
  rw [h]
  exact .bind (.bind (.takeIf (by rw [h]; rfl)))

theorem binding : Locates known true (Parser.binding (.within n)) fun _ _ => False where
  reads {ts x rest} hp := by
    have hkeeps := Keeps.binding (Deeper.keeps_within n) Frame.unannounced_outermost.toSound
    obtain ⟨read, -, rfl, -⟩ := hkeeps.leads in_outermost hp
    have htakes := (Follows.binding (Deeper.follows_within .ended inert_nil rfl)).takes hp
    refine ⟨read, rfl, fun _ => ?_, fun l hl => hl.elim⟩
    cases read with
    | nil => exact absurd htakes (Nat.not_succ_le_self _)
    | cons t us => exact ⟨t, us, rfl, fun ht => refuses_binding ht _ _ hp⟩

theorem declaratorRest (x : Shaped Node) (hs : known s) :
    Locates known false (Parser.declaratorRest (.within n) s x) (Built Own) := by
  have hvalue : Locates known false (Deeper.within n).assignment fun _ _ => False :=
    of_keeps ((Deeper.keeps_within n).assignment Frame.unannounced_outermost) in_outermost
  refine perhaps hvalue fun y => built (.behind fun value => .behind fun target => .pure ?_)
  rintro l rfl
  exact .inl hs

theorem declarator : Locates known true (Parser.declarator (.within n)) (Built Own) :=
  place fun _ => next binding fun x => declaratorRest x (.inr rfl)

/-- The places of the variables that are declared. -/
def Declared (n : Node) (l : Option Position) : Prop :=
  ∃ kind declarations, n.form = .variableDeclaration kind declarations ∧ Each Own declarations l

theorem declaredVariables :
    Locates known true (Parser.declaredVariables (.within n)) (Built Declared) := by
  refine bind (takeIf rfl) fun kind => bind (parts declarator).loose fun xs => built ?_
  refine .bind (each_of_inOrder Own xs) fun declarations h => .pure ?_
  rintro l ⟨_, _, hform, hl⟩
  cases hform
  exact .inr (h l hl)

/-- What has no places that count, as the form of what is built shows. -/
theorem answering {p : Parser (Shaped Node)} {places : Node → Option Position → Prop}
    (h : Locates known false p fun _ _ => False)
    (hp : ∀ ts, Answers ts p fun n => ∀ l, ¬places n l) : Locates known false p (Built places) where
  reads {ts x rest} hrun := by
    obtain ⟨read, hts, -⟩ := h.reads hrun
    refine ⟨read, hts, nofun, ?_⟩
    rintro l ⟨n, hn, hl⟩
    exact absurd hl (hp ts x rest hrun n hn l)

/-- What is told of a declaration is the place of the statement or of a variable. -/
theorem place_of_notExportable {s d : Node} {l : Option Position} (h : s.NotExportable d f l) :
    l = s.loc ∨ Declared d l := by
  unfold Node.NotExportable at h
  split at h
  case h_1 kind declarations hform =>
    obtain ⟨v, hv, -, -, rfl⟩ := h
    cases hloc : v.loc with
    | none => exact .inl rfl
    | some place => exact .inr ⟨kind, declarations, hform, v, hv, hloc.symm⟩
  case h_2 | h_3 => cases h
  case h_4 => exact .inl h.2

theorem exportedFunction (nameless : Bool) :
    Locates known false (Parser.functionDeclaration (.within n) nameless) fun _ _ => False :=
  of_keeps (Keeps.functionDeclaration (Deeper.keeps_within n) Frame.unannounced_outermost.toSound _)
    in_outermost

theorem exportedClass (nameless : Bool) :
    Locates known false (Parser.classDeclaration (.within n) nameless) fun _ _ => False :=
  of_keeps (Keeps.classDeclaration (Deeper.keeps_within n) Frame.unannounced_outermost.toSound _)
    in_outermost

theorem exportedDeclaration (hs : known s) : Locates known false
    (Parser.exportedDeclaration (.within n) s) (Built (Rejected runtimeModule)) := by
  have hrest : ∀ x, Locates (fun l => known l ∨ Built Declared x l) false (Pure.pure (x >>= fun d =>
      Pure.pure (Node.mk s (.exportNamedDeclaration (some d) [] none))))
      (Built (Rejected runtimeModule)) := by
    intro x
    refine built (.bind (builds_built Declared x) fun d hd => .pure ?_)
    rintro l ⟨f, hl⟩
    rcases place_of_notExportable hl with rfl | hl
    · exact .inl hs
    · exact .inr (hd l hl)
  refine look fun t => look fun u => ite (fun _ => ?_) fun _ => ite (fun _ => ?_) fun _ => ?_
  · exact bind declaredVariables.loose fun x => next (skip _) fun _ => pureBind (hrest x)
  · refine bind (answering (exportedClass false) fun ts => ?_) hrest
    exact Answers.classDeclaration false fun _ _ _ l ⟨_, _, hform, _⟩ => nomatch hform
  · refine bind (answering (exportedFunction false) fun ts => ?_) hrest
    exact Answers.functionDeclaration false fun _ _ _ _ _ l ⟨_, _, hform, _⟩ => nomatch hform

theorem defaultExport :
    Locates known false (Parser.defaultExport (.within n) s) (Built (Rejected runtimeModule)) := by
  have hrest : ∀ x, Locates known false (Pure.pure (x >>= fun d =>
      Pure.pure (Node.mk s (.exportDefaultDeclaration (some d)))))
      (Built (Rejected runtimeModule)) :=
    fun x => built (.behind fun d => .pure fun l ⟨f, hl⟩ => hl.elim)
  have hvalue : Locates known false (Parser.assignment (.within n)) fun _ _ => False :=
    of_keeps (Keeps.assignment (Deeper.keeps_within n) Frame.unannounced_outermost) in_outermost
  refine next (skip _) fun _ => look fun t => lookFurther fun u => ?_
  refine ite (fun _ => ?_) fun _ => ite (fun _ => ?_) fun _ => ?_
  · exact next (exportedFunction true) hrest
  · exact next (exportedClass true) hrest
  · exact next hvalue fun x => next (skip _) fun _ => pureBind (hrest x)

theorem exportDeclaration : Locates known true (Parser.exportDeclaration (.within n))
    (Built (Rejected runtimeModule)) := by
  refine place fun s => next (take nofun) fun _ => look fun t => ?_
  split
  · exact defaultExport
  · exact namedExports
  · exact wholeExport
  · exact exportedDeclaration (.inr rfl)

/-! ### The module -/

theorem not_unsupported_of_not_moduleForm {s : Node} (h : s.isModuleForm = false) :
    ¬s.Unsupported runtimeModule f l := by
  obtain ⟨loc, form⟩ := s
  cases form <;> first | exact id | cases h

theorem statement :
    Locates known false (Parser.statement (.within n)) (Built (Rejected runtimeModule)) := by
  have hcalm : ({} : Terminators).Calm Frame.outermost :=
    in_outermost.calm Frame.quiet_outermost
  refine answering (of_keeps (Keeps.statement (Deeper.keeps_within n)
    Frame.unannounced_outermost) hcalm) fun ts => Answers.statement.mono ?_
  rintro n hn l ⟨f, hl⟩
  exact not_unsupported_of_not_moduleForm hn.plain hl

variable (runtimeModule) in
/-- The place that may be told of what stands at the top of a module has been read with it. -/
theorem item (known : Option Position → Prop) :
    Locates known false (Parser.item (.within n)) (Built (Rejected runtimeModule)) := by
  refine look fun t => ?_
  split
  · exact exportDeclaration.loose
  · exact lookFurther fun u => ite (fun _ => statement) fun _ => importDeclaration.loose
  · exact statement

/-! ### The items of a module -/

variable {γ : Type} {r : Parser γ} {stop : Option Terminal → Bool} {m : Nat} {ts rest : List Token}

/-- The first of several items has been read on its own. -/
theorem exists_run_of_manyUntil {c : γ} {cs : List γ}
    (h : (Parser.manyUntil r stop m).run ts = .ok (c :: cs, rest)) :
    ∃ m' mid, r.run ts = .ok (c, mid) ∧ (Parser.manyUntil r stop m').run mid = .ok (cs, rest) := by
  cases m with
  | zero => cases h
  | succ m =>
    rw [Parser.manyUntil, run_bind_of_ok (run_look ts)] at h
    split at h
    case isTrue => cases (run_pure_ok.1 h).1
    case isFalse =>
      obtain ⟨d, mid, hd, hmore⟩ := run_bind_ok.1 h
      obtain ⟨ds, last, hds, hpure⟩ := run_bind_ok.1 hmore
      obtain ⟨hcons, rfl⟩ := run_pure_ok.1 hpure
      cases hcons
      exact ⟨m, mid, hd, hds⟩

/-- One of several items has been read behind those before it, and those after it behind it. -/
theorem exists_read_of_manyUntil {before after : List γ} {c : γ}
    {placed : γ → Option Position → Prop} (h : Locates known opens r placed)
    (hrun : (Parser.manyUntil r stop m).run ts = .ok (before ++ c :: after, rest)) :
    ∃ front read back m', ts = front ++ (read ++ back) ∧ r.run (read ++ back) = .ok (c, back) ∧
      (∀ l, placed c l → known l ∨ PlacedAt read l) ∧
      (Parser.manyUntil r stop m').run back = .ok (after, rest) := by
  induction before generalizing m ts with
  | nil =>
    obtain ⟨m', back, hc, hmore⟩ := exists_run_of_manyUntil hrun
    obtain ⟨read, rfl, -, hread⟩ := h.reads hc
    exact ⟨[], read, back, m', rfl, hc, hread, hmore⟩
  | cons b before ih =>
    obtain ⟨m', mid, hb, hmore⟩ := exists_run_of_manyUntil hrun
    obtain ⟨first, rfl, -, -⟩ := h.reads hb
    obtain ⟨front, read, back, m'', rfl, hc, hread, hafter⟩ := ih hmore
    exact ⟨first ++ front, read, back, m'', (List.append_assoc ..).symm, hc, hread, hafter⟩

end Locates

end Parser

end ModuleLowering
