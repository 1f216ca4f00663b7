import ModuleLowering.Proofs.Following
import ModuleLowering.Proofs.Regions

/-!
# Where parsers put what they build

A parser builds in a region if what it answers lies there whenever the tokens that it reads do, one
not before the other. Where the place of the next token is taken the region shrinks, since the
tokens to come are not before it. A terminator may be the last of the tokens that are read and lie
elsewhere: no expression starts with one. Only statements do, and for them it is asked that every
token lies in the region. Rules for the parts of a parser give the fact for the whole.
-/

set_option autoImplicit false

namespace ModuleLowering

open Sited

/-! ## Tokens in a region -/

/-- Tokens start in a region, one not before the other. Unless `every` token has to, a terminator at
the end need not. -/
inductive Token.InRegion (K : Region) (every : Bool) : List Token → Prop
  | nil : InRegion K every []
  | terminator {t : Token} (hevery : every = false) (ht : t.terminal = .terminator) :
    InRegion K every [t]
  | cons {t : Token} {ts : List Token} (ht : K t.start) (hts : ∀ u ∈ ts, t.start ≤ u.start)
    (hrest : InRegion K every ts) : InRegion K every (t :: ts)

namespace Token.InRegion

variable {K : Region} {every : Bool} {ts us : List Token} {t : Token}

theorem append_right (h : Token.InRegion K every (ts ++ us)) : Token.InRegion K every us := by
  induction ts with
  | nil => exact h
  | cons t ts ih =>
    cases hall : ts ++ us with
    | nil =>
      obtain ⟨-, rfl⟩ := List.append_eq_nil_iff.1 hall
      exact .nil
    | cons u vs =>
      rw [List.cons_append, hall] at h
      cases h with
      | cons _ _ hrest =>
        rw [hall] at ih
        exact ih hrest

/-- Tokens that are not the last ones all start in the region. -/
theorem append_left (h : Token.InRegion K every (ts ++ us)) (hus : us ≠ []) (every' : Bool) :
    Token.InRegion K every' ts := by
  induction ts with
  | nil => exact .nil
  | cons t ts ih =>
    cases hall : ts ++ us with
    | nil => exact absurd (List.append_eq_nil_iff.1 hall).2 hus
    | cons u vs =>
      rw [List.cons_append, hall] at h
      cases h with
      | cons ht hts hrest =>
        rw [hall] at ih
        refine .cons ht (fun v hv => hts v ?_) (ih hrest)
        rw [← hall]
        exact List.mem_append_left us hv

theorem left (h : Token.InRegion K every (ts ++ us)) : Token.InRegion K every ts := by
  cases us with
  | nil => rwa [List.append_nil] at h
  | cons u us => exact h.append_left (List.cons_ne_nil u us) every

/-- The first token starts in the region unless it is a terminator. -/
theorem start (h : Token.InRegion K every (t :: ts))
    (ht : every = false → t.terminal ≠ .terminator) : K t.start := by
  cases h with
  | terminator hevery hterminator => exact absurd hterminator (ht hevery)
  | cons ht => exact ht

theorem restrict {p : Position} (h : Token.InRegion K every ts) (hts : ∀ t ∈ ts, p ≤ t.start) :
    Token.InRegion (K.since (some p)) every ts := by
  induction h with
  | nil => exact .nil
  | terminator hevery ht => exact .terminator hevery ht
  | @cons t ts ht hordered _ ih =>
    obtain ⟨hfirst, hrest⟩ := List.forall_mem_cons.1 hts
    refine .cons ⟨ht, ?_⟩ hordered (ih hrest)
    rintro _ ⟨⟩
    exact hfirst

/-- Tokens start in the part of a region that is not before the first one. -/
theorem since_start (h : Token.InRegion K every (t :: ts)) :
    Token.InRegion (K.since (some t.start)) every (t :: ts) := by
  cases h with
  | terminator hevery ht => exact .terminator hevery ht
  | cons ht hts hrest =>
    exact restrict (.cons ht hts hrest) (List.forall_mem_cons.2 ⟨t.start.le_refl, hts⟩)

theorem since_head (h : Token.InRegion K every (t :: ts)) :
    Token.InRegion (K.since (some t.start)) every ts := by
  have hall : Token.InRegion (K.since (some t.start)) every ([t] ++ ts) := h.since_start
  exact hall.append_right

end Token.InRegion

/-! ## Parsers -/

namespace Parser

/-- The answer passes the test if the tokens that were read lie in the region. Where `opens` holds
there are such tokens, and the first of them starts in the region. -/
structure Situates {α : Type} (K : Region) (every opens : Bool) (p : Parser α) (Q : α → Prop) :
    Prop where
  reads : ∀ {ts a rest}, p.run ts = .ok (a, rest) → ∃ read, ts = read ++ rest ∧
    (opens = true → ∃ t us, read = t :: us ∧ (every = false → t.terminal ≠ .terminator)) ∧
    (Token.InRegion K every read → Q a)

namespace Situates

variable {α β : Type} {K : Region} {every opens opens' : Bool} {p q : Parser α}
  {Q Q' : α → Prop} {S : β → Prop} {f : α → Parser β}

theorem pure {a : α} (h : Q a) : Situates K every false (pure a) Q where
  reads {ts b rest} hp := by
    obtain ⟨rfl, rfl⟩ := run_pure_ok.1 hp
    exact ⟨[], rfl, nofun, fun _ => h⟩

theorem fail : Situates K every opens fail Q where
  reads hp := by cases hp

/-- What comes behind may use what is known of the answer of what comes first. -/
theorem bind (h : Situates K every opens p Q)
    (hf : ∀ a, Situates K every false (f a) fun b => Q a → S b) :
    Situates K every opens (p >>= f) S where
  reads {ts b rest} hp := by
    obtain ⟨a, mid, ha, hb⟩ := run_bind_ok.1 hp
    obtain ⟨read, rfl, hopens, hQ⟩ := h.reads ha
    obtain ⟨read', rfl, -, hS⟩ := (hf a).reads hb
    refine ⟨read ++ read', (List.append_assoc ..).symm, fun ho => ?_, fun hread => ?_⟩
    · obtain ⟨t, us, rfl, ht⟩ := hopens ho
      exact ⟨t, us ++ read', rfl, ht⟩
    · exact hS hread.append_right (hQ hread.left)

/-- Of what comes before something else all tokens lie in the region. -/
theorem before (h : Situates K true opens p Q)
    (hf : ∀ a, Situates K every true (f a) fun b => Q a → S b) :
    Situates K every false (p >>= f) S where
  reads {ts b rest} hp := by
    obtain ⟨a, mid, ha, hb⟩ := run_bind_ok.1 hp
    obtain ⟨read, rfl, -, hQ⟩ := h.reads ha
    obtain ⟨read', rfl, hopens, hS⟩ := (hf a).reads hb
    obtain ⟨t, us, rfl, -⟩ := hopens rfl
    refine ⟨read ++ t :: us, (List.append_assoc ..).symm, nofun, fun hread => ?_⟩
    exact hS hread.append_right (hQ (hread.append_left (List.cons_ne_nil t us) true))

theorem mono (h : Situates K every opens p Q) (hQ : ∀ a, Q a → Q' a) :
    Situates K every opens p Q' where
  reads hp := by
    obtain ⟨read, hts, hopens, hread⟩ := h.reads hp
    exact ⟨read, hts, hopens, fun h => hQ _ (hread h)⟩

theorem loose (h : Situates K every opens p Q) : Situates K every false p Q where
  reads hp := by
    obtain ⟨read, hts, -, hread⟩ := h.reads hp
    exact ⟨read, hts, nofun, hread⟩

/-- What comes first has no part in the answer. -/
theorem next (h : Situates K every opens p fun _ => True)
    (hf : ∀ a, Situates K every false (f a) S) : Situates K every opens (p >>= f) S :=
  bind h fun a => (hf a).mono fun _ hb _ => hb

/-- What comes first starts in the region, and so may what comes behind. -/
theorem past (h : Situates K every true p fun _ => True)
    (hf : ∀ a, Situates K every opens (f a) S) : Situates K every opens (p >>= f) S := by
  cases opens with
  | true => exact next h fun a => (hf a).loose
  | false => exact next h.loose hf

theorem map {g : α → β} (h : Situates K every opens p Q) (hg : ∀ a, Q a → S (g a)) :
    Situates K every opens (g <$> p) S := by
  rw [map_eq_pure_bind]
  exact bind h fun a => pure fun ha => hg a ha

theorem ite {c : Prop} [Decidable c] (h : c → Situates K every opens p Q)
    (h' : ¬c → Situates K every opens q Q) :
    Situates K every opens (if c then p else q) Q := by
  split
  · exact h ‹_›
  · exact h' ‹_›

theorem pureBind {a : α} (h : Situates K every opens (f a) S) :
    Situates K every opens (Pure.pure a >>= f) S := by
  rwa [pure_bind]

/-- A part that is there under a condition, before what comes in any case. -/
theorem perhaps [Sited α] {c : Prop} [Decidable c] {f : Option α → Parser β}
    (h : Situates K every opens p (InRegion K))
    (hf : ∀ part, Situates K every false (f part) fun b => InRegion K part → S b) :
    Situates K every false (if c then some <$> p >>= f else Pure.pure none >>= f) S := by
  refine ite (fun _ => (bind (h.map fun _ ha => .some ha) hf).loose) fun _ => ?_
  exact pureBind ((hf none).mono fun _ hb => hb .none)

/-- A part that is absent under a condition, before what comes in any case. -/
theorem perhapsNot [Sited α] {c : Prop} [Decidable c] {f : Option α → Parser β}
    (h : Situates K every opens p (InRegion K))
    (hf : ∀ part, Situates K every false (f part) fun b => InRegion K part → S b) :
    Situates K every false (if c then Pure.pure none >>= f else some <$> p >>= f) S := by
  rw [← ite_not]
  exact perhaps h hf

/-! ### Looking ahead -/

theorem look {f : Option Terminal → Parser β} (h : ∀ t, Situates K every opens (f t) S) :
    Situates K every opens (look >>= f) S where
  reads hp := (h _).reads hp

theorem lookFurther {f : Option Terminal → Parser β}
    (h : ∀ t, Situates K every opens (f t) S) :
    Situates K every opens (lookFurther >>= f) S where
  reads hp := (h _).reads hp

theorem left {f : Nat → Parser β} (h : ∀ n, Situates K every opens (f n) S) :
    Situates K every opens (left >>= f) S where
  reads hp := (h _).reads hp

/-- A place that is not used. -/
theorem unplaced {f : Option Position → Parser β}
    (h : ∀ s, Situates K every opens (f s) S) :
    Situates K every opens (Parser.place >>= f) S where
  reads hp := (h _).reads hp

/-- What is read from a place on lies in the part of the region that starts there. -/
theorem placed {f : Option Position → Parser β} (h : ∀ s, Situates (K.since s) every true (f s)
      fun b => (∀ q, K.since s q → K q) → (K.since s).StartsAt s → S b) :
    Situates K every true (Parser.place >>= f) S where
  reads {ts b rest} hp := by
    have hrest : (f (ts.head?.map Token.start)).run ts = .ok (b, rest) := hp
    obtain ⟨read, rfl, hopens, hread⟩ := (h _).reads hrest
    obtain ⟨t, us, rfl, ht⟩ := hopens rfl
    refine ⟨t :: us, rfl, fun _ => ⟨t, us, rfl, ht⟩, fun hts => ?_⟩
    exact hread hts.since_start (fun _ hq => hq.1) (Region.startsAt_since (hts.start ht))

/-- A node is placed at the first token that is read for it. -/
theorem place [Sited β] {f : Option Position → Parser β} (h : ∀ (K : Region) (s : Option Position),
      Situates K every true (f s) fun b => K.StartsAt s → InRegion K b) :
    Situates K every true (Parser.place >>= f) (InRegion K) :=
  placed fun s => (h _ s).mono fun _ hb hK hs => Sited.mono (hb hs) hK

/-! ### Tokens -/

theorem ne_terminator {test : Terminal → Bool} {t : Terminal} (h : test .terminator = false)
    (ht : test t = true) : t ≠ .terminator := by
  rintro rfl
  rw [h] at ht
  cases ht

theorem takeIf {test : Terminal → Bool} (h : test .terminator = false) :
    Situates K every true (takeIf test) fun t => K t.start where
  reads {ts t rest} hp := by
    obtain ⟨rfl, ht⟩ := run_takeIf_ok.1 hp
    have htext := ne_terminator h ht
    exact ⟨[t], rfl, fun _ => ⟨t, [], rfl, fun _ => htext⟩, fun hts => hts.start fun _ => htext⟩

/-- Any token, which starts in the region if every token has to. -/
theorem skip (test : Terminal → Bool) :
    Situates K every every (Functor.discard (Parser.takeIf test)) fun _ => True where
  reads {ts u rest} hp := by
    obtain ⟨t, ht, -⟩ := run_map_ok.1 hp
    obtain ⟨rfl, -⟩ := run_takeIf_ok.1 ht
    refine ⟨[t], rfl, fun hopens => ⟨t, [], rfl, fun hevery => ?_⟩, fun _ => trivial⟩
    rw [hopens] at hevery
    cases hevery

theorem terminator : Situates K every every Parser.terminator fun _ => True := skip _

theorem take {t : Terminal} (h : t ≠ .terminator) :
    Situates K every true (Functor.discard (Parser.take t)) fun _ => True :=
  (takeIf (decide_eq_false fun h' => h h'.symm)).map fun _ _ => trivial

theorem punctuator (p : Punctuator) : Situates K every true (Parser.punctuator p) fun _ => True :=
  take nofun

theorem word (w : Word) : Situates K every true (Parser.word w) fun _ => True := take nofun

/-- A node that is placed at a token that was read with it. -/
theorem takeIfBind {test : Terminal → Bool} {f : Token → Parser β} (h : test .terminator = false)
    (hf : ∀ t : Token, Situates (K.since (some t.start)) every false (f t)
      fun b => (K.since (some t.start)).StartsAt (some t.start) → S b) :
    Situates K every true (Parser.takeIf test >>= f) S where
  reads {ts b rest} hp := by
    obtain ⟨t, mid, htake, hb⟩ := run_bind_ok.1 hp
    obtain ⟨rfl, ht⟩ := run_takeIf_ok.1 htake
    obtain ⟨read, rfl, -, hS⟩ := (hf t).reads hb
    have htext := ne_terminator h ht
    refine ⟨t :: read, rfl, fun _ => ⟨t, read, rfl, fun _ => htext⟩, fun hts => ?_⟩
    exact hS hts.since_head (Region.startsAt_since (hts.start fun _ => htext))

/-- A parser that goes on one way behind a terminal and another way without it. -/
theorem ifTaken {t : Terminal} {p q : Parser β} (ht : opens = true → t ≠ .terminator)
    (h : Situates K every false p S) (h' : Situates K every opens q S) :
    Situates K every opens (Parser.taken t >>= fun b => if b = true then p else q) S := by
  unfold Parser.taken
  rw [bind_assoc]
  refine look fun u => ?_
  by_cases hu : u = some t
  · simp only [if_pos hu, bind_assoc, pure_bind, if_true]
    cases opens with
    | true => exact next (take (ht rfl)) fun _ => h
    | false => exact next (skip _).loose fun _ => h
  · simpa only [if_neg hu, pure_bind, Bool.false_eq_true, if_false] using h'

/-- A terminal that may come next, before what comes in any case. -/
theorem mark {t : Terminal} {f : Bool → Parser β} (ht : opens = true → t ≠ .terminator)
    (h : ∀ b, Situates K every opens (f b) S) : Situates K every opens (Parser.taken t >>= f) S := by
  unfold Parser.taken
  rw [bind_assoc]
  refine look fun u => ?_
  split
  · simp only [bind_assoc, pure_bind]
    cases opens with
    | true => exact next (take (ht rfl)) fun _ => (h true).loose
    | false => exact next (skip _).loose fun _ => h true
  · simpa only [pure_bind] using h false

/-! ### Lists -/

section

variable (h : Situates K every opens p Q)
include h

theorem moreItems {close : Terminal} {n : Nat} :
    Situates K every false (moreItems p close n) fun as => ∀ a ∈ as, Q a := by
  induction n with
  | zero => exact fail
  | succ n ih =>
    refine ifTaken nofun (pure nofun) (next (skip _).loose fun _ => ifTaken nofun (pure nofun) ?_)
    refine (bind h fun a => bind ih fun as => pure fun has ha => ?_).loose
    exact List.forall_mem_cons.2 ⟨ha, has⟩

theorem items {close : Terminal} :
    Situates K every false (items p close) fun as => ∀ a ∈ as, Q a := by
  refine ifTaken nofun (pure nofun) ?_
  refine (bind h fun a => left fun _ => bind (moreItems h) fun as => pure fun has ha => ?_).loose
  exact List.forall_mem_cons.2 ⟨ha, has⟩

theorem moreParts {n : Nat} :
    Situates K every false (moreParts p n) fun as => ∀ a ∈ as, Q a := by
  induction n with
  | zero => exact fail
  | succ n ih =>
    refine ifTaken nofun ?_ (pure nofun)
    refine (bind h fun a => bind ih fun as => pure fun has ha => ?_).loose
    exact List.forall_mem_cons.2 ⟨ha, has⟩

theorem parts : Situates K every opens (parts p) fun as => ∀ a ∈ as, Q a := by
  refine bind h fun a => left fun _ => bind (moreParts h) fun as => pure fun has ha => ?_
  exact List.forall_mem_cons.2 ⟨ha, has⟩

theorem manyUntil {stop : Option Terminal → Bool} {n : Nat} :
    Situates K every false (manyUntil p stop n) fun as => ∀ a ∈ as, Q a := by
  induction n with
  | zero => exact fail
  | succ n ih =>
    refine look fun _ => ite (fun _ => pure nofun) fun _ => ?_
    refine (bind h fun a => bind ih fun as => pure fun has ha => ?_).loose
    exact List.forall_mem_cons.2 ⟨ha, has⟩

end

/-- All tokens of items that come before a closing bracket lie in the region. -/
theorem itemsUntil {close : Terminal} (hclose : close ≠ .terminator)
    (h : Situates K true opens p Q) :
    Situates K every false (itemsUntil p close) fun as => ∀ a ∈ as, Q a :=
  left fun _ => before (manyUntil h) fun _ =>
    bind (take hclose) fun _ => pure fun _ has => has

end Situates

end Parser

end ModuleLowering
