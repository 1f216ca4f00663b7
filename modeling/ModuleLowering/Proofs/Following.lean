import ModuleLowering.Proofs.Places

/-!
# Parsers on token lists that go on alike

Two token lists go on alike if the second one spells the first one again, at other places perhaps,
and then goes on. A parser does the same on both as long as it does not look behind the end of the
first one. That holds of a parser that leaves tokens, and of one that has read its last token
without asking what comes next. If the two lists end together it holds of every parser, and the
parser then fails at the same token of both. Rules for the parts of a parser give the fact for the
whole.
-/

set_option autoImplicit false

namespace ModuleLowering

/-- Two tokens that the grammar cannot tell apart: the text of a terminator does not count. -/
structure Token.Matches (t u : Token) : Prop where
  terminal : t.terminal = u.terminal
  text : t.terminal ≠ .terminator → t.text = u.text

/-- Two tokens that differ in their places at most. -/
structure Token.SameSpelling (t u : Token) : Prop where
  terminal : t.terminal = u.terminal
  text : t.text = u.text

instance : Std.Refl Token.Matches := ⟨fun _ => ⟨rfl, fun _ => rfl⟩⟩

instance : Std.Refl Token.SameSpelling := ⟨fun _ => ⟨rfl, rfl⟩⟩

instance refl_eq {α : Type} : Std.Refl (@Eq α) := ⟨fun _ => rfl⟩

instance refl_true {α : Type} : Std.Refl (fun _ _ : α => True) := ⟨fun _ => trivial⟩

/-- What the second of two lists goes on with where the first one ends. -/
inductive Sequel where
  | ended
  | more (tokens : List Token)

namespace Sequel

def tokens : Sequel → List Token
  | ended => []
  | more tokens => tokens

/-- Fuel for the second list, by that for the first one. Lists that end together are read with the
same fuel, so that it does not run out on one of them alone. -/
def Fuels : Sequel → Nat → Nat → Prop
  | ended, m, n => m = n
  | more _, m, n => m ≤ n

instance {extra : Sequel} : Std.Refl extra.Fuels := by
  cases extra
  · exact ⟨fun _ => rfl⟩
  · exact ⟨Nat.le_refl⟩

namespace Fuels

variable {extra : Sequel} {m n : Nat}

theorem succ (h : extra.Fuels m n) : extra.Fuels (m + 1) (n + 1) := by
  cases extra
  · exact congrArg Nat.succ h
  · exact Nat.succ_le_succ h

theorem of_succ (h : extra.Fuels (m + 1) (n + 1)) : extra.Fuels m n := by
  cases extra
  · exact Nat.succ.inj h
  · exact Nat.le_of_succ_le_succ h

theorem exists_succ (h : extra.Fuels (m + 1) n) : ∃ n', n = n' + 1 := by
  cases extra
  · exact ⟨m, h.symm⟩
  · exact Nat.exists_eq_add_of_le' (Nat.lt_of_lt_of_le m.succ_pos h)

end Fuels

end Sequel

/-- The second list spells the first one again and goes on with `extra`. -/
inductive Continues (extra : List Token) : List Token → List Token → Prop where
  | nil : Continues extra [] extra
  | cons {t u : Token} {ts us : List Token} : t.Matches u → Continues extra ts us →
      Continues extra (t :: ts) (u :: us)

namespace Continues

variable {extra ts us : List Token}

theorem refl (ts : List Token) : Continues [] ts ts := by
  induction ts with
  | nil => exact .nil
  | cons t ts ih => exact .cons ⟨rfl, fun _ => rfl⟩ ih

theorem append {vs ws : List Token} (h : Continues [] ts us) (h' : Continues extra vs ws) :
    Continues extra (ts ++ vs) (us ++ ws) := by
  induction h with
  | nil => exact h'
  | cons htu _ ih => exact .cons htu ih

theorem length_eq (h : Continues extra ts us) : us.length = ts.length + extra.length := by
  induction h with
  | nil => simp
  | cons _ _ ih =>
    rw [List.length_cons, List.length_cons, ih]
    omega

theorem length_le (h : Continues extra ts us) : ts.length ≤ us.length := by
  rw [h.length_eq]
  exact Nat.le_add_right _ _

theorem head (h : Continues extra ts us) (hts : ts ≠ []) :
    us.head?.map Token.terminal = ts.head?.map Token.terminal := by
  cases h with
  | nil => exact absurd rfl hts
  | cons htu _ => exact congrArg some htu.terminal.symm

theorem tail (h : Continues extra ts us) (hts : ts ≠ []) : Continues extra ts.tail us.tail := by
  cases h with
  | nil => exact absurd rfl hts
  | cons _ hrest => exact hrest

/-- Lists that end together. -/
theorem head_ended (h : Continues [] ts us) :
    us.head?.map Token.terminal = ts.head?.map Token.terminal := by
  cases h with
  | nil => rfl
  | cons htu _ => exact congrArg some htu.terminal.symm

theorem tail_ended (h : Continues [] ts us) : Continues [] ts.tail us.tail := by
  cases h with
  | nil => exact .nil
  | cons _ hrest => exact hrest

end Continues

namespace Parser

variable {α β : Type}

/-! ## Runs of the parts of a parser -/

theorem run_bind_ok {p : Parser α} {f : α → Parser β} {ts rest : List Token} {b : β} :
    (p >>= f).run ts = .ok (b, rest) ↔
      ∃ a mid, p.run ts = .ok (a, mid) ∧ (f a).run mid = .ok (b, rest) := by
  rw [StateT.run_bind]
  cases p.run ts with
  | error e => simp [bind, Except.bind]
  | ok r =>
    show (f r.1).run r.2 = _ ↔ _
    constructor
    · exact fun h => ⟨r.1, r.2, rfl, h⟩
    · rintro ⟨a, mid, hr, h⟩
      cases hr
      exact h

theorem run_bind_error {p : Parser α} {f : α → Parser β} {ts rest : List Token} :
    (p >>= f).run ts = .error rest ↔
      p.run ts = .error rest ∨ ∃ a mid, p.run ts = .ok (a, mid) ∧ (f a).run mid = .error rest := by
  rw [StateT.run_bind]
  cases p.run ts with
  | error e => simp [bind, Except.bind]
  | ok r =>
    show (f r.1).run r.2 = _ ↔ _
    constructor
    · exact fun h => .inr ⟨r.1, r.2, rfl, h⟩
    · rintro (h | ⟨a, mid, hr, h⟩)
      · cases h
      · cases hr
        exact h

theorem run_pure_ok {a b : α} {ts rest : List Token} :
    (pure a : Parser α).run ts = .ok (b, rest) ↔ a = b ∧ ts = rest := by
  show Except.ok (a, ts) = .ok (b, rest) ↔ _
  rw [Except.ok.injEq, Prod.mk.injEq]

theorem run_look (ts : List Token) : look.run ts = .ok (ts.head?.map Token.terminal, ts) := rfl

theorem run_lookFurther (ts : List Token) :
    lookFurther.run ts = .ok (ts.tail.head?.map Token.terminal, ts) := rfl

theorem lookFurther_bind_const (p : Parser α) : (lookFurther >>= fun _ => p) = p := rfl

theorem run_place (ts : List Token) : place.run ts = .ok (ts.head?.map Token.start, ts) := rfl

theorem run_left (ts : List Token) : left.run ts = .ok (ts.length, ts) := rfl

theorem run_takeIf_nil (test : Terminal → Bool) : (takeIf test).run [] = .error [] := rfl

theorem run_takeIf_cons (test : Terminal → Bool) (t : Token) (ts : List Token) :
    (takeIf test).run (t :: ts) = if test t.terminal then .ok (t, ts) else .error (t :: ts) := by
  unfold takeIf
  rw [StateT.run_bind, StateT.run_get]
  show StateT.run (if _ then _ else _) _ = _
  split <;> rfl

theorem run_takeIf_error {test : Terminal → Bool} {ts rest : List Token} :
    (takeIf test).run ts = .error rest ↔
      ts = rest ∧ ∀ t ∈ ts.head?.map Token.terminal, test t = false := by
  cases ts with
  | nil => simp [run_takeIf_nil]
  | cons u us =>
    rw [run_takeIf_cons]
    by_cases h : test u.terminal <;> simp [h]

theorem run_takeIf_ok {test : Terminal → Bool} {t : Token} {ts rest : List Token} :
    (takeIf test).run ts = .ok (t, rest) ↔ ts = t :: rest ∧ test t.terminal = true := by
  cases ts with
  | nil => simp [run_takeIf_nil]
  | cons u us =>
    rw [run_takeIf_cons]
    by_cases h : test u.terminal
    · rw [if_pos h, Except.ok.injEq, Prod.mk.injEq, List.cons.injEq]
      constructor
      · rintro ⟨rfl, rfl⟩
        exact ⟨⟨rfl, rfl⟩, h⟩
      · rintro ⟨⟨rfl, rfl⟩, _⟩
        exact ⟨rfl, rfl⟩
    · rw [if_neg h]
      constructor
      · intro hr
        cases hr
      · rintro ⟨hcons, ht⟩
        cases hcons
        exact absurd ht h

theorem run_bind_of_ok {p : Parser α} {f : α → Parser β} {ts us : List Token} {a : α}
    (h : p.run ts = .ok (a, us)) :
    (p >>= f).run ts = (f a).run us := by
  rw [StateT.run_bind, h]
  rfl

/-- What is read where the next terminal is another one. -/
theorem run_taken_of_ne {t : Terminal} {ts : List Token}
    (h : ts.head?.map Token.terminal ≠ some t) :
    (taken t).run ts = .ok (false, ts) := by
  unfold taken
  rw [run_bind_of_ok (run_look ts), if_neg h]
  rfl

theorem run_map_error {p : Parser α} {f : α → β} {ts rest : List Token} :
    (f <$> p).run ts = .error rest ↔ p.run ts = .error rest := by
  show (p >>= fun a => pure (f a)).run ts = _ ↔ _
  rw [run_bind_error]
  constructor
  · rintro (h | ⟨a, mid, _, h⟩)
    · exact h
    · cases h
  · exact .inl

theorem run_map_ok {p : Parser α} {f : α → β} {ts rest : List Token} {b : β} :
    (f <$> p).run ts = .ok (b, rest) ↔ ∃ a, p.run ts = .ok (a, rest) ∧ f a = b := by
  show (p >>= fun a => pure (f a)).run ts = _ ↔ _
  rw [run_bind_ok]
  constructor
  · rintro ⟨a, mid, hp, hf⟩
    obtain ⟨hab, rfl⟩ := run_pure_ok.1 hf
    exact ⟨a, hp, hab⟩
  · rintro ⟨a, hp, rfl⟩
    exact ⟨a, rest, hp, rfl⟩

/-! ## What may come behind a whole statement -/

/-- The words that go on with a statement which could have ended before them. -/
def prolongs (t : Terminal) : Bool :=
  [Terminal.word .kwElse, .word .kwCatch, .word .kwFinally].contains t

/-- No token at the start of the list goes on with a statement. -/
def Inert (extra : List Token) : Prop := ∀ t ∈ extra.head?, prolongs t.terminal = false

theorem inert_nil : Inert [] := nofun

/-- Two answers to a look ahead that no statement tells apart at its end. -/
def SameProlonging (a b : Option Terminal) : Prop :=
  ∀ t, prolongs t = true → (a = some t ↔ b = some t)

instance : Std.Refl SameProlonging := ⟨fun _ _ _ => Iff.rfl⟩

/-! ## Parsers side by side -/

/-- Where `p` reads a list, `q` reads any list that continues it and answers alike. `p` takes at
least `k` tokens. Unless it is `closed`, `p` may ask what comes after the tokens it takes, and then
the fact holds only where it leaves some, or where the two lists end together. Where they do and
`p` fails, `q` fails at the same token. -/
structure Follows (extra : Sequel) (closed : Bool) (k : Nat) (R : α → α → Prop)
    (p q : Parser α) : Prop where
  takes : ∀ {ts a rest}, p.run ts = .ok (a, rest) → rest.length + k ≤ ts.length
  goes : ∀ {ts us a rest}, Continues extra.tokens ts us → p.run ts = .ok (a, rest) →
    closed = true ∨ extra = .ended ∨ rest ≠ [] →
      ∃ b rest', q.run us = .ok (b, rest') ∧ R a b ∧ Continues extra.tokens rest rest'
  stops : extra = .ended → ∀ {ts us rest}, Continues [] ts us → p.run ts = .error rest →
    ∃ rest', q.run us = .error rest' ∧ Continues [] rest rest'

/-- What comes behind a parser is safe from the end of the list: the parser does not look there, or
what comes behind it may look there as well, or takes at least a token. -/
class Guarded (o closed : Bool) (k : Nat) : Prop where
  cases : o = true ∨ closed = false ∨ 1 ≤ k

instance {closed : Bool} {k : Nat} : Guarded true closed k := ⟨.inl rfl⟩

instance {o : Bool} {k : Nat} : Guarded o false k := ⟨.inr (.inl rfl)⟩

instance {o closed : Bool} {k : Nat} : Guarded o closed (k + 1) :=
  ⟨.inr (.inr (Nat.le_add_left 1 k))⟩

namespace Follows

variable {extra : Sequel} {closed o : Bool} {k m : Nat} {R : α → α → Prop}
  {S : β → β → Prop} {p q : Parser α} {f g : α → Parser β}

theorem pure {a b : α} (h : R a b) : Follows extra closed 0 R (pure a) (pure b) where
  takes hp := by
    obtain ⟨_, rfl⟩ := run_pure_ok.1 hp
    exact Nat.le_refl _
  goes hts hp _ := by
    obtain ⟨rfl, rfl⟩ := run_pure_ok.1 hp
    exact ⟨b, _, rfl, h, hts⟩
  stops _ _ _ _ _ hp := by cases hp

theorem fail : Follows extra closed k R fail fail where
  takes hp := by cases hp
  goes _ hp _ := by cases hp
  stops _ _ _ _ hts hp := by
    cases hp
    exact ⟨_, rfl, hts⟩

/-- A parser without fuel. -/
theorem exhausted {q : Nat → Parser α} (hq : q 0 = Parser.fail) {n : Nat}
    (hn : extra.Fuels 0 n) : Follows extra closed k R Parser.fail (q n) where
  takes hp := by cases hp
  goes _ hp _ := by cases hp
  stops hended _ _ _ hts hp := by
    subst hended
    obtain rfl : 0 = n := hn
    rw [hq]
    cases hp
    exact ⟨_, rfl, hts⟩

theorem atLeast (h : Follows extra closed m R p q) (hk : k ≤ m) :
    Follows extra closed k R p q where
  takes hp := Nat.le_trans (Nat.add_le_add_left hk _) (h.takes hp)
  goes := h.goes
  stops := h.stops

theorem loose (h : Follows extra closed k R p q) : Follows extra false k R p q where
  takes := h.takes
  goes hts hp hrest := h.goes hts hp (.inr (hrest.resolve_left Bool.false_ne_true))
  stops := h.stops

theorem mono (h : Follows extra closed m R p q) (hclosed : o = true → closed = true)
    (hk : k ≤ m) {R' : α → α → Prop} (hR : ∀ a b, R a b → R' a b) :
    Follows extra o k R' p q where
  takes hp := Nat.le_trans (Nat.add_le_add_left hk _) (h.takes hp)
  goes hts hp hrest := by
    obtain ⟨b, rest', hq, hab, hrest'⟩ := h.goes hts hp (hrest.imp_left hclosed)
    exact ⟨b, rest', hq, hR _ b hab, hrest'⟩
  stops := h.stops

/-- What follows an open parser must take a token, or be open as well. -/
theorem bind [Std.Refl R] [hguarded : Guarded o closed (k - m)] (h : Follows extra o m R p q)
    (hf : ∀ a b, R a b → Follows extra closed (k - m) S (f a) (g b)) :
    Follows extra closed k S (p >>= f) (q >>= g) where
  takes hp := by
    obtain ⟨a, mid, hp, hf'⟩ := run_bind_ok.1 hp
    have hp := h.takes hp
    have hf' := (hf a a (Std.Refl.refl a)).takes hf'
    omega
  goes hts hp hrest := by
    obtain ⟨a, mid, hp, hf'⟩ := run_bind_ok.1 hp
    have hmid : o = true ∨ extra = .ended ∨ mid ≠ [] := by
      by_cases hended : extra = .ended
      · exact .inr (.inl hended)
      rw [or_iff_right hended] at hrest
      refine hguarded.cases.imp_right fun hopen => .inr fun hnil => ?_
      have htakes := (hf a a (Std.Refl.refl a)).takes hf'
      rw [hnil, List.length_nil] at htakes
      rcases hopen with hclosed | htaken
      · rw [hclosed] at hrest
        refine (hrest.resolve_left Bool.false_ne_true) (List.eq_nil_of_length_eq_zero ?_)
        omega
      · omega
    obtain ⟨b, mid', hq, hab, hmid'⟩ := h.goes hts hp hmid
    obtain ⟨c, rest', hg, hcd, hrest'⟩ := (hf a b hab).goes hmid' hf' hrest
    exact ⟨c, rest', run_bind_ok.2 ⟨b, mid', hq, hg⟩, hcd, hrest'⟩
  stops hended {ts us rest} hts hp := by
    subst hended
    rcases run_bind_error.1 hp with hp | ⟨a, mid, hp, hf'⟩
    · obtain ⟨rest', hq, hrest'⟩ := h.stops rfl hts hp
      exact ⟨rest', run_bind_error.2 (.inl hq), hrest'⟩
    · obtain ⟨b, mid', hq, hab, hmid'⟩ := h.goes hts hp (.inr (.inl rfl))
      obtain ⟨rest', hg, hrest'⟩ := (hf a b hab).stops rfl hmid' hf'
      exact ⟨rest', run_bind_error.2 (.inr ⟨b, mid', hq, hg⟩), hrest'⟩

theorem pureBind {a b : α} (h : Follows extra closed k S (f a) (g b)) :
    Follows extra closed k S (Pure.pure a >>= f) (Pure.pure b >>= g) := by
  rwa [pure_bind, pure_bind]

theorem failBind : Follows extra closed k S (Parser.fail >>= f) (Parser.fail >>= g) where
  takes hp := by cases hp
  goes _ hp _ := by cases hp
  stops _ _ _ _ hts hp := by
    cases hp
    exact ⟨_, rfl, hts⟩

theorem map {f g : α → β} (h : Follows extra closed k R p q)
    (hf : ∀ a b, R a b → S (f a) (g b)) : Follows extra closed k S (f <$> p) (g <$> q) where
  takes hp := by
    obtain ⟨a, hp, _⟩ := run_map_ok.1 hp
    exact h.takes hp
  goes hts hp hrest := by
    obtain ⟨a, hpa, rfl⟩ := run_map_ok.1 hp
    obtain ⟨b, rest', hq, hab, hrest'⟩ := h.goes hts hpa hrest
    exact ⟨g b, rest', run_map_ok.2 ⟨b, hq, rfl⟩, hf a b hab, hrest'⟩
  stops hended {ts us rest} hts hp := by
    obtain ⟨rest', hq, hrest'⟩ := h.stops hended hts (run_map_error.1 hp)
    exact ⟨rest', run_map_error.2 hq, hrest'⟩

theorem ite {c : Prop} [Decidable c] {p' q' : Parser α} (h : c → Follows extra closed k R p q)
    (h' : ¬c → Follows extra closed k R p' q') :
    Follows extra closed k R (if c then p else p') (if c then q else q') := by
  split
  · exact h ‹_›
  · exact h' ‹_›

/-- A parser that starts in one of two ways and then goes on in one way. -/
theorem bindIte [Std.Refl R] [Guarded o closed (k - m)] {c : Prop} [Decidable c]
    {p' q' : Parser α} (h : c → Follows extra o m R p q) (h' : ¬c → Follows extra o m R p' q')
    (hf : ∀ a b, R a b → Follows extra closed (k - m) S (f a) (g b)) :
    Follows extra closed k S (if c then p >>= f else p' >>= f)
      (if c then q >>= g else q' >>= g) := by
  split
  · exact (h ‹_›).bind hf
  · exact (h' ‹_›).bind hf

/-! ### What comes next -/

theorem place : Follows extra true 0 (fun _ _ => True) place place where
  takes hp := by
    cases hp
    exact Nat.le_refl _
  goes hts hp _ := by
    cases hp
    exact ⟨_, _, rfl, trivial, hts⟩
  stops _ _ _ _ _ hp := by cases hp

theorem left : Follows extra true 0 extra.Fuels left left where
  takes hp := by
    cases hp
    exact Nat.le_refl _
  goes hts hp _ := by
    cases hp
    refine ⟨_, _, rfl, ?_, hts⟩
    cases extra
    · exact hts.length_eq.symm
    · exact hts.length_le
  stops _ _ _ _ _ hp := by cases hp

theorem look : Follows extra false 0 Eq look look where
  takes hp := by
    cases hp
    exact Nat.le_refl _
  goes hts hp hrest := by
    cases hp
    refine ⟨_, _, rfl, ?_, hts⟩
    rcases hrest.resolve_left Bool.false_ne_true with rfl | hne
    · exact hts.head_ended.symm
    · exact (hts.head hne).symm
  stops _ _ _ _ _ hp := by cases hp

/-- A look one token further is safe before a parser that takes a token and leaves some. It is safe
as well where only a single token is left, if what the parser then does cannot succeed. -/
theorem lookFurther {f g : Option Terminal → Parser β}
    (h : ∀ t, Follows extra closed k S (f t) (g t))
    (hk : closed = false ∧ 1 ≤ k ∨ Follows extra closed 2 S (f none) (g none)) :
    Follows extra closed k S (lookFurther >>= f) (Parser.lookFurther >>= g) where
  takes hp := by
    obtain ⟨t, mid, ht, hf⟩ := run_bind_ok.1 hp
    cases ht
    exact (h _).takes hf
  goes {ts us c rest} hts hp hrest := by
    obtain ⟨t, mid, ht, hf⟩ := run_bind_ok.1 hp
    cases ht
    have hsame : us.tail.head?.map Token.terminal = ts.tail.head?.map Token.terminal := by
      by_cases hended : extra = .ended
      · subst hended
        exact hts.tail_ended.head_ended
      have hlong : 2 ≤ ts.length := by
        rcases hk with ⟨hclosed, hk⟩ | hnone
        · have htakes := (h _).takes hf
          rw [or_iff_right (by simp [hclosed]), or_iff_right hended] at hrest
          have hpos := List.length_pos_iff.2 hrest
          omega
        · cases ts with
          | nil => exact Nat.le_trans (Nat.le_add_left 2 _) (hnone.takes hf)
          | cons t ts =>
            cases ts with
            | nil => exact Nat.le_trans (Nat.le_add_left 2 _) (hnone.takes hf)
            | cons _ _ => exact Nat.le_add_left 2 _
      have hne : ts ≠ [] := by
        rintro rfl
        simp at hlong
      have htail : ts.tail ≠ [] := by
        refine List.ne_nil_of_length_pos ?_
        rw [List.length_tail]
        omega
      exact (hts.tail hne).head htail
    obtain ⟨c', rest', hg, hcd, hrest'⟩ := (h _).goes hts hf hrest
    refine ⟨c', rest', run_bind_ok.2 ⟨_, us, rfl, ?_⟩, hcd, hrest'⟩
    rw [hsame]
    exact hg
  stops hended {ts us rest} hts hp := by
    obtain ⟨t, mid, ht, hf⟩ := (run_bind_error.1 hp).resolve_left nofun
    cases ht
    obtain ⟨rest', hg, hrest'⟩ := (h _).stops hended hts hf
    refine ⟨rest', run_bind_error.2 (.inr ⟨_, us, rfl, ?_⟩), hrest'⟩
    rw [hts.tail_ended.head_ended]
    exact hg

/-! ### Taking tokens -/

theorem takeAny (test : Terminal → Bool) :
    Follows extra true 1 Token.Matches (takeIf test) (takeIf test) where
  takes hp := by
    obtain ⟨rfl, _⟩ := run_takeIf_ok.1 hp
    exact Nat.le_refl _
  goes hts hp _ := by
    obtain ⟨rfl, ht⟩ := run_takeIf_ok.1 hp
    cases hts with
    | cons htu hrest =>
      rw [htu.terminal] at ht
      exact ⟨_, _, run_takeIf_ok.2 ⟨rfl, ht⟩, htu, hrest⟩
  stops _ _ _ _ hts hp := by
    obtain ⟨rfl, ht⟩ := run_takeIf_error.1 hp
    exact ⟨_, run_takeIf_error.2 ⟨rfl, by rwa [hts.head_ended]⟩, hts⟩

/-- A token that is no terminator is taken with its text. -/
theorem takeIf {test : Terminal → Bool} (h : test .terminator = false) :
    Follows extra true 1 Token.SameSpelling (takeIf test) (takeIf test) where
  takes hp := (takeAny test : Follows extra true 1 _ _ _).takes hp
  goes hts hp _ := by
    obtain ⟨u, rest', hq, htu, hrest⟩ := (takeAny test).goes hts hp (.inl rfl)
    obtain ⟨_, ht⟩ := run_takeIf_ok.1 hp
    refine ⟨u, rest', hq, ⟨htu.terminal, htu.text ?_⟩, hrest⟩
    intro hterminator
    rw [hterminator, h] at ht
    cases ht
  stops := (takeAny test).stops

theorem discard (h : Follows extra closed k R p q) :
    Follows extra closed k Eq (discard p) (discard q) := h.map fun _ _ _ => rfl

theorem punctuator (p : Punctuator) :
    Follows extra true 1 Eq (punctuator p) (Parser.punctuator p) := (takeAny _).discard

theorem word (w : Word) : Follows extra true 1 Eq (word w) (Parser.word w) := (takeAny _).discard

theorem terminator : Follows extra true 1 Eq terminator terminator := (takeAny _).discard

theorem taken (t : Terminal) : Follows extra false 0 Eq (taken t) (Parser.taken t) := by
  refine .bind look ?_
  rintro a _ rfl
  refine .ite (fun _ => ?_) fun _ => .pure rfl
  exact (bind (k := 1) (takeAny _).discard fun _ _ _ => .pure rfl).mono id (by decide) fun _ _ => id

/-- A parser that goes on one way behind a token and another way without it. -/
theorem ifTaken [Guarded false closed k] {t : Terminal} {p p' q q' : Parser β}
    (hyes : Follows extra closed (k - 1) S p p') (hno : Follows extra closed k S q q') :
    Follows extra closed k S (Parser.taken t >>= fun b => if b = true then p else q)
      (Parser.taken t >>= fun b => if b = true then p' else q') := by
  unfold Parser.taken
  rw [bind_assoc, bind_assoc]
  refine .bind look ?_
  rintro a _ rfl
  by_cases ha : a = some t
  · simp only [if_pos ha, bind_assoc, pure_bind, if_true]
    exact bind (takeAny _).discard fun _ _ _ => hyes
  · simpa only [if_neg ha, pure_bind, Bool.false_eq_true, if_false, Nat.sub_zero] using hno

end Follows

/-! ## The ends of statements -/

namespace Follows

variable {extra : Sequel} (hextra : Inert extra.tokens)
include hextra

theorem lookProlonging : Follows extra true 0 SameProlonging Parser.look Parser.look where
  takes hp := by
    cases hp
    exact Nat.le_refl _
  goes {ts us a rest} hts hp _ := by
    cases hp
    refine ⟨_, us, rfl, fun t ht => ?_, hts⟩
    by_cases hne : ts = []
    · subst hne
      generalize extra.tokens = tokens at hts hextra
      cases hts
      constructor
      · intro h
        cases h
      · intro h
        obtain ⟨u, hu, rfl⟩ := Option.map_eq_some_iff.1 h
        rw [hextra u hu] at ht
        cases ht
    · rw [hts.head hne]
  stops _ _ _ _ _ hp := by cases hp

theorem takenProlonging {t : Terminal} (ht : prolongs t = true) :
    Follows extra true 0 Eq (Parser.taken t) (Parser.taken t) := by
  refine .bind (lookProlonging hextra) fun a b hab => ?_
  by_cases ha : a = some t
  · rw [if_pos ha, if_pos ((hab t ht).1 ha)]
    exact (bind (k := 1) (takeAny _).discard fun _ _ _ => .pure rfl).atLeast (Nat.zero_le _)
  · rw [if_neg ha, if_neg fun hb => ha ((hab t ht).2 hb)]
    exact .pure rfl

end Follows

/-! ## Lists -/

namespace Follows

variable {extra : Sequel} {closed : Bool} {k m n : Nat} [Placed α] {p q : Parser α}
  {p' q' : Parser (List α)} {close : Terminal}

theorem cons {a b : α} (hab : Alike a b) (h : Follows extra closed k Alike p' q') :
    Follows extra closed k Alike (do return a :: (← p')) (do return b :: (← q')) :=
  bind_pure_comp (m := Parser) _ p' ▸ bind_pure_comp (m := Parser) _ q' ▸
    h.map fun _ _ has => List.cons_eq_cons.2 ⟨hab, has⟩

theorem moreItems (h : Follows extra false 1 Alike p q) (hn : extra.Fuels n m) :
    Follows extra true 1 Alike (moreItems p close n) (Parser.moreItems q close m) := by
  induction n generalizing m with
  | zero => exact .exhausted rfl hn
  | succ n ih =>
    obtain ⟨m, rfl⟩ := hn.exists_succ
    refine .ifTaken (.pure rfl) (.bind (.punctuator _) fun _ _ _ => .atLeast (m := 1) ?_ (by decide))
    refine .ifTaken (.pure rfl) (.atLeast (m := 2) (.bind h fun a b hab => ?_) (by decide))
    exact .cons hab (ih (hn.of_succ))

theorem items (h : Follows extra false 1 Alike p q) :
    Follows extra true 1 Alike (items p close) (Parser.items q close) := by
  refine .ifTaken (.pure rfl) (.atLeast (m := 2) (.bind h fun a b hab => ?_) (by decide))
  refine .bind left fun m n hmn => ?_
  exact .cons hab (moreItems h (hmn.succ))

theorem moreParts (h : Follows extra false 1 Alike p q) (hn : extra.Fuels n m) :
    Follows extra false 0 Alike (moreParts p n) (Parser.moreParts q m) := by
  induction n generalizing m with
  | zero => exact .exhausted rfl hn
  | succ n ih =>
    obtain ⟨m, rfl⟩ := hn.exists_succ
    refine .ifTaken (.atLeast (m := 1) (.bind h fun a b hab => ?_) (by decide)) (.pure rfl)
    exact .cons hab (ih (hn.of_succ))

theorem parts (h : Follows extra false 1 Alike p q) :
    Follows extra false 1 Alike (parts p) (Parser.parts q) := by
  refine .bind h fun a b hab => .bind left fun m n hmn => ?_
  exact .cons hab (moreParts h (hmn.succ))

theorem manyUntil (h : Follows extra closed 1 Alike p q) {stop : Option Terminal → Bool}
    (hn : extra.Fuels n m) :
    Follows extra false 0 Alike (manyUntil p stop n) (Parser.manyUntil q stop m) := by
  induction n generalizing m with
  | zero => exact .exhausted rfl hn
  | succ n ih =>
    obtain ⟨m, rfl⟩ := hn.exists_succ
    refine .bind look ?_
    rintro a _ rfl
    refine .ite (fun _ => .pure rfl) fun _ => .atLeast (m := 1) (.bind h fun a b hab => ?_) (by decide)
    exact .cons hab (ih (hn.of_succ))

theorem itemsUntil (h : Follows extra closed 1 Alike p q) :
    Follows extra true 1 Alike (itemsUntil p close) (Parser.itemsUntil q close) := by
  refine .bind left fun m n hmn => .bind (manyUntil h (hmn.succ)) fun as bs has => ?_
  exact .bind (takeAny _).discard fun _ _ _ => .pure has

end Follows

end Parser

end ModuleLowering
