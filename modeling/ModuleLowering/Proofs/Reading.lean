import ModuleLowering.Proofs.Following
import ModuleLowering.Proofs.Languages

/-!
# Parsers and the languages they read

A parser is sound for a language if what it takes is a word of the language, and complete for one if
it takes each word of it wherever the tokens behind the word meet a condition: they must not go on
with the word. Completeness is bounded by the length of the word, since a parser of limited fuel
reads words of limited length. Rules for the parts of a parser give both facts for the whole, and
ask in turn what a word of the next part may start with.
-/

set_option autoImplicit false

namespace ModuleLowering

open Computability

def terminals (ts : List Token) : List Terminal := ts.map Token.terminal

/-! ## What may come next -/

/-- A condition on the terminals that come next. -/
abbrev Follow := List Terminal → Prop

namespace Follow

def any : Follow := fun _ => True

/-- The next terminal and the one behind it pass the test. -/
def opens (c : Terminal → Option Terminal → Bool) : Follow :=
  fun v => ∃ t u, v = t :: u ∧ c t u.head? = true

/-- The next terminal passes the test. -/
abbrev starts (c : Terminal → Bool) : Follow := opens fun t _ => c t

/-- One of these terminals comes next. -/
abbrev among (ts : List Terminal) : Follow := starts ts.contains

/-- None of these terminals comes next. -/
def without (ts : List Terminal) : Follow := fun v => ∀ t ∈ ts, v.head? ≠ some t

variable {c d : Terminal → Option Terminal → Bool} {f g : Terminal → Bool} {t : Terminal}
  {ts us v : List Terminal}

theorem opens_cons : opens c (t :: v) ↔ c t v.head? = true := by
  constructor
  · rintro ⟨u, w, huw, h⟩
    cases huw
    exact h
  · exact fun h => ⟨t, v, rfl, h⟩

theorem opens.mono (h : opens c v) (hcd : ∀ t o, c t o = true → d t o = true) : opens d v := by
  obtain ⟨t, u, rfl, h⟩ := h
  exact ⟨t, u, rfl, hcd t _ h⟩

theorem starts_cons : starts f (t :: v) ↔ f t = true := opens_cons

theorem starts.mono (h : starts f v) (hfg : ∀ t, f t = true → g t = true) : starts g v :=
  opens.mono h fun t _ => hfg t

theorem among_cons (h : t ∈ ts) : among ts (t :: v) := starts_cons.2 (List.contains_iff_mem.2 h)

theorem without_cons (h : t ∉ ts) : without ts (t :: v) := by
  rintro u hu hv
  cases hv
  exact h hu

theorem starts.without (h : starts f v) (hts : ∀ t ∈ ts, f t = false) : without ts v := by
  obtain ⟨t, u, rfl, ht⟩ := h
  exact without_cons fun hmem => Bool.false_ne_true ((hts t hmem).symm.trans ht)

theorem among.without (h : among us v) (hts : ∀ t ∈ ts, t ∉ us) : without ts v :=
  starts.without h fun t ht => by simpa using hts t ht

theorem among.head_ne (h : among ts v) (ht : t ∉ ts) : ¬v.head? = some t :=
  have hwithout : Follow.without [t] v := h.without (by simpa using ht)
  hwithout t List.mem_cons_self

theorem among.mono (h : among ts v) (hts : ∀ t ∈ ts, t ∈ us) : among us v :=
  starts.mono h fun t ht => List.contains_iff_mem.2 (hts t (List.contains_iff_mem.1 ht))

theorem among.opens (h : among ts v) (hc : ts.Forall fun t => ∀ o, c t o = true) : opens c v :=
  opens.mono (c := fun t _ => ts.contains t) h fun t o ht =>
    List.forall_iff_forall_mem.1 hc t (List.contains_iff_mem.1 ht) o

theorem without.mono (h : without us v) (hts : ts ⊆ us) : without ts v := fun t ht => h t (hts ht)

/-- A look at the next terminal. -/
theorem starts_iff : starts f v ↔ (v.head?.map f).getD false = true := by
  constructor
  · rintro ⟨t, u, rfl, ht⟩
    exact ht
  · intro h
    cases v with
    | nil => cases h
    | cons t u => exact starts_cons.2 h

theorem without.not_starts (h : without ts v) (hf : ∀ t, f t = true → t ∈ ts) :
    ¬(v.head?.map f).getD false = true := by
  intro hnext
  obtain ⟨t, u, rfl, ht⟩ := starts_iff.2 hnext
  exact h t (hf t ht) rfl

theorem starts.not_starts (h : starts g v) (hf : ∀ t, g t = true → f t = false) :
    ¬(v.head?.map f).getD false = true := by
  obtain ⟨t, u, rfl, ht⟩ := h
  exact Bool.eq_false_iff.1 (hf t ht)

end Follow

/-- Before what meets the second condition, every word of the language meets the first one. -/
def Leads (L : Language Terminal) (G F : Follow) : Prop := ∀ w ∈ L, ∀ v, G v → F (w ++ v)

/-- Every word of the language meets the condition, whatever comes behind it. -/
def Begins (L : Language Terminal) (F : Follow) : Prop := Leads L .any F

namespace Leads

variable {L M : Language Terminal} {F F' G H : Follow}

theorem any : Leads L G .any := fun _ _ _ _ => trivial

theorem one (h : ∀ v, G v → F v) : Leads 1 G F := by
  rintro w rfl v hv
  exact h v hv

theorem zero : Leads 0 G F := fun _ hw => hw.elim

theorem alone {t : Terminal} (h : ∀ v, G v → F (t :: v)) : Leads t.alone G F := by
  rintro w rfl v hv
  exact h v hv

theorem mul (hL : Leads L H F) (hM : Leads M G H) : Leads (L * M) G F := by
  rintro w ⟨a, ha, b, hb, rfl⟩ v hv
  rw [List.append_assoc]
  exact hL a ha _ (hM b hb v hv)

theorem add (hL : Leads L G F) (hM : Leads M G F) : Leads (L + M) G F := by
  rintro w (hw | hw)
  · exact hL w hw
  · exact hM w hw

theorem kstar (hL : Leads L F F) (h : ∀ v, G v → F v) : Leads L∗ G F := by
  rintro w ⟨ws, rfl, hws⟩ v hv
  induction ws with
  | nil => exact h v hv
  | cons w ws ih =>
    rw [List.flatten_cons, List.append_assoc]
    exact hL w (hws w List.mem_cons_self) _ (ih fun y hy => hws y (List.mem_cons_of_mem _ hy))

theorem mono (h : Leads L G F) (hF : ∀ v, F v → F' v) : Leads L G F' :=
  fun w hw v hv => hF _ (h w hw v hv)

theorem le (h : Leads M G F) (hL : L ≤ M) : Leads L G F := fun w hw => h w (hL hw)

theorem of_begins (h : Begins L F) : Leads L G F := fun w hw v _ => h w hw v trivial

end Leads

namespace Begins

variable {L M : Language Terminal} {F G : Follow} {t : Terminal}

theorem mul (h : Begins L F) : Begins (L * M) F := Leads.mul h .any

theorem add (hL : Begins L F) (hM : Begins M F) : Begins (L + M) F := Leads.add hL hM

theorem mono (h : Begins L F) (hF : ∀ v, F v → G v) : Begins L G := Leads.mono h hF

theorem alone (h : ∀ v, F (t :: v)) : Begins t.alone F := Leads.alone fun v _ => h v

/-- What a word begins with, as a condition on what comes before it. -/
theorem leads (h : Begins L F) : Leads (L * M) G F := .of_begins h.mul

theorem without {f : Terminal → Bool} {T : List Terminal} (h : Begins L (.starts f))
    (hT : ∀ t ∈ T, f t = false) : Begins L (.without T) := h.mono fun _ hv => hv.without hT

theorem head_ne {f : Terminal → Bool} (h : Begins L (.starts f)) (ht : f t = false) :
    Begins L fun v => ¬v.head? = some t :=
  (h.without (T := [t]) (by simpa using ht)).mono fun _ hv => hv t List.mem_cons_self

/-- A word that begins with a terminal is not empty. -/
theorem ne_nil {c : Terminal → Option Terminal → Bool} (h : Begins L (.opens c))
    {w : List Terminal} (hw : w ∈ L) : w ≠ [] := by
  rintro rfl
  obtain ⟨t, u, hcons, _⟩ := h [] hw [] trivial
  cases hcons

theorem one_le_length {c : Terminal → Option Terminal → Bool} (h : Begins L (.opens c)) :
    ∀ w ∈ L, 1 ≤ w.length := fun _ hw => List.length_pos_iff.2 (h.ne_nil hw)

end Begins

theorem Leads.front {t : Terminal} {M : Language Terminal} {F G : Follow} (h : ∀ v, F (t :: v)) :
    Leads (t.alone * M) G F := (Begins.alone h).leads

namespace Parser

variable {α β : Type}

/-! ## Answers that pass a test -/

/-- A parser that fails where its answer does not pass a test. -/
def having (c : α → Bool) (p : Parser α) : Parser α := do
  let a ← p
  if c a then return a else fail

theorem having_bind (c : β → Bool) (p : Parser α) (f : α → Parser β) :
    having c (p >>= f) = p >>= fun a => having c (f a) := bind_assoc p f _

theorem having_map {c : β → Bool} {d : α → Bool} {g : α → β} (h : ∀ a, c (g a) = d a)
    (p : Parser α) : having c (p >>= fun a => pure (g a)) = having d p >>= fun a => pure (g a) := by
  unfold having
  rw [bind_assoc, bind_assoc]
  refine congrArg (p >>= ·) (funext fun a => ?_)
  rw [pure_bind, h a]
  split
  · rfl
  · rfl

theorem having_ite (c : α → Bool) {b : Prop} [Decidable b] (p q : Parser α) :
    having c (if b then p else q) = if b then having c p else having c q :=
  apply_ite (having c) b p q

theorem having_pure {c : α → Bool} {a : α} (h : c a = true) : having c (pure a) = pure a := by
  simp [having, h]

theorem having_pure_of_false {c : α → Bool} {a : α} (h : c a = false) :
    having c (pure a) = fail := by
  simp [having, h]

theorem run_having_ok {c : α → Bool} {p : Parser α} {ts rest : List Token} {a : α} :
    (having c p).run ts = .ok (a, rest) ↔ p.run ts = .ok (a, rest) ∧ c a = true := by
  unfold having
  rw [run_bind_ok]
  constructor
  · rintro ⟨b, mid, hp, hc⟩
    by_cases hb : c b = true
    · rw [if_pos hb] at hc
      obtain ⟨rfl, rfl⟩ := run_pure_ok.1 hc
      exact ⟨hp, hb⟩
    · rw [if_neg hb] at hc
      cases hc
  · rintro ⟨hp, hc⟩
    exact ⟨a, rest, hp, by rw [if_pos hc]; rfl⟩

/-! ## Soundness and completeness -/

/-- What the parser takes is a word of the language. -/
structure Sound (p : Parser α) (L : Language Terminal) : Prop where
  takes : ∀ {ts a rest}, p.run ts = .ok (a, rest) → ∃ pre, ts = pre ++ rest ∧ terminals pre ∈ L

/-- The parser takes every word of the language that has less than `n` terminals and that is
followed by what meets the condition. -/
structure Complete (n : ℕ) (F : Follow) (p : Parser α) (L : Language Terminal) : Prop where
  goes : ∀ {pre rest}, terminals pre ∈ L → pre.length < n → F (terminals rest) →
    ∃ a, p.run (pre ++ rest) = .ok (a, rest)

/-- A parser that is sound and complete for a language. -/
structure Reads (n : ℕ) (F : Follow) (p : Parser α) (L : Language Terminal) : Prop where
  sound : Sound p L
  complete : Complete n F p L

theorem exists_append_of_mem_mul {L M : Language Terminal} {ts : List Token}
    (h : terminals ts ∈ L * M) : ∃ us vs, ts = us ++ vs ∧ terminals us ∈ L ∧ terminals vs ∈ M := by
  obtain ⟨u, hu, v, hv, huv⟩ := h
  obtain ⟨us, vs, rfl, rfl, rfl⟩ := List.map_eq_append_iff.1 huv.symm
  exact ⟨us, vs, rfl, hu, hv⟩

theorem exists_cons_of_terminals {t : Terminal} {v : List Terminal} {ts : List Token}
    (h : t :: v = terminals ts) : ∃ u us, ts = u :: us ∧ u.terminal = t ∧ terminals us = v :=
  List.map_eq_cons_iff.1 h.symm

theorem terminals_append (ts us : List Token) :
    terminals (ts ++ us) = terminals ts ++ terminals us := List.map_append

theorem taken_bind_ite (t : Terminal) (p q : Parser α) :
    (taken t >>= fun b => if b = true then p else q) =
      look >>= fun o => if o = some t then discard (take t) >>= fun _ => p else q := by
  unfold taken
  rw [bind_assoc]
  refine congrArg (look >>= ·) (funext fun o => ?_)
  split <;> simp

theorem taken_bind (t : Terminal) (f : Bool → Parser β) :
    taken t >>= f = taken t >>= fun b => if b = true then f true else f false :=
  congrArg (taken t >>= ·) (funext fun b => by cases b <;> rfl)

namespace Sound

variable {p q : Parser α} {f : α → Parser β} {L L' M M' : Language Terminal}

theorem mono (h : Sound p L) (hL : L ≤ M) : Sound p M where
  takes hp := by
    obtain ⟨pre, hts, hpre⟩ := h.takes hp
    exact ⟨pre, hts, hL hpre⟩

theorem fail : Sound (fail : Parser α) L where
  takes hp := by cases hp

theorem pure (a : α) : Sound (pure a) 1 where
  takes hp := by
    obtain ⟨-, rfl⟩ := run_pure_ok.1 hp
    exact ⟨[], rfl, rfl⟩

theorem bind (hp : Sound p L) (hf : ∀ a, Sound (f a) M) : Sound (p >>= f) (L * M) where
  takes hr := by
    obtain ⟨a, mid, hr, hr'⟩ := run_bind_ok.1 hr
    obtain ⟨us, rfl, hus⟩ := hp.takes hr
    obtain ⟨vs, rfl, hvs⟩ := (hf a).takes hr'
    exact ⟨us ++ vs, (List.append_assoc ..).symm, _, hus, _, hvs, (terminals_append us vs).symm⟩

/-- What is taken behind the first part depends on its answer. -/
theorem bindHaving {c : α → Bool} (h : Sound (having c p) L)
    (h' : Sound (having (fun a => !c a) p) L') (hf : ∀ a, c a = true → Sound (f a) M)
    (hf' : ∀ a, c a = false → Sound (f a) M') : Sound (p >>= f) (L * M + L' * M') where
  takes {ts b rest} hr := by
    obtain ⟨a, mid, hp, hrest⟩ := run_bind_ok.1 hr
    cases hc : c a with
    | true =>
      obtain ⟨us, rfl, hus⟩ := h.takes (run_having_ok.2 ⟨hp, hc⟩)
      obtain ⟨vs, rfl, hvs⟩ := (hf a hc).takes hrest
      exact ⟨us ++ vs, (List.append_assoc ..).symm,
        .inl ⟨_, hus, _, hvs, (terminals_append us vs).symm⟩⟩
    | false =>
      obtain ⟨us, rfl, hus⟩ := h'.takes (run_having_ok.2 ⟨hp, by rw [hc]; rfl⟩)
      obtain ⟨vs, rfl, hvs⟩ := (hf' a hc).takes hrest
      exact ⟨us ++ vs, (List.append_assoc ..).symm,
        .inr ⟨_, hus, _, hvs, (terminals_append us vs).symm⟩⟩

/-- A parser that goes on with some answers only. -/
theorem bindOnly {c : α → Bool} (h : Sound (having c p) L) (hf : ∀ a, c a = true → Sound (f a) M)
    (hnone : ∀ a, c a = false → Sound (f a) 0) : Sound (p >>= f) (L * M) where
  takes hr := by
    obtain ⟨a, mid, hp, hrest⟩ := run_bind_ok.1 hr
    cases hc : c a with
    | true =>
      obtain ⟨us, rfl, hus⟩ := h.takes (run_having_ok.2 ⟨hp, hc⟩)
      obtain ⟨vs, rfl, hvs⟩ := (hf a hc).takes hrest
      exact ⟨us ++ vs, (List.append_assoc ..).symm, _, hus, _, hvs, (terminals_append us vs).symm⟩
    | false =>
      obtain ⟨_, _, hnever⟩ := (hnone a hc).takes hrest
      exact hnever.elim

theorem tested {c : α → Bool} (h : Sound p L) : Sound (having c p) L where
  takes hr := h.takes (run_having_ok.1 hr).1

theorem map {g : α → β} (hp : Sound p L) : Sound (p >>= fun a => Pure.pure (g a)) L :=
  mul_one L ▸ hp.bind fun a => .pure (g a)

theorem fmap {g : α → β} (hp : Sound p L) : Sound (g <$> p) L := bind_pure_comp g p ▸ hp.map

theorem pureBind {a : α} (h : Sound (f a) L) : Sound (Pure.pure a >>= f) L := by
  rwa [pure_bind]

theorem place {f : Option Position → Parser β} (h : ∀ s, Sound (f s) L) :
    Sound (place >>= f) L := ⟨fun hr => (h _).takes hr⟩

theorem look {f : Option Terminal → Parser β} (h : ∀ o, Sound (f o) L) :
    Sound (look >>= f) L := ⟨fun hr => (h _).takes hr⟩

theorem lookFurther {f : Option Terminal → Parser β} (h : ∀ o, Sound (f o) L) :
    Sound (lookFurther >>= f) L := ⟨fun hr => (h _).takes hr⟩

theorem left {f : ℕ → Parser β} (h : ∀ m, Sound (f m) L) : Sound (left >>= f) L :=
  ⟨fun hr => (h _).takes hr⟩

theorem takeIf (test : Terminal → Bool) : Sound (takeIf test) (anyOf test) where
  takes hr := by
    obtain ⟨rfl, ht⟩ := run_takeIf_ok.1 hr
    exact ⟨[_], rfl, _, ht, rfl⟩

/-- What comes behind the first part cannot be read. -/
theorem never (hf : ∀ a, Sound (f a) 0) : Sound (p >>= f) L where
  takes hr := by
    obtain ⟨a, mid, _, hr⟩ := run_bind_ok.1 hr
    obtain ⟨_, _, h⟩ := (hf a).takes hr
    exact h.elim

/-- What comes behind the first part does not pass the test. -/
theorem rejected {c : β → Bool} {f : α → Parser β} (hf : ∀ a, Sound (having c (f a)) 0) :
    Sound (having c (p >>= f)) L := by
  rw [having_bind]
  exact .never hf

theorem choice {ps : List Phrase} {q : Phrase} (h : Sound p q.language) (hq : q ∈ ps) :
    Sound p (Phrase.choice ps).language := h.mono fun _ hw => .choice hq hw

/-- What is read is one of the alternatives of a rule. -/
theorem rule {r : Rule} {q : Phrase} (h : Sound p q.language) (hq : q ∈ r.alternatives) :
    Sound p r.language := h.mono (Rule.language_le hq)

theorem ite {c : Prop} [Decidable c] (hp : c → Sound p L) (hq : ¬c → Sound q L) :
    Sound (if c then p else q) L := by
  split
  · exact hp ‹_›
  · exact hq ‹_›

theorem step {t : Terminal} {f : Unit → Parser β} (h : Sound (f ()) M) :
    Sound (discard (Parser.take t) >>= f) (t.alone * M) := by
  have htake : Sound (discard (Parser.take t)) t.alone :=
    (takeIf _).map.mono (anyOf_eq_alone t).le
  exact htake.bind fun _ => h

theorem lookIf {c : Option Terminal → Prop} [DecidablePred c] (hp : Sound p L) (hq : Sound q M) :
    Sound (Parser.look >>= fun o => if c o then p else q) (L + M) :=
  .look fun _ => .ite (fun _ => hp.mono le_self_add) fun _ => hq.mono le_add_self

theorem ifTaken {t : Terminal} (hp : Sound p L) (hq : Sound q M) :
    Sound (Parser.taken t >>= fun b => if b = true then p else q) (t.alone * L + M) := by
  rw [taken_bind_ite]
  exact lookIf (c := (· = some t)) (step hp) hq

theorem takenBind {t : Terminal} {f : Bool → Parser β} (hp : Sound (f true) M)
    (hq : Sound (f false) M') : Sound (Parser.taken t >>= f) (t.alone * M + M') := by
  rw [taken_bind]
  exact ifTaken hp hq

end Sound

namespace Complete

variable {n m : ℕ} {F G : Follow} {p q : Parser α} {f : α → Parser β} {L M : Language Terminal}

theorem zero : Complete 0 F p L := ⟨fun _ hlength => absurd hlength (Nat.not_lt_zero _)⟩

theorem mono (h : Complete m G p M) (hn : n ≤ m) (hL : L ≤ M) (hF : ∀ v, F v → G v) :
    Complete n F p L :=
  ⟨fun hpre hlength hrest => h.goes (hL hpre) (Nat.lt_of_lt_of_le hlength hn) (hF _ hrest)⟩

theorem shorter (h : Complete m F p L) (hn : n ≤ m) : Complete n F p L :=
  h.mono hn le_rfl fun _ => id

theorem pure (a : α) : Complete n F (pure a) 1 where
  goes {pre rest} hpre _ _ := by
    obtain rfl : pre = [] := List.map_eq_nil_iff.1 hpre
    exact ⟨a, rfl⟩

theorem add (hL : Complete n F p L) (hM : Complete n F p M) : Complete n F p (L + M) where
  goes hpre := hpre.elim hL.goes hM.goes

theorem choice {ps : List Phrase} (h : ps.Forall fun q => Complete n F p q.language) :
    Complete n F p (Phrase.choice ps).language where
  goes hpre hlength hrest := by
    cases hpre with
    | choice hq hpre => exact (List.forall_iff_forall_mem.1 h _ hq).goes hpre hlength hrest

/-- A rule is read where each of its alternatives is. -/
theorem rule {r : Rule} (h : r.alternatives.Forall fun q => Complete n F p q.language) :
    Complete n F p r.language := by
  rw [Rule.language_eq]
  exact choice h

/-- What comes next may depend on the first part. Where the first part is not empty, less is left
for the second one. -/
theorem bindDown {d : ℕ} (hp : Complete n F p L) (hf : ∀ a, Complete (n - d) G (f a) M)
    (hM : Leads M G F) (hL : ∀ w ∈ L, d ≤ w.length) : Complete n G (p >>= f) (L * M) where
  goes {pre rest} hpre hlength hrest := by
    obtain ⟨us, vs, rfl, hus, hvs⟩ := exists_append_of_mem_mul hpre
    have hlong := hL _ hus
    rw [terminals, List.length_map] at hlong
    rw [List.length_append] at hlength
    obtain ⟨a, ha⟩ := hp.goes hus (by omega) (terminals_append vs rest ▸ hM _ hvs _ hrest)
    obtain ⟨b, hb⟩ := (hf a).goes hvs (by omega) hrest
    exact ⟨b, run_bind_ok.2 ⟨a, vs ++ rest, by rw [List.append_assoc, ha], hb⟩⟩

theorem bind (hp : Complete n F p L) (hf : ∀ a, Complete n G (f a) M) (hM : Leads M G F) :
    Complete n G (p >>= f) (L * M) :=
  hp.bindDown (d := 0) hf hM fun _ _ => Nat.zero_le _

/-- A word that is read with an answer that passes a test. -/
theorem bindHaving {c : α → Bool} {d : ℕ} (h : Complete n F (having c p) L)
    (hf : ∀ a, c a = true → Complete (n - d) G (f a) M) (hM : Leads M G F)
    (hL : ∀ w ∈ L, d ≤ w.length) : Complete n G (p >>= f) (L * M) where
  goes {pre rest} hpre hlength hrest := by
    obtain ⟨us, vs, rfl, hus, hvs⟩ := exists_append_of_mem_mul hpre
    have hlong := hL _ hus
    rw [terminals, List.length_map] at hlong
    rw [List.length_append] at hlength
    obtain ⟨a, ha⟩ := h.goes hus (by omega) (terminals_append vs rest ▸ hM _ hvs _ hrest)
    obtain ⟨ha, hc⟩ := run_having_ok.1 ha
    obtain ⟨b, hb⟩ := (hf a hc).goes hvs (by omega) hrest
    exact ⟨b, run_bind_ok.2 ⟨a, vs ++ rest, by rw [List.append_assoc, ha], hb⟩⟩

theorem map {g : α → β} (hp : Complete n F p L) :
    Complete n F (p >>= fun a => Pure.pure (g a)) L :=
  mul_one L ▸ hp.bind (fun a => .pure (g a)) (.one fun _ => id)

theorem fmap {g : α → β} (hp : Complete n F p L) : Complete n F (g <$> p) L :=
  bind_pure_comp g p ▸ hp.map

theorem pureBind {a : α} (h : Complete n F (f a) L) : Complete n F (Pure.pure a >>= f) L := by
  rwa [pure_bind]

theorem place {f : Option Position → Parser β} (h : ∀ s, Complete n F (f s) L) :
    Complete n F (place >>= f) L := ⟨fun hpre hlength hrest => (h _).goes hpre hlength hrest⟩

/-- A look ahead at a word that is followed by what meets the condition. -/
theorem look {f : Option Terminal → Parser β} {P : Option Terminal → Prop}
    (hL : Leads L F fun v => P v.head?) (h : ∀ o, P o → Complete n F (f o) L) :
    Complete n F (look >>= f) L where
  goes hpre hlength hrest := by
    refine (h _ ?_).goes hpre hlength hrest
    have hnext := hL _ hpre _ hrest
    rwa [← terminals_append, terminals, List.head?_map] at hnext

/-- A look ahead at a word that begins with a terminal. -/
theorem lookAt {f : Option Terminal → Parser β} (t : Terminal)
    (hL : Begins L fun v => v.head? = some t) (h : Complete n F (f (some t)) L) :
    Complete n F (Parser.look >>= f) L := by
  refine look (P := (· = some t)) (.of_begins hL) ?_
  rintro _ rfl
  exact h

/-- A look ahead at a word that begins with a terminal of a kind. -/
theorem lookStarts {f : Option Terminal → Parser β} {c : Terminal → Bool}
    (hL : Begins L (.starts c)) (h : ∀ t, c t = true → Complete n F (f (some t)) L) :
    Complete n F (Parser.look >>= f) L := by
  refine look (P := fun o => ∃ t, o = some t ∧ c t = true) (.of_begins (hL.mono ?_)) ?_
  · rintro _ ⟨t, u, rfl, ht⟩
    exact ⟨t, rfl, ht⟩
  · rintro _ ⟨t, rfl, ht⟩
    exact h t ht

theorem lookFurther {f : Option Terminal → Parser β} {P : Option Terminal → Prop}
    (hL : Leads L F fun v => P v.tail.head?) (h : ∀ o, P o → Complete n F (f o) L) :
    Complete n F (lookFurther >>= f) L where
  goes hpre hlength hrest := by
    refine (h _ ?_).goes hpre hlength hrest
    have hnext := hL _ hpre _ hrest
    rwa [← terminals_append, terminals, ← List.map_tail, List.head?_map] at hnext

/-- A look at the two terminals that come next. -/
theorem lookBoth {f : Option Terminal → Option Terminal → Parser β}
    {P : Option Terminal → Option Terminal → Prop} (hL : Leads L F fun v => P v.head? v.tail.head?)
    (h : ∀ o next, P o next → Complete n F (f o next) L) :
    Complete n F (Parser.look >>= fun o => Parser.lookFurther >>= f o) L where
  goes {pre rest} hpre hlength hrest := by
    have hP := hL _ hpre _ hrest
    rw [← terminals_append, terminals, List.head?_map, ← List.map_tail, List.head?_map] at hP
    obtain ⟨a, ha⟩ := (h _ _ hP).goes hpre hlength hrest
    exact ⟨a, run_bind_ok.2 ⟨_, _, run_look _, run_bind_ok.2 ⟨_, _, run_lookFurther _, ha⟩⟩⟩

/-- A look at the two terminals that come next before a word that begins with a terminal. -/
theorem lookFirst {f : Option Terminal → Option Terminal → Parser β} (t : Terminal)
    (hL : Begins L fun v => v.head? = some t) (h : ∀ next, Complete n F (f (some t) next) L) :
    Complete n F (Parser.look >>= fun o => Parser.lookFurther >>= f o) L := by
  refine lookBoth (P := fun o _ => o = some t) (.of_begins hL) ?_
  rintro _ next rfl
  exact h next

/-- A look at the two terminals that come next where there is one. -/
theorem lookOpens {f : Option Terminal → Option Terminal → Parser β}
    {c : Terminal → Option Terminal → Bool} (hL : Leads L F (.opens c))
    (h : ∀ t next, c t next = true → Complete n F (f (some t) next) L) :
    Complete n F (Parser.look >>= fun o => Parser.lookFurther >>= f o) L := by
  refine lookBoth (P := fun o next => ∃ t, o = some t ∧ c t next = true) (hL.mono ?_) ?_
  · rintro _ ⟨t, u, rfl, ht⟩
    exact ⟨t, rfl, ht⟩
  · rintro _ next ⟨t, rfl, ht⟩
    exact h t next ht

/-- The fuel of a loop is more than the number of tokens that are left. -/
theorem left {f : ℕ → Parser β} (h : ∀ m, Complete (min n (m + 1)) F (f m) L) :
    Complete n F (left >>= f) L where
  goes hpre hlength hrest := by
    refine (h _).goes hpre (Nat.lt_min.2 ⟨hlength, ?_⟩) hrest
    rw [List.length_append]
    omega

theorem takeIf (test : Terminal → Bool) : Complete n F (takeIf test) (anyOf test) where
  goes hpre _ _ := by
    obtain ⟨t, ht, hpre⟩ := hpre
    obtain ⟨u, us, rfl, rfl, hus⟩ := exists_cons_of_terminals hpre.symm
    obtain rfl : us = [] := List.map_eq_nil_iff.1 hus
    exact ⟨u, run_takeIf_ok.2 ⟨rfl, ht⟩⟩

theorem takeIfStep {test : Terminal → Bool} {f : Token → Parser β}
    (h : ∀ t, Complete (n - 1) G (f t) M) :
    Complete n G (Parser.takeIf test >>= f) (anyOf test * M) :=
  bindDown (F := .any) (takeIf test) h .any (by rintro w ⟨t, -, rfl⟩; exact le_rfl)

/-- A terminal that is taken. -/
theorem step {t : Terminal} {f : Unit → Parser β} (h : Complete (n - 1) G (f ()) M) :
    Complete n G (discard (Parser.take t) >>= f) (t.alone * M) := by
  have htake : Complete n .any (discard (Parser.take t)) t.alone :=
    (takeIf _).map.mono le_rfl (anyOf_eq_alone t).ge fun _ => id
  exact htake.bindDown (fun _ => h) .any (by rintro w rfl; exact le_rfl)

/-- Two ways to go on, as what comes next decides. -/
theorem lookIf {c : Option Terminal → Prop} [DecidablePred c] (hp : Complete n G p L)
    (hq : Complete n G q M) (hL : Leads L G fun v => c v.head?)
    (hM : Leads M G fun v => ¬c v.head?) :
    Complete n G (Parser.look >>= fun o => if c o then p else q) (L + M) := by
  refine .add (.look hL fun o ho => ?_) (.look (P := fun o => ¬c o) hM fun o ho => ?_)
  · rw [if_pos ho]
    exact hp
  · rw [if_neg ho]
    exact hq

/-- A parser that goes on one way behind a terminal and another way without it. -/
theorem ifTaken {t : Terminal} (hp : Complete (n - 1) G p L) (hq : Complete n G q M)
    (hM : Leads M G (.without [t])) :
    Complete n G (Parser.taken t >>= fun b => if b = true then p else q) (t.alone * L + M) := by
  rw [taken_bind_ite]
  refine lookIf (c := (· = some t)) (step hp) hq ?_ (hM.mono fun v hv => hv t List.mem_cons_self)
  exact .mul (.alone fun _ _ => rfl) .any

/-- A parser that is told whether a terminal is taken. -/
theorem takenBind {t : Terminal} {f : Bool → Parser β} {L' : Language Terminal}
    (hp : Complete (n - 1) G (f true) L') (hq : Complete n G (f false) M)
    (hM : Leads M G (.without [t])) : Complete n G (Parser.taken t >>= f) (t.alone * L' + M) := by
  rw [taken_bind]
  exact ifTaken hp hq hM

end Complete

/-- A parser that is sound however much it is asked to read. -/
theorem Sound.of_reads {p : Parser α} {L : Language Terminal} (h : Reads 0 .any p L) : Sound p L :=
  h.sound

theorem lookFurther_bind_look (f : Option Terminal → Option Terminal → Parser β) :
    (lookFurther >>= fun next => look >>= fun o => f o next) =
      look >>= fun o => lookFurther >>= f o := rfl

namespace Reads

variable {n m : ℕ} {F F' G : Follow} {p q : Parser α} {f : α → Parser β}
  {L L' M M' : Language Terminal}

theorem of_eq (h : Reads n F p L) (hL : M = L) : Reads n F p M := hL ▸ h

theorem mono (h : Reads m F p L) (hn : n ≤ m) : Reads n F p L :=
  ⟨h.sound, h.complete.mono hn le_rfl fun _ => id⟩

theorem before (h : Reads n F p L) (hF : ∀ v, G v → F v) : Reads n G p L :=
  ⟨h.sound, h.complete.mono le_rfl le_rfl hF⟩

/-- A parser that does not ask what comes next. -/
theorem anywhere (h : Reads m .any p L) (hn : n ≤ m) : Reads n F p L :=
  ⟨h.sound, h.complete.mono hn le_rfl fun _ _ => trivial⟩

theorem exhausted : Reads 0 F (fail : Parser α) L := ⟨.fail, .zero⟩

/-- A parser that nothing makes succeed. -/
theorem nothing (hf : ∀ a, Sound (f a) 0) : Reads n F (p >>= f) 0 :=
  ⟨.never hf, ⟨fun hpre => hpre.elim⟩⟩

theorem failBind {f : α → Parser β} : Reads n F (fail >>= f) 0 :=
  ⟨⟨fun hr => by cases hr⟩, ⟨fun hpre => hpre.elim⟩⟩

theorem pure (a : α) : Reads n F (pure a) 1 := ⟨.pure a, .pure a⟩

theorem bindDown {d : ℕ} (hp : Reads n F p L) (hf : ∀ a, Reads (n - d) G (f a) M)
    (hM : Leads M G F) (hL : ∀ w ∈ L, d ≤ w.length) : Reads n G (p >>= f) (L * M) :=
  ⟨hp.sound.bind fun a => (hf a).sound, hp.complete.bindDown (fun a => (hf a).complete) hM hL⟩

/-- A parser that asks what comes next, and what comes next. -/
theorem bindOpen (hp : Reads n F p L) (hf : ∀ a, Reads n G (f a) M) (hM : Leads M G F) :
    Reads n G (p >>= f) (L * M) := bindDown (d := 0) hp hf hM fun _ _ => Nat.zero_le _

theorem bind (hp : Reads n .any p L) (hf : ∀ a, Reads n G (f a) M) : Reads n G (p >>= f) (L * M) :=
  hp.bindOpen hf .any

theorem map {g : α → β} (hp : Reads n F p L) : Reads n F (p >>= fun a => Pure.pure (g a)) L :=
  ⟨hp.sound.map, hp.complete.map⟩

theorem fmap {g : α → β} (hp : Reads n F p L) : Reads n F (g <$> p) L :=
  ⟨hp.sound.fmap, hp.complete.fmap⟩

/-- A look ahead that makes no difference. -/
theorem lookAny {f : Option Terminal → Parser β} (h : ∀ o, Reads n F (f o) L) :
    Reads n F (look >>= f) L :=
  ⟨.look fun o => (h o).sound, .look (P := fun _ => True) (fun _ _ _ _ => trivial)
    fun o _ => (h o).complete⟩

theorem pureBind {a : α} (h : Reads n F (f a) L) : Reads n F (Pure.pure a >>= f) L :=
  ⟨.pureBind h.sound, .pureBind h.complete⟩

theorem place {f : Option Position → Parser β} (h : ∀ s, Reads n F (f s) L) :
    Reads n F (place >>= f) L :=
  ⟨.place fun s => (h s).sound, .place fun s => (h s).complete⟩

theorem left {f : ℕ → Parser β} (h : ∀ m, Reads (min n (m + 1)) F (f m) L) :
    Reads n F (left >>= f) L :=
  ⟨.left fun m => (h m).sound, .left fun m => (h m).complete⟩

theorem takeIf (test : Terminal → Bool) : Reads n F (takeIf test) (anyOf test) :=
  ⟨.takeIf test, .takeIf test⟩

theorem take (t : Terminal) : Reads n F (take t) t.alone :=
  (takeIf _).of_eq (anyOf_eq_alone t).symm

theorem punctuator (p : Punctuator) : Reads n F (punctuator p) p.alone := (take _).fmap

theorem word (w : Word) : Reads n F (word w) w.alone := (take _).fmap

theorem terminator : Reads n F terminator Terminal.terminator.alone := (take _).fmap

theorem step {t : Terminal} {f : Unit → Parser β} (h : Reads (n - 1) G (f ()) M) :
    Reads n G (discard (Parser.take t) >>= f) (t.alone * M) := ⟨.step h.sound, .step h.complete⟩

theorem takeIfStep {test : Terminal → Bool} {f : Token → Parser β}
    (h : ∀ t, Reads (n - 1) G (f t) M) : Reads n G (Parser.takeIf test >>= f) (anyOf test * M) :=
  ⟨(Sound.takeIf test).bind fun t => (h t).sound, .takeIfStep fun t => (h t).complete⟩

theorem takeStep {t : Terminal} {f : Token → Parser β} (h : ∀ t, Reads (n - 1) G (f t) M) :
    Reads n G (Parser.take t >>= f) (t.alone * M) := by
  rw [← anyOf_eq_alone]
  exact takeIfStep h

/-! ### Branches -/

theorem lookIf {c : Option Terminal → Prop} [DecidablePred c] (hp : Reads n G p L)
    (hq : Reads n G q M) (hL : Leads L G fun v => c v.head?) (hM : Leads M G fun v => ¬c v.head?) :
    Reads n G (look >>= fun o => if c o then p else q) (L + M) :=
  ⟨.lookIf hp.sound hq.sound, .lookIf hp.complete hq.complete hL hM⟩

/-- Two ways to go on, as the two terminals that come next decide. -/
theorem lookBothIf {c : Option Terminal → Option Terminal → Bool} (hp : Reads n G p L)
    (hq : Reads n G q M) (hL : Leads L G fun v => c v.head? v.tail.head? = true)
    (hM : Leads M G fun v => c v.head? v.tail.head? = false) :
    Reads n G (look >>= fun o => lookFurther >>= fun next => if c o next = true then p else q)
      (L + M) where
  sound := .look fun o => .lookFurther fun next => .ite (fun _ => hp.sound.mono le_self_add)
    fun _ => hq.sound.mono le_add_self
  complete := by
    refine .add (.lookBoth (P := fun o next => c o next = true) hL fun o next ho => ?_)
      (.lookBoth (P := fun o next => c o next = false) hM fun o next ho => ?_)
    · rw [if_pos ho]
      exact hp.complete
    · rw [if_neg (Bool.eq_false_iff.1 ho)]
      exact hq.complete

/-- A parser that goes on in one of two ways, as the terminal before the first part decides. -/
theorem lookThen {c : Option Terminal → Bool} {f : Bool → α → Parser β} (hp : Reads n F p (L + L'))
    (hL : Begins L fun v => c v.head? = true) (hL' : Begins L' fun v => c v.head? = false)
    (hf : ∀ a, Reads n G (f true a) M) (hf' : ∀ a, Reads n G (f false a) M') (hM : Leads M G F)
    (hM' : Leads M' G F) : Reads n G (look >>= fun o => p >>= f (c o)) (L * M + L' * M') where
  sound := ⟨fun {ts b rest} hr => by
    obtain ⟨o, ts', ho, hr⟩ := run_bind_ok.1 hr
    cases ho
    obtain ⟨a, mid, hpre, hr⟩ := run_bind_ok.1 hr
    obtain ⟨us, rfl, hus⟩ := hp.sound.takes hpre
    rw [← List.head?_map, ← terminals, terminals_append] at hr
    rcases hus with hus | hus
    · rw [hL _ hus _ trivial] at hr
      obtain ⟨vs, rfl, hvs⟩ := (hf a).sound.takes hr
      exact ⟨us ++ vs, (List.append_assoc ..).symm,
        .inl ⟨_, hus, _, hvs, (terminals_append us vs).symm⟩⟩
    · rw [hL' _ hus _ trivial] at hr
      obtain ⟨vs, rfl, hvs⟩ := (hf' a).sound.takes hr
      exact ⟨us ++ vs, (List.append_assoc ..).symm,
        .inr ⟨_, hus, _, hvs, (terminals_append us vs).symm⟩⟩⟩
  complete := by
    refine .add (.look (P := fun o => c o = true) hL.leads fun o ho => ?_)
      (.look (P := fun o => c o = false) hL'.leads fun o ho => ?_)
    · rw [ho]
      exact .bind (hp.complete.mono le_rfl le_self_add fun _ => id) (fun a => (hf a).complete) hM
    · rw [ho]
      exact .bind (hp.complete.mono le_rfl le_add_self fun _ => id) (fun a => (hf' a).complete) hM'

theorem ifTaken {t : Terminal} (hp : Reads (n - 1) G p L) (hq : Reads n G q M)
    (hM : Leads M G (.without [t])) :
    Reads n G (taken t >>= fun b => if b = true then p else q) (t.alone * L + M) :=
  ⟨.ifTaken hp.sound hq.sound, .ifTaken hp.complete hq.complete hM⟩

theorem taken (t : Terminal) : Reads n (.without [t]) (taken t) (t.alone + 1) := by
  refine of_eq (lookIf (c := (· = some t)) (step (pure true)) (pure false) ?_ ?_) (by rw [mul_one])
  · exact .mul (.alone fun _ _ => rfl) .any
  · exact .one fun v hv => hv t List.mem_cons_self

end Reads

/-! ## Lists -/

namespace Reads

variable {n : ℕ} {F G : Follow} {item : Parser α} {L : Language Terminal} {close : Terminal}

/-- What comes behind the first item of a list. -/
def moreOf (L : Language Terminal) (close : Terminal) : Language Terminal :=
  (Punctuator.comma.alone * L)∗ * ((Punctuator.comma.alone + 1) * close.alone)

theorem moreOf_eq (L : Language Terminal) (close : Terminal) : moreOf L close =
    close.alone * 1 + Punctuator.comma.alone * (close.alone * 1 + L * moreOf L close) := by
  unfold moreOf
  conv_lhs => rw [← one_add_mul_kstar]
  simp only [add_mul, mul_add, mul_one, one_mul, mul_assoc]
  ac_rfl

theorem moreItems (h : Reads n F item L) (hcomma : ∀ v, F (.punctuator .comma :: v))
    (hclose : ∀ v, F (close :: v)) (hL : Begins L (.without [close]))
    (hne : close ≠ .punctuator .comma) {fuel : ℕ} (hn : n ≤ fuel) :
    Reads n .any (moreItems item close fuel) (moreOf L close) := by
  -- Each round takes a comma, so the fuel outlasts the words that are shorter than it.
  induction fuel generalizing n with
  | zero =>
    obtain rfl := Nat.le_zero.1 hn
    exact .exhausted
  | succ fuel ih =>
    have hitem : Reads (n - 1) F item L := h.mono (Nat.sub_le n 1)
    have hmore := ih hitem (by omega)
    rw [moreOf_eq]
    refine .ifTaken (.pure []) (.step (.ifTaken (.pure []) ?_ (.of_begins hL.mul))) ?_
    · refine .bindOpen hitem (fun _ => .map hmore) ?_
      rw [moreOf_eq]
      exact .add (.mul (.alone fun v _ => hclose v) .any) (.mul (.alone fun v _ => hcomma v) .any)
    · exact .mul (.alone fun v _ => by simp [Follow.without, hne.symm]) .any

theorem items (h : Reads n F item L) (hcomma : ∀ v, F (.punctuator .comma :: v))
    (hclose : ∀ v, F (close :: v)) (hL : Begins L (.without [close]))
    (hne : close ≠ .punctuator .comma) :
    Reads n .any (items item close) (listOf L * close.alone) := by
  have heq : listOf L * close.alone = close.alone * 1 + L * moreOf L close := by
    simp only [listOf, partsOf, moreOf, add_mul, mul_add, mul_one, one_mul, mul_assoc]
    ac_rfl
  rw [heq]
  refine .ifTaken (.pure []) (.bindOpen h (fun _ => .left fun m => .map ?_) ?_) (.of_begins hL.mul)
  · exact moreItems (h.mono (Nat.min_le_left _ _)) hcomma hclose hL hne (Nat.min_le_right _ _)
  · rw [moreOf_eq]
    exact .add (.mul (.alone fun v _ => hclose v) .any) (.mul (.alone fun v _ => hcomma v) .any)

theorem leads_comma_kstar {M : Language Terminal} (hcomma : ∀ v, F (.punctuator .comma :: v))
    (hG : ∀ v, G v → F v) : Leads (Punctuator.comma.alone * M)∗ G F := by
  rw [kstar_mul_eq]
  exact .add (.mul (.alone fun v _ => hcomma v) .any) (.one hG)

theorem moreParts (h : Reads n F item L) (hcomma : ∀ v, F (.punctuator .comma :: v))
    (hG : ∀ v, G v → F v) (hnone : ∀ v, G v → Follow.without [.punctuator .comma] v) {fuel : ℕ}
    (hn : n ≤ fuel) : Reads n G (moreParts item fuel) (Punctuator.comma.alone * L)∗ := by
  induction fuel generalizing n with
  | zero =>
    obtain rfl := Nat.le_zero.1 hn
    exact .exhausted
  | succ fuel ih =>
    have hitem : Reads (n - 1) F item L := h.mono (Nat.sub_le n 1)
    have hmore := ih hitem (by omega)
    rw [kstar_mul_eq]
    exact .ifTaken (.bindOpen hitem (fun _ => .map hmore) (leads_comma_kstar hcomma hG)) (.pure [])
      (.one hnone)

theorem partsWith (h : Reads n F item L) (hcomma : ∀ v, F (.punctuator .comma :: v))
    (hG : ∀ v, G v → F v) (hnone : ∀ v, G v → Follow.without [.punctuator .comma] v)
    {g : α → List α → β} : Reads n G (do
      let a ← item
      return g a (← Parser.moreParts item ((← Parser.left) + 1))) (partsOf L) := by
  refine .bindOpen h (fun _ => .left fun m => .map ?_) (leads_comma_kstar hcomma hG)
  exact moreParts (h.mono (Nat.min_le_left _ _)) hcomma hG hnone (Nat.min_le_right _ _)

theorem parts (h : Reads n F item L) (hcomma : ∀ v, F (.punctuator .comma :: v))
    (hG : ∀ v, G v → F v) (hnone : ∀ v, G v → Follow.without [.punctuator .comma] v) :
    Reads n G (parts item) (partsOf L) := partsWith h hcomma hG hnone

/-- The items end where `stop` tells, and each of them may come behind another one. -/
theorem manyUntil {stop : Option Terminal → Bool} (h : Reads n F item L)
    (hL : Begins L fun v => F v ∧ stop v.head? = false) (hG : ∀ v, G v → F v ∧ stop v.head? = true)
    (hempty : ∀ w ∈ L, 1 ≤ w.length) {fuel : ℕ} (hn : n ≤ fuel) :
    Reads n G (manyUntil item stop fuel) L∗ := by
  induction fuel generalizing n with
  | zero =>
    obtain rfl := Nat.le_zero.1 hn
    exact .exhausted
  | succ fuel ih =>
    have hmore := ih (h.mono (Nat.sub_le n 1)) (by omega)
    rw [← one_add_mul_kstar]
    -- An item takes at least one token, so what is behind it is read with less fuel.
    refine .lookIf (c := fun o => stop o = true) (.pure [])
      (.bindDown h (fun _ => .map hmore) ?_ hempty) (.one fun v hv => (hG v hv).2) ?_
    · refine .mono (.kstar (F := F) ?_ fun v hv => (hG v hv).1) fun _ => id
      exact fun w hw v _ => (hL w hw v trivial).1
    · exact (Leads.of_begins hL.mul).mono fun v hv => by simp [hv.2]

theorem itemsUntil (h : Reads n F item L)
    (hL : Begins L fun v => F v ∧ v.head? ≠ some close) (hclose : ∀ v, F (close :: v))
    (hempty : ∀ w ∈ L, 1 ≤ w.length) :
    Reads n .any (itemsUntil item close) (L∗ * close.alone) := by
  refine .left fun m => .bindOpen (F := .among [close]) ?_ (fun _ => ?_) ?_
  · refine manyUntil (h.mono (Nat.min_le_left _ _)) (hL.mono fun v hv => ⟨hv.1, ?_⟩) ?_ hempty
      (Nat.min_le_right _ _)
    · simpa using hv.2
    · rintro v ⟨t, u, rfl, ht⟩
      obtain rfl : t = close := by simpa using ht
      exact ⟨hclose u, by simp⟩
  · exact mul_one close.alone ▸ .step (.pure _)
  · exact .alone fun v _ => Follow.among_cons List.mem_cons_self

end Reads

/-! ## Answers that matter -/

namespace Reads

variable {n : ℕ} {F F' G : Follow} {p q : Parser α} {f : α → Parser β} {c : α → Bool}
  {L L' M M' : Language Terminal}

theorem having_of_true (h : Reads n F p L)
    (hc : ∀ ts a rest, p.run ts = .ok (a, rest) → c a = true) : Reads n F (having c p) L where
  sound := ⟨fun hp => h.sound.takes (run_having_ok.1 hp).1⟩
  complete := ⟨fun hpre hlength hrest => by
    obtain ⟨a, ha⟩ := h.complete.goes hpre hlength hrest
    exact ⟨a, run_having_ok.2 ⟨ha, hc _ _ _ ha⟩⟩⟩

theorem passed {a : α} (h : c a = true) : Reads n F (having c (Pure.pure a)) 1 := by
  rw [having_pure h]
  exact .pure a

/-- An answer that is made of one that passes a test. -/
theorem havingMap {c : β → Bool} {d : α → Bool} {g : α → β} (h : Reads n F (having d p) L)
    (hcd : ∀ a, c (g a) = d a) : Reads n F (having c (p >>= fun a => Pure.pure (g a))) L := by
  rw [having_map hcd]
  exact .map h

/-- An answer that passes the test whatever it is made of. -/
theorem passing {c : β → Bool} {g : α → β} (h : Reads n F p L) (hc : ∀ a, c (g a) = true) :
    Reads n F (having c (p >>= fun a => Pure.pure (g a))) L := by
  have hpure : (fun a => having c (Pure.pure (g a))) = fun a => Pure.pure (g a) :=
    funext fun a => having_pure (hc a)
  rw [having_bind, hpure]
  exact .map h

/-- An answer that does not pass the test. -/
theorem failed {a : α} (h : c a = false) : Reads n F (having c (Pure.pure a)) 0 := by
  rw [having_pure_of_false h]
  exact ⟨.fail, ⟨fun hpre => hpre.elim⟩⟩

/-- What is read depends on the answer of the first part. -/
theorem bindHaving {d : ℕ} {N : Language Terminal} (h : Reads n F (having c p) L)
    (h' : Reads n F' (having (fun a => !c a) p) L')
    (hf : ∀ a, c a = true → Reads (n - d) G (f a) M) (hf' : ∀ a, c a = false → Reads n G (f a) N)
    (hM : Leads M G F) (hN : Leads N G F') (hL : ∀ w ∈ L, d ≤ w.length) :
    Reads n G (p >>= f) (L * M + L' * N) where
  sound := .bindHaving h.sound h'.sound (fun a ha => (hf a ha).sound) fun a ha => (hf' a ha).sound
  complete := .add (h.complete.bindHaving (fun a ha => (hf a ha).complete) hM hL)
    (h'.complete.bindHaving (d := 0) (fun a ha => (hf' a (by simpa using ha)).complete) hN
      fun _ _ => Nat.zero_le _)

/-- A parser that goes on with some answers only. -/
theorem bindOnly (h : Reads n F (having c p) L) (hf : ∀ a, c a = true → Reads n G (f a) M)
    (hnone : ∀ a, c a = false → Sound (f a) 0) (hM : Leads M G F) :
    Reads n G (p >>= f) (L * M) where
  sound := .bindOnly h.sound (fun a ha => (hf a ha).sound) hnone
  complete := h.complete.bindHaving (d := 0) (fun a ha => (hf a ha).complete) hM
    fun _ _ => Nat.zero_le _

end Reads

end Parser

end ModuleLowering
