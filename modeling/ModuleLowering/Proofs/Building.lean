import ModuleLowering.Proofs.Explicit
import ModuleLowering.Proofs.WellFormed

/-!
# What parsers build

A parser answers with what is to be built. What is known about the answer follows from the parts of
the parser: one rule for each way of putting parsers together, before any rule of the grammar. The
tokens that are read are known to be spelled as their terminals say, since an operator of the tree
is the text of a token.
-/

set_option autoImplicit false

namespace ModuleLowering

/-! ## Spelling -/

/-- The text that a terminal stands for, if it stands for one alone. -/
def Terminal.text? : Terminal → Option Text
  | .word w => some w.text
  | .punctuator p => some p.text
  | _ => none

/-- A token that has the text its terminal stands for. -/
def Token.Spelled (t : Token) : Prop := ∀ x, t.terminal.text? = some x → t.text = x

/-- A lexeme that has the text of its punctuator. -/
def Lexeme.Spelled (l : Lexeme) : Prop := ∀ p, l.kind = .punctuator p → l.text = p.text

namespace Scanner

variable {regex : Bool} {c : CodePoint} {rest : Text} {found : Cut} {p : Punctuator}

theorem cut_kind_punctuator (h : cut regex c rest = .ok found) (hp : found.kind = .punctuator p) :
    punctuator? (c :: rest) = some p ∧ found.length = p.text.length := by
  unfold cut at h
  split at h
  · split at h <;> cases h
    cases hp
  split at h
  · cases hn : closeFrames .template [] 1 rest <;> rw [hn] at h <;> cases h
    cases hp
  split at h
  · split at h <;> cases h
    cases hp
  split at h
  · split at h <;> cases h
    cases hp
  split at h
  · cases h
    cases hp
  split at h
  · rename_i q hq
    cases h
    cases hp
    exact ⟨hq, rfl⟩
  · cases h

theorem spelled_of_scans {offset : Nat} {position : Position} {regex : Bool} {t : Text}
    {ls : List Lexeme} (h : Scans offset position regex t ls) : ∀ l ∈ ls, l.Spelled := by
  induction h with
  | done => exact nofun
  | @cons offset position regex g rest l ls hstarts _ _ _ ih =>
    refine List.forall_mem_cons.2 ⟨fun p hp => ?_, ih⟩
    obtain ⟨c, u, hu, hcut⟩ := hstarts.exists_cons
    obtain ⟨hfound, hlength⟩ := cut_kind_punctuator hcut hp
    have hprefix : p.text <+: l.text ++ rest := by
      rw [hu]
      exact prefix_of_punctuator hfound
    have htext : p.text.length = l.text.length := by
      rw [hu, ← hlength, List.length_cons]
    rw [List.prefix_iff_eq_take.1 hprefix, htext, List.take_left]

end Scanner

namespace Terminators

variable {s next : Terminators} {l : Lexeme} {ls : List Lexeme} {follow last : Option Lexeme}
  {t : Terminal} {ts : List Token}

theorem text?_readWord (s : Terminators) {w : Word} {x : Text}
    (h : (s.readWord w).1.text? = some x) : w.text = x := by
  cases w
  case kwFunction | kwClass =>
    simp only [readWord, if_true, reduceCtorEq, if_false] at h
    generalize (if s.previous = some (.word .kwAsync) then s.asyncAtStart
      else s.atStatementStart) = declares at h
    cases declares <;> cases h
    rfl
  all_goals
    cases h
    rfl

theorem text?_readPunctuator {p : Punctuator} {x : Text}
    (h : s.readPunctuator p = .ok (t, next)) (ht : t.text? = some x) : p.text = x := by
  cases p
  case leftBrace =>
    simp only [readPunctuator, Except.ok.injEq, Prod.mk.injEq] at h
    obtain ⟨rfl, -⟩ := h
    split at ht <;> cases ht
    rfl
  case rightBrace | rightParen | rightBracket =>
    all_goals
      simp only [readPunctuator, closeScope] at h
      split at h
      · cases h
      · split at h <;> cases h
        cases ht
        rfl
  case semicolon =>
    simp only [readPunctuator] at h
    split at h <;> cases h <;> cases ht
    rfl
  case colon =>
    simp only [readPunctuator] at h
    split at h <;> cases h <;> cases ht <;> rfl
  all_goals
    cases h
    cases ht
    rfl

/-- What is read of a lexeme is spelled as its terminal says. -/
theorem spelled_read (hl : l.Spelled) (h : s.read l follow = .ok (t, next)) :
    (tokenOf t l).Spelled := by
  intro x hx
  show l.text = x
  unfold read at h
  split at h
  case h_5 =>
    split at h
    · cases h
      cases hx
    · rename_i w hw
      have ht : (s.readWord w).1 = t := congrArg Prod.fst (Except.ok.inj h)
      refine Eq.trans ?_ (text?_readWord s (ht ▸ hx))
      unfold wordOf at hw
      obtain ⟨v, hv, hvw⟩ := Option.bind_eq_some_iff.1 hw
      have hword : v = w := by
        dsimp only at hvw
        split at hvw
        · cases hvw
        · split at hvw <;> cases hvw
          rfl
      subst hword
      unfold Word.ofText? at hv
      have hfound := List.find?_some hv
      exact (of_decide_eq_true hfound).symm
  case h_6 p hp => exact (hl p hp).trans (text?_readPunctuator h hx)
  all_goals
    cases h
    cases hx

theorem spelled_tokens (hls : ∀ l ∈ ls, l.Spelled) (h : s.tokens last ls = ⟨ts, none⟩) :
    ∀ t ∈ ts, t.Spelled := by
  induction ls generalizing s last ts with
  | nil =>
    have hts : (s.finish last).tokens = ts := congrArg TokenStream.tokens h
    subst hts
    unfold finish
    split
    · exact nofun
    · split
      · exact nofun
      · split
        · exact List.forall_mem_singleton.2 nofun
        · exact nofun
  | cons l ls ih =>
    obtain ⟨t, next, us, hread, hus, rfl⟩ := tokens_cons_eq_ok.1 h
    obtain ⟨hl, hrest⟩ := List.forall_mem_cons.1 hls
    refine List.forall_mem_append.2
      ⟨?_, List.forall_mem_cons.2 ⟨spelled_read hl hread, ih hrest hus⟩⟩
    split
    · exact List.forall_mem_singleton.2 nofun
    · exact nofun

end Terminators

/-! ## Parsers -/

namespace Parser

variable {α β : Type}

/-- From tokens that are spelled as their terminals say, `p` gives only answers that pass the
test. -/
structure Gives (p : Parser α) (Q : α → Prop) : Prop where
  run : ∀ {ts a rest}, (∀ t ∈ ts, t.Spelled) → p.run ts = .ok (a, rest) →
    Q a ∧ ∀ t ∈ rest, t.Spelled

namespace Gives

variable {p q : Parser α} {Q Q' : α → Prop} {S : β → Prop} {f : α → Parser β}

theorem pure {a : α} (h : Q a) : Gives (pure a) Q where
  run hts hp := by
    obtain ⟨rfl, rfl⟩ := run_pure_ok.1 hp
    exact ⟨h, hts⟩

theorem fail : Gives fail Q where
  run _ hp := by cases hp

theorem bind (h : Gives p Q) (hf : ∀ a, Q a → Gives (f a) S) : Gives (p >>= f) S where
  run hts hp := by
    obtain ⟨a, mid, ha, hb⟩ := run_bind_ok.1 hp
    obtain ⟨hQ, hmid⟩ := h.run hts ha
    exact (hf a hQ).run hmid hb

theorem map {g : α → β} (h : Gives p Q) (hg : ∀ a, Q a → S (g a)) : Gives (g <$> p) S := by
  rw [map_eq_pure_bind]
  exact bind h fun a ha => pure (hg a ha)

theorem mono (h : Gives p Q) (hQ : ∀ a, Q a → Q' a) : Gives p Q' where
  run hts hp := (h.run hts hp).imp_left (hQ _)

theorem ite {c : Prop} [Decidable c] (h : c → Gives p Q) (h' : ¬c → Gives q Q) :
    Gives (if c then p else q) Q := by
  split
  · exact h ‹_›
  · exact h' ‹_›

/-- A parser that starts in one of two ways and then goes on in one way. -/
theorem bindIte {c : Prop} [Decidable c] (h : c → Gives p Q) (h' : ¬c → Gives q Q)
    (hf : ∀ a, Q a → Gives (f a) S) : Gives (if c then p >>= f else q >>= f) S := by
  split
  · exact (h ‹_›).bind hf
  · exact (h' ‹_›).bind hf

/-! ### Tokens -/

theorem get : Gives (get : Parser (List Token)) fun _ => True where
  run hts hp := by
    cases hp
    exact ⟨trivial, hts⟩

theorem place : Gives place fun _ => True := bind get fun _ _ => pure trivial

theorem left : Gives left fun _ => True := bind get fun _ _ => pure trivial

theorem look : Gives look fun _ => True := bind get fun _ _ => pure trivial

theorem lookFurther : Gives lookFurther fun _ => True := bind get fun _ _ => pure trivial

theorem takeIf {test : Terminal → Bool} :
    Gives (takeIf test) fun t => test t.terminal = true ∧ t.Spelled where
  run hts hp := by
    obtain ⟨rfl, ht⟩ := run_takeIf_ok.1 hp
    obtain ⟨hspelled, hrest⟩ := List.forall_mem_cons.1 hts
    exact ⟨⟨ht, hspelled⟩, hrest⟩

theorem take {t : Terminal} : Gives (take t) fun u => u.terminal = t ∧ u.Spelled :=
  takeIf.mono fun _ h => ⟨of_decide_eq_true h.1, h.2⟩

theorem discard {p : Parser α} (h : Gives p Q) : Gives (discard p) fun _ => True :=
  h.map fun _ _ => trivial

theorem punctuator {p : Punctuator} : Gives (punctuator p) fun _ => True := take.discard

theorem word {w : Word} : Gives (word w) fun _ => True := take.discard

theorem terminator : Gives terminator fun _ => True := take.discard

theorem taken {t : Terminal} : Gives (taken t) fun _ => True :=
  bind look fun _ _ => ite (fun _ => bind take.discard fun _ _ => pure trivial)
    fun _ => pure trivial

/-- A parser that goes on one way behind a terminal and another way without it. -/
theorem ifTaken {t : Terminal} {p q : Parser α} (h : Gives p Q) (h' : Gives q Q) :
    Gives (Parser.taken t >>= fun b => if b = true then p else q) Q :=
  bind taken fun _ _ => ite (fun _ => h) fun _ => h'

/-! ### Lists -/

section

variable {Q : α → Prop} (h : Gives p Q)
include h

theorem moreItems {close : Terminal} {n : Nat} :
    Gives (moreItems p close n) fun as => ∀ a ∈ as, Q a := by
  induction n with
  | zero => exact fail
  | succ n ih =>
    refine ifTaken (pure nofun) (bind punctuator fun _ _ => ifTaken (pure nofun) ?_)
    exact bind h fun a ha => bind ih fun as has => pure (List.forall_mem_cons.2 ⟨ha, has⟩)

theorem items {close : Terminal} : Gives (items p close) fun as => ∀ a ∈ as, Q a :=
  ifTaken (pure nofun) <| bind h fun _ ha => bind left fun _ _ => bind (moreItems h) fun _ has =>
    pure (List.forall_mem_cons.2 ⟨ha, has⟩)

theorem moreParts {n : Nat} : Gives (moreParts p n) fun as => ∀ a ∈ as, Q a := by
  induction n with
  | zero => exact fail
  | succ n ih =>
    refine ifTaken (bind h fun a ha => bind ih fun as has => ?_) (pure nofun)
    exact pure (List.forall_mem_cons.2 ⟨ha, has⟩)

theorem parts : Gives (parts p) fun as => ∀ a ∈ as, Q a :=
  bind h fun _ ha => bind left fun _ _ => bind (moreParts h) fun _ has =>
    pure (List.forall_mem_cons.2 ⟨ha, has⟩)

theorem manyUntil {stop : Option Terminal → Bool} {n : Nat} :
    Gives (manyUntil p stop n) fun as => ∀ a ∈ as, Q a := by
  induction n with
  | zero => exact fail
  | succ n ih =>
    refine bind look fun _ _ => ite (fun _ => pure nofun) fun _ => ?_
    exact bind h fun a ha => bind ih fun as has => pure (List.forall_mem_cons.2 ⟨ha, has⟩)

theorem itemsUntil {close : Terminal} : Gives (itemsUntil p close) fun as => ∀ a ∈ as, Q a :=
  bind left fun _ _ => bind (manyUntil h) fun _ has => bind take.discard fun _ _ => pure has

end

end Gives

end Parser

end ModuleLowering
