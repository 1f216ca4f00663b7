import ModuleLowering.Proofs.KeepingStatements
import ModuleLowering.Proofs.SituatingStatements

/-!
# Tokens that are issued in a region

Behind the last lexeme a terminator is inserted, at no lexeme's place, but only where a statement may
end. Where a statement starts none may end. So the state that the tokens lead to decides whether
that terminator may come next, and parsers are followed through the states to see that no statement
is read from it alone. What else they build lies in the region of their tokens, whatever the state.
-/

set_option autoImplicit false

namespace ModuleLowering

open Sited

/-! ## Tokens -/

/-- From a state on tokens start in a region, one not before the other, but for a terminator at the
end of them all where a statement may end. -/
inductive Terminators.Issues (K : Region) : Terminators → List Token → Prop
  | nil {s : Terminators} : Issues K s []
  | ended {s : Terminators} {t : Token} (hend : s.mayEnd = true) (ht : t.terminal = .terminator) :
    Issues K s [t]
  | cons {s : Terminators} {t : Token} {ts : List Token} (ht : K t.start)
    (hts : ∀ u ∈ ts, t.start ≤ u.start) (hrest : Issues K (s.after t.terminal) ts) :
    Issues K s (t :: ts)

namespace Terminators.Issues

variable {K : Region} {s s' : Terminators} {ts us : List Token} {t : Token}

theorem inRegion (h : s.Issues K ts) : Token.InRegion K false ts := by
  induction h with
  | nil => exact .nil
  | ended _ ht => exact .terminator rfl ht
  | cons ht hts _ ih => exact .cons ht hts ih

theorem append_right (hsteps : s.Steps ts s') (h : s.Issues K (ts ++ us)) : s'.Issues K us := by
  induction hsteps with
  | nil => exact h
  | @cons s s' t ts _ _ ih =>
    cases hall : ts ++ us with
    | nil =>
      obtain ⟨-, rfl⟩ := List.append_eq_nil_iff.1 hall
      exact .nil
    | cons u vs =>
      rw [List.cons_append, hall] at h
      cases h with
      | cons _ _ hrest =>
        rw [hall] at ih
        exact ih hrest

theorem left (h : s.Issues K (ts ++ us)) : s.Issues K ts := by
  induction ts generalizing s with
  | nil => exact .nil
  | cons t ts ih =>
    cases hall : ts ++ us with
    | nil =>
      obtain ⟨rfl, rfl⟩ := List.append_eq_nil_iff.1 hall
      exact h
    | cons u vs =>
      rw [List.cons_append, hall] at h
      cases h with
      | cons ht hts hrest =>
        rw [← hall] at hts hrest
        exact .cons ht (fun v hv => hts v (List.mem_append_left us hv)) (ih hrest)

/-- Where no statement may end the first token starts in the region. -/
theorem start (h : s.Issues K (t :: ts)) (hs : s.mayEnd = false) : K t.start := by
  cases h with
  | ended hend => exact absurd (hend.symm.trans hs) (by decide)
  | cons ht => exact ht

theorem restrict {p : Position} (h : s.Issues K ts) (hts : ∀ t ∈ ts, p ≤ t.start) :
    s.Issues (K.since (some p)) ts := by
  induction h with
  | nil => exact .nil
  | ended hend ht => exact .ended hend ht
  | cons ht hordered _ ih =>
    obtain ⟨hfirst, hrest⟩ := List.forall_mem_cons.1 hts
    refine .cons ⟨ht, ?_⟩ hordered (ih hrest)
    rintro _ ⟨⟩
    exact hfirst

/-- The tokens from one on start in the part of the region that is not before it. -/
theorem since_start (h : s.Issues K (t :: ts)) : s.Issues (K.since (some t.start)) (t :: ts) := by
  cases h with
  | ended hend ht => exact .ended hend ht
  | cons ht hts hrest =>
    exact restrict (.cons ht hts hrest) (List.forall_mem_cons.2 ⟨t.start.le_refl, hts⟩)

end Terminators.Issues

/-! ## Parsers -/

namespace Parser

open Terminators (divides)

variable {α β : Type}

/-- Where `p` reads tokens in a state of the kind `P`, they lead to one of the kind `S`, and the answer
passes the test if they have been issued in the region. -/
structure Stays (K : Region) (P : Terminators → Prop) (p : Parser α) (Q : α → Prop)
    (S : α → Terminators → Prop) : Prop where
  reads : ∀ {s ts a rest}, P s → p.run ts = .ok (a, rest) →
    ∃ read s', ts = read ++ rest ∧ s.Steps read s' ∧ S a s' ∧ (s.Issues K read → Q a)

namespace Stays

variable {K : Region} {P P' : Terminators → Prop} {p q : Parser α} {Q Q' : α → Prop}
  {S S' : α → Terminators → Prop} {R : β → Prop} {T : β → Terminators → Prop} {f : α → Parser β}
  {opens : Bool}

/-- What lies in the region wherever the last terminator is, and the state behind it. -/
theorem of_situates (hkeeps : Keeps P p S) (h : Situates K false opens p Q) : Stays K P p Q S where
  reads hs hp := by
    obtain ⟨read, s', rfl, hsteps, hs'⟩ := hkeeps.leads hs hp
    obtain ⟨read', hread, -, hQ⟩ := h.reads hp
    obtain rfl := List.append_cancel_right hread
    exact ⟨read, s', rfl, hsteps, hs', fun hissues => hQ hissues.inRegion⟩

theorem pure {a : α} (h : Q a) (hs : ∀ s, P s → S a s) : Stays K P (pure a) Q S :=
  of_situates (.pure hs) (.pure h)

theorem bind (h : Stays K P p Q S) (hf : ∀ a, Stays K (S a) (f a) (fun b => Q a → R b) T) :
    Stays K P (p >>= f) R T where
  reads {s ts b rest} hs hp := by
    obtain ⟨a, mid, ha, hb⟩ := run_bind_ok.1 hp
    obtain ⟨read, s', rfl, hsteps, hs', hQ⟩ := h.reads hs ha
    obtain ⟨read', s'', rfl, hsteps', hs'', hR⟩ := (hf a).reads hs' hb
    refine ⟨read ++ read', s'', (List.append_assoc ..).symm, hsteps.append hsteps', hs'', ?_⟩
    exact fun hissues => hR (hissues.append_right hsteps) (hQ hissues.left)

theorem weaken (h : Stays K P p Q S) (hP : ∀ s, P' s → P s) (hQ : ∀ a, Q a → Q' a)
    (hS : ∀ a s, S a s → S' a s) : Stays K P' p Q' S' where
  reads hs hp := by
    obtain ⟨read, s', hts, hsteps, hs', hread⟩ := h.reads (hP _ hs) hp
    exact ⟨read, s', hts, hsteps, hS _ _ hs', fun hissues => hQ _ (hread hissues)⟩

theorem mono (h : Stays K P p Q S) (hQ : ∀ a, Q a → Q' a) : Stays K P p Q' S :=
  h.weaken (fun _ => id) hQ fun _ _ => id

/-- What comes first has no part in the answer. -/
theorem next (h : Stays K P p (fun _ => True) S) (hf : ∀ a, Stays K (S a) (f a) R T) :
    Stays K P (p >>= f) R T :=
  bind h fun a => (hf a).mono fun _ hb _ => hb

theorem map {g : α → β} (h : Stays K P p Q S) (hg : ∀ a, Q a → R (g a))
    (hs : ∀ a s, S a s → T (g a) s) : Stays K P (g <$> p) R T := by
  rw [map_eq_pure_bind]
  exact bind h fun a => pure (hg a) (hs a)

theorem ite {c : Prop} [Decidable c] (h : c → Stays K P p Q S) (h' : ¬c → Stays K P q Q S) :
    Stays K P (if c then p else q) Q S := by
  split
  · exact h ‹_›
  · exact h' ‹_›

theorem pureBind {a : α} (h : Stays K P (f a) R T) : Stays K P (Pure.pure a >>= f) R T := by
  rwa [pure_bind]

theorem look {f : Option Terminal → Parser β} (h : ∀ t, Stays K P (f t) R T) :
    Stays K P (look >>= f) R T where
  reads hs hp := (h _).reads hs hp

theorem lookFurther {f : Option Terminal → Parser β} (h : ∀ t, Stays K P (f t) R T) :
    Stays K P (lookFurther >>= f) R T where
  reads hs hp := (h _).reads hs hp

theorem left {f : Nat → Parser β} (h : ∀ n, Stays K P (f n) R T) :
    Stays K P (left >>= f) R T where
  reads hs hp := (h _).reads hs hp

/-- A node is placed at the first token that is read for it. Where no statement may end, that token
starts in the region. -/
theorem place [Sited β] {f : Option Position → Parser β} {Q : β → Prop}
    (hopens : Situates K true true (Parser.place >>= f) Q) (hP : ∀ s, P s → s.mayEnd = false)
    (h : ∀ (K : Region) (s : Option Position),
      Stays K P (f s) (fun b => K.StartsAt s → InRegion K b) T) :
    Stays K P (Parser.place >>= f) (InRegion K) T where
  reads {s ts b rest} hs hp := by
    obtain ⟨read, rfl, hread, -⟩ := hopens.reads hp
    obtain ⟨t, us, rfl, -⟩ := hread rfl
    have hrest : (f (some t.start)).run (t :: us ++ rest) = .ok (b, rest) := hp
    obtain ⟨read, s', hts, hsteps, hs', hQ⟩ := (h (K.since (some t.start)) _).reads hs hrest
    obtain rfl := List.append_cancel_right hts
    refine ⟨t :: us, s', rfl, hsteps, hs', fun hissues => ?_⟩
    have hstarts := Region.startsAt_since (hissues.start (hP s hs))
    exact Sited.mono (hQ hissues.since_start hstarts) fun _ hq => hq.1

/-- A token that opens, ends or parts something. -/
theorem take (P' : Terminators → Prop) {t : Terminal} (ht : divides t = false)
    (h : ∀ s, P s → P' (s.after t)) :
    Stays K P (Functor.discard (Parser.take t)) (fun _ => True) fun _ => P' :=
  have hskip : Situates K false false (Functor.discard (Parser.take t)) fun _ => True := .skip _
  of_situates (.take ht h) hskip

/-- A parser that goes on one way behind a terminal and another way without it. -/
theorem ifTaken (P' : Terminators → Prop) {t : Terminal} {p q : Parser β} (ht : divides t = false)
    (hafter : ∀ s, P s → P' (s.after t)) (hyes : Stays K P' p R T) (hno : Stays K P q R T) :
    Stays K P (Parser.taken t >>= fun b => if b = true then p else q) R T := by
  unfold Parser.taken
  rw [bind_assoc]
  refine look fun u => ?_
  by_cases hu : u = some t
  · simp only [if_pos hu, bind_assoc, pure_bind, if_true]
    exact next (take P' ht hafter) fun _ => hyes
  · simpa only [if_neg hu, pure_bind, Bool.false_eq_true, if_false] using hno

/-- A terminal that may come next, before what comes in any case. -/
theorem mark (P' : Terminators → Prop) {t : Terminal} {f : Bool → Parser β} (ht : divides t = false)
    (hafter : ∀ s, P s → P' (s.after t)) (hno : ∀ s, P s → P' s)
    (hf : ∀ b, Stays K P' (f b) R T) : Stays K P (Parser.taken t >>= f) R T := by
  unfold Parser.taken
  rw [bind_assoc]
  refine look fun u => ?_
  split
  · simp only [bind_assoc, pure_bind]
    exact next (take P' ht hafter) fun _ => hf true
  · rw [pure_bind]
    exact (hf false).weaken hno (fun _ => id) fun _ _ => id

end Stays

end Parser

end ModuleLowering
