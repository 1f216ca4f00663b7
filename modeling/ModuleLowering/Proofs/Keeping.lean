import ModuleLowering.Proofs.Following
import ModuleLowering.Proofs.Replay

/-!
# What parsers do to the state behind them

The state that the tokens lead to is followed through a parser: from a state of one kind the tokens
that the parser takes lead to a state of another kind, which may depend on the answer. On the way no
division sign comes directly behind a terminator. Rules for the parts of a parser give the fact for
the whole.
-/

set_option autoImplicit false

namespace ModuleLowering

namespace Terminators

/-- Terminals that a slash starts. -/
def divides (t : Terminal) : Bool :=
  [Terminal.punctuator .slash, .punctuator .slashAssign].contains t

/-- Tokens lead from one state to another, none of them being a division sign behind a
terminator. -/
inductive Steps : Terminators → List Token → Terminators → Prop where
  | nil (s : Terminators) : Steps s [] s
  | cons {s s' : Terminators} {t : Token} {ts : List Token} :
      (divides t.terminal = true → s.previous ≠ some .terminator) →
      Steps (s.after t.terminal) ts s' → Steps s (t :: ts) s'

theorem Steps.append {s s' s'' : Terminators} {ts us : List Token} (h : Steps s ts s')
    (h' : Steps s' us s'') : Steps s (ts ++ us) s'' := by
  induction h with
  | nil => exact h'
  | cons hdivides _ ih => exact .cons hdivides (ih h')

end Terminators

namespace Parser

open Terminators

variable {α β : Type}

/-- Where `p` reads tokens in a state of the kind `P`, they lead to one of the kind `Q`. -/
structure Keeps (P : Terminators → Prop) (p : Parser α) (Q : α → Terminators → Prop) : Prop where
  leads : ∀ {s ts a rest}, P s → p.run ts = .ok (a, rest) →
    ∃ read s', ts = read ++ rest ∧ s.Steps read s' ∧ Q a s'

/-- The states of a kind are those of a frame. -/
class Framed (P : Terminators → Prop) (g : outParam Frame) : Prop where
  toIn : ∀ s, P s → s.In g

/-- The states of a kind are those of a frame, unless the condition of a `do` is due. -/
class FramedDue (P : Terminators → Prop) (g : outParam Frame) : Prop where
  toDue : ∀ s, P s → s.Due g

section

variable {g : Frame}

instance : Framed (·.In g) g := ⟨fun _ h => h⟩

instance : Framed (·.Mid g) g := ⟨fun _ h => h.toIn⟩

instance : Framed (·.Done g) g := ⟨fun _ h => h.toIn⟩

instance : Framed (·.Finished g) g := ⟨fun _ h => h.toIn⟩

instance {t : Terminal} : Framed (·.Behind g t) g := ⟨fun _ h => h.toIn⟩

instance {c : Punctuator} {C : Scope → Prop} : Framed (·.Past g c C) g := ⟨fun _ h => h.toIn⟩

instance : FramedDue (·.Due g) g := ⟨fun _ h => h⟩

instance {P : Terminators → Prop} [Framed P g] : FramedDue P g :=
  ⟨fun s h => (Framed.toIn s h).toDue⟩

end

namespace Keeps

variable {P P' : Terminators → Prop} {p q : Parser α} {Q Q' : α → Terminators → Prop}
  {S : β → Terminators → Prop} {f : α → Parser β}

theorem pure {a : α} (h : ∀ s, P s → Q a s) : Keeps P (pure a) Q where
  leads {s ts b rest} hs hp := by
    obtain ⟨rfl, rfl⟩ := run_pure_ok.1 hp
    exact ⟨[], s, rfl, .nil s, h s hs⟩

theorem fail : Keeps P fail Q where
  leads {s ts b rest} hs hp := by
    cases hp

theorem bind (h : Keeps P p Q) (hf : ∀ a, Keeps (Q a) (f a) S) : Keeps P (p >>= f) S where
  leads {s ts b rest} hs hp := by
    obtain ⟨a, mid, ha, hb⟩ := run_bind_ok.1 hp
    obtain ⟨read, s', rfl, hsteps, hs'⟩ := h.leads hs ha
    obtain ⟨read', s'', rfl, hsteps', hs''⟩ := (hf a).leads hs' hb
    exact ⟨read ++ read', s'', by rw [List.append_assoc], hsteps.append hsteps', hs''⟩

theorem weaken (h : Keeps P p Q) (hP : ∀ s, P' s → P s) (hQ : ∀ a s, Q a s → Q' a s) :
    Keeps P' p Q' where
  leads {s ts a rest} hs hp := by
    obtain ⟨read, s', hts, hsteps, hs'⟩ := h.leads (hP s hs) hp
    exact ⟨read, s', hts, hsteps, hQ a s' hs'⟩

theorem pre (h : Keeps P p Q) (hP : ∀ s, P' s → P s) : Keeps P' p Q := h.weaken hP fun _ _ => id

theorem post (h : Keeps P p Q) (hQ : ∀ a s, Q a s → Q' a s) : Keeps P p Q' :=
  h.weaken (fun _ => id) hQ

theorem ite {c : Prop} [Decidable c] (h : c → Keeps P p Q) (h' : ¬c → Keeps P q Q) :
    Keeps P (if c then p else q) Q := by
  split
  · exact h ‹_›
  · exact h' ‹_›

/-- A parser that starts in one of two ways and then goes on in one way. -/
theorem bindIte {c : Prop} [Decidable c] (h : c → Keeps P p fun _ => P')
    (h' : ¬c → Keeps P q fun _ => P') (hf : ∀ a, Keeps P' (f a) S) : Keeps P (if c then p >>= f else q >>= f) S := by
  split
  · exact (h ‹_›).bind hf
  · exact (h' ‹_›).bind hf

theorem pureBind {a : α} (h : Keeps P (f a) S) : Keeps P (Pure.pure a >>= f) S := by
  rwa [pure_bind]

theorem failBind : Keeps P (Parser.fail >>= f) S where
  leads {s ts b rest} hs hp := by
    cases hp

theorem map {g : α → β} (h : Keeps P p Q) (hg : ∀ a s, Q a s → S (g a) s) :
    Keeps P (g <$> p) S where
  leads {s ts b rest} hs hp := by
    obtain ⟨a, ha, rfl⟩ := run_map_ok.1 hp
    obtain ⟨read, s', hts, hsteps, hs'⟩ := h.leads hs ha
    exact ⟨read, s', hts, hsteps, hg a s' hs'⟩

/-! ### What comes next -/

theorem place : Keeps P place fun _ => P where
  leads {s ts a rest} hs hp := by
    cases hp
    exact ⟨[], s, rfl, .nil s, hs⟩

theorem left : Keeps P left fun _ => P where
  leads {s ts a rest} hs hp := by
    cases hp
    exact ⟨[], s, rfl, .nil s, hs⟩

theorem look : Keeps P look fun _ => P where
  leads {s ts a rest} hs hp := by
    cases hp
    exact ⟨[], s, rfl, .nil s, hs⟩

theorem lookFurther : Keeps P lookFurther fun _ => P where
  leads {s ts a rest} hs hp := by
    cases hp
    exact ⟨[], s, rfl, .nil s, hs⟩

/-! ### Taking tokens -/

theorem takeIf {test : Terminal → Bool} {Q : Token → Terminators → Prop}
    (hsafe : ∀ s t, P s → test t = true → divides t = true → s.previous ≠ some .terminator)
    (h : ∀ s (t : Token), P s → test t.terminal = true → Q t (s.after t.terminal)) :
    Keeps P (takeIf test) Q where
  leads {s ts t rest} hs hp := by
    obtain ⟨rfl, ht⟩ := run_takeIf_ok.1 hp
    exact ⟨[t], _, rfl, .cons (hsafe s _ hs ht) (.nil _), h s t hs ht⟩

theorem discard (h : Keeps P p fun _ => P') : Keeps P (discard p) fun _ => P' :=
  h.map fun _ _ hs => hs

theorem take {t : Terminal} (ht : divides t = false) (h : ∀ s, P s → P' (s.after t)) :
    Keeps P (Functor.discard (Parser.take t)) fun _ => P' := by
  refine discard (takeIf (fun s u hs hu hdivides => ?_) fun s u hs hu => ?_)
  · rw [of_decide_eq_true hu, ht] at hdivides
    cases hdivides
  · rw [of_decide_eq_true hu]
    exact h s hs

theorem taken {t : Terminal} {Q : Bool → Terminators → Prop} (ht : divides t = false)
    (hyes : ∀ s, P s → Q true (s.after t)) (hno : ∀ s, P s → Q false s) :
    Keeps P (Parser.taken t) Q := by
  refine bind look fun a => ite (fun _ => ?_) fun _ => pure hno
  have htake : Keeps P (Functor.discard (Parser.take t)) fun _ => Q true := take ht hyes
  exact bind htake fun _ => pure fun s hs => hs

/-- A parser that goes on one way behind a token and another way without it. -/
theorem ifTaken (P' : Terminators → Prop) {t : Terminal} {p q : Parser β}
    (ht : divides t = false) (hafter : ∀ s, P s → P' (s.after t)) (hyes : Keeps P' p S)
    (hno : Keeps P q S) :
    Keeps P (Parser.taken t >>= fun b => if b = true then p else q) S := by
  unfold Parser.taken
  rw [bind_assoc]
  refine bind look fun a => ?_
  by_cases ha : a = some t
  · simp only [if_pos ha, bind_assoc, pure_bind, if_true]
    exact bind (take ht hafter) fun _ => hyes
  · simpa only [if_neg ha, pure_bind, Bool.false_eq_true, if_false] using hno

/-! ### Steps in a frame -/

variable {g : Frame}

/-- What comes next need only know the frame. -/
theorem next [∀ a, Framed (Q a) g] (h : Keeps P p Q) (hf : ∀ a, Keeps (·.In g) (f a) S) :
    Keeps P (p >>= f) S :=
  bind (h.post fun _ => Framed.toIn) hf

theorem plain {test : Terminal → Bool}
    (h : ∀ t, test t = true → isPlain t = true ∧ divides t = false ∧ t ≠ .terminator) :
    Keeps (·.In g) (Parser.takeIf test) fun _ s => s.Mid g := by
  refine takeIf (fun s t _ ht hdivides => ?_) fun s t hs ht => ?_
  · rw [(h t ht).2.1] at hdivides
    cases hdivides
  · exact (behind_after hs (h _ ht).1).mid (h _ ht).2.2

theorem word {w : Word} (hw : isPlain (.word w) = true) :
    Keeps (·.In g) (Parser.word w) fun _ s => s.Behind g (.word w) :=
  take rfl fun _ hs => behind_after hs hw

theorem punctuator {p : Punctuator} (hp : isPlain (.punctuator p) = true)
    (hdivides : divides (.punctuator p) = false) :
    Keeps (·.In g) (Parser.punctuator p) fun _ s => s.Behind g (.punctuator p) :=
  take hdivides fun _ hs => behind_after hs hp

theorem terminator : Keeps (·.In g) Parser.terminator fun _ s => s.Finished g :=
  take rfl fun _ hs => finished_after_terminator hs

theorem mark {t : Terminal} (ht : isPlain t = true) (hdivides : divides t = false) :
    Keeps (·.In g) (Parser.taken t) fun _ s => s.In g :=
  taken hdivides (fun _ hs => (behind_after hs ht).toIn) fun _ hs => hs

/-- Behind a colon no label is open, so the frame may say either. -/
theorem colon (label : Bool) :
    Keeps (·.In g) (Parser.punctuator .colon) fun _ s => s.In (g.labelled label) :=
  take rfl fun _ hs => (behind_after_colon hs label).toIn

/-- A parser that goes on one way behind a plain token and another way without it. -/
theorem ifMarked [Framed P g] {t : Terminal} {p q : Parser β} (ht : isPlain t = true)
    (hdivides : divides t = false) (hyes : Keeps (·.In g) p S) (hno : Keeps P q S) :
    Keeps P (Parser.taken t >>= fun b => if b = true then p else q) S :=
  ifTaken _ hdivides (fun s hs => (behind_after (Framed.toIn s hs) ht).toIn) hyes hno

/-- A parser that goes on one way behind a colon and another way without it. -/
theorem ifColon {p q : Parser β} (hyes : Keeps (·.In g) p S) (hno : Keeps (·.Mid g) q S) :
    Keeps (·.Mid g) (Parser.taken (.punctuator .colon) >>= fun b => if b = true then p else q) S :=
  ifTaken _ rfl (fun _ hs => (behind_after_colon hs.toIn g.label).toIn) hyes hno

theorem announced (t : Terminal) (w : Word) (scope : Scope) (hdivides : divides t = false)
    (ht : ∀ s : Terminators, s.after t = s.announce w scope) :
    Keeps (·.In g) (Functor.discard (Parser.take t)) fun _ s => s.In (g.announce scope) :=
  take hdivides fun s hs => by
    rw [ht]
    exact (mid_announce hs w scope).toIn

/-- Behind an opening bracket the frame holds a scope that the closing bracket ends. -/
theorem pushed {c : Punctuator} {C : Scope → Prop}
    (h : ∀ scope, C scope → scope.closer = c → Keeps (·.In (g.push scope)) p Q) :
    Keeps (fun s => ∃ scope, C scope ∧ scope.closer = c ∧ s.In (g.push scope)) p Q where
  leads hs hp := by
    obtain ⟨scope, hC, hscope, hs⟩ := hs
    exact (h scope hC hscope).leads hs hp

/-- An opening parenthesis, and what is known of the scope that it opens. -/
theorem openHead {C : Scope → Prop} {f : Unit → Parser β}
    (hopens : Opens P .leftParen .rightParen g C)
    (h : ∀ scope, C scope → scope.closer = .rightParen → Keeps (·.In (g.push scope)) (f ()) S) :
    Keeps P (Parser.punctuator .leftParen >>= f) S :=
  bind (take rfl fun s hs => hopens s hs) fun _ => pushed h

theorem openParen [FramedDue P g] {f : Unit → Parser β}
    (h : ∀ scope, scope.closer = .rightParen → Keeps (·.In (g.push scope)) (f ()) S) :
    Keeps P (Parser.punctuator .leftParen >>= f) S :=
  openHead (fun s hs => opens_leftParen s (FramedDue.toDue s hs)) fun scope _ => h scope

/-- A parser that goes on one way inside parentheses and another way without them. -/
theorem ifParen [FramedDue P g] {p q : Parser β}
    (hyes : ∀ scope, scope.closer = .rightParen → Keeps (·.In (g.push scope)) p S)
    (hno : Keeps P q S) :
    Keeps P (Parser.taken (.punctuator .leftParen) >>= fun b => if b = true then p else q) S :=
  ifTaken _ rfl (fun s hs => opens_leftParen s (FramedDue.toDue s hs))
    (pushed fun scope _ => hyes scope) hno

theorem openBracket {f : Unit → Parser β} (h : Keeps (·.In (g.push .bracket)) (f ()) S) :
    Keeps (·.In g) (Parser.punctuator .leftBracket >>= f) S :=
  bind (take rfl fun _ hs => in_after_leftBracket hs) fun _ => h

theorem openObject {f : Unit → Parser β} (h : Keeps (·.In (g.push .object)) (f ()) S) :
    Keeps (·.In g) (Functor.discard (Parser.take .objectBrace) >>= f) S :=
  bind (take rfl fun _ hs => in_after_objectBrace hs) fun _ => h

theorem openBrace {C : Scope → Prop} {f : Unit → Parser β}
    (hopens : Opens P .leftBrace .rightBrace g C)
    (h : ∀ scope, C scope → scope.closer = .rightBrace → Keeps (·.In (g.push scope)) (f ()) S) :
    Keeps P (Parser.punctuator .leftBrace >>= f) S :=
  bind (take rfl fun s hs => hopens s hs) fun _ => pushed h

theorem divides_closer (scope : Scope) : divides (.punctuator scope.closer) = false := by
  cases scope <;> rfl

/-- Behind a closing bracket it is known which scope it has ended. -/
theorem shut {C : Scope → Prop} {scope : Scope} {p : Punctuator} (hp : scope.closer = p)
    (hC : C scope) :
    Keeps (·.In (g.push scope)) (Parser.punctuator p) fun _ s => s.Past g p C := by
  subst hp
  exact take (divides_closer scope) fun _ hs => past_after_closer hs hC

theorem close {scope : Scope} {p : Punctuator} (hp : scope.closer = p) :
    Keeps (·.In (g.push scope)) (Parser.punctuator p) fun _ s => s.Behind g (.punctuator p) :=
  (shut (C := fun _ => True) hp trivial).post fun _ _ hs => hs.toBehind

/-! ### Lists -/

theorem manyUntil {stop : Option Terminal → Bool} {n : Nat} (h : Keeps P p fun _ => P) :
    Keeps P (manyUntil p stop n) fun _ => P := by
  induction n with
  | zero => exact fail
  | succ n ih =>
    refine bind look fun a => ite (fun _ => pure fun _ hs => hs) fun _ => bind h fun a => ?_
    exact bind ih fun _ => pure fun _ hs => hs

section

variable {scope : Scope} {close : Punctuator} {n : Nat} (hclose : scope.closer = close)
include hclose

theorem ifClosed {p q : Parser β}
    (hyes : Keeps (·.Behind g (.punctuator close)) p S) (hno : Keeps (·.In (g.push scope)) q S) :
    Keeps (·.In (g.push scope))
      (Parser.taken (.punctuator close) >>= fun b => if b = true then p else q) S := by
  subst hclose
  exact ifTaken _ (divides_closer scope) (fun _ hs => behind_after_closer hs) hyes hno

theorem moreItems (h : Keeps (·.In (g.push scope)) p fun _ s => s.In (g.push scope)) :
    Keeps (·.In (g.push scope)) (moreItems p (.punctuator close) n)
      fun _ s => s.Behind g (.punctuator close) := by
  induction n with
  | zero => exact fail
  | succ n ih =>
    refine ifClosed hclose (pure fun _ hs => hs) (next (punctuator rfl rfl) fun _ => ?_)
    refine ifClosed hclose (pure fun _ hs => hs) (bind h fun a => ?_)
    exact bind ih fun _ => pure fun _ hs => hs

theorem items (h : Keeps (·.In (g.push scope)) p fun _ s => s.In (g.push scope)) :
    Keeps (·.In (g.push scope)) (items p (.punctuator close))
      fun _ s => s.Behind g (.punctuator close) := by
  refine ifClosed hclose (pure fun _ hs => hs) (bind h fun a => bind left fun _ => ?_)
  exact bind (moreItems hclose h) fun _ => pure fun _ hs => hs

theorem itemsUntil {C : Scope → Prop} (hC : C scope)
    (h : Keeps (·.In (g.push scope)) p fun _ s => s.In (g.push scope)) :
    Keeps (·.In (g.push scope)) (itemsUntil p (.punctuator close))
      fun _ s => s.Past g close C :=
  bind left fun _ => bind (manyUntil h) fun _ =>
    bind (shut hclose hC) fun _ => pure fun _ hs => hs

end

theorem moreParts {n : Nat} (h : Keeps (·.In g) p fun _ s => s.Mid g) :
    Keeps (·.Mid g) (moreParts p n) fun _ s => s.Mid g := by
  induction n with
  | zero => exact fail
  | succ n ih =>
    refine ifMarked rfl rfl (bind h fun a => ?_) (pure fun _ hs => hs)
    exact bind ih fun _ => pure fun _ hs => hs

theorem parts (h : Keeps (·.In g) p fun _ s => s.Mid g) :
    Keeps (·.In g) (parts p) fun _ s => s.Mid g :=
  bind h fun _ => bind left fun _ => bind (moreParts h) fun _ => pure fun _ hs => hs

end Keeps

end Parser

end ModuleLowering
