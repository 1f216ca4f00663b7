import ModuleLowering.Log

/-!
# Successful runs

What it means that work which keeps a state and may fail succeeds, and how this is taken apart along
the way the work is written: work in a row succeeds if every part does, each from the state that the
one before has left.
-/

set_option autoImplicit false

namespace ModuleLowering

variable {ε σ α β : Type}

/-- From the state `s`, work succeeds with the value `a` and leaves the state `s'`. -/
def Yields (m : ExceptT ε (StateM σ) α) (s : σ) (a : α) (s' : σ) : Prop :=
  (ExceptT.run m).run s = (.ok a, s')

namespace Yields

theorem pure_iff {a b : α} {s s' : σ} :
    Yields (pure a : ExceptT ε (StateM σ) α) s b s' ↔ a = b ∧ s = s' := by
  show ((Except.ok a, s) : Except ε α × σ) = (.ok b, s') ↔ _
  rw [Prod.mk.injEq, Except.ok.injEq]

/-- The second of two pieces of work in a row starts where the first one succeeds. -/
theorem run_bind (m : ExceptT ε (StateM σ) α) (f : α → ExceptT ε (StateM σ) β) (s : σ) :
    (ExceptT.run (m >>= f)).run s =
      match (ExceptT.run m).run s with
      | (.ok a, s') => (ExceptT.run (f a)).run s'
      | (.error e, s') => (.error e, s') := by
  rw [ExceptT.run_bind, StateT.run_bind]
  show (match ((ExceptT.run m).run s).1 with | _ => _) = _
  rcases (ExceptT.run m).run s with ⟨r, s'⟩
  cases r <;> rfl

/-- Two pieces of work in a row succeed if the second does after the first. -/
theorem bind_iff {m : ExceptT ε (StateM σ) α} {f : α → ExceptT ε (StateM σ) β} {s s'' : σ}
    {b : β} : Yields (m >>= f) s b s'' ↔ ∃ a s', Yields m s a s' ∧ Yields (f a) s' b s'' := by
  unfold Yields
  rw [run_bind]
  rcases (ExceptT.run m).run s with ⟨r, s'⟩
  cases r with
  | error e =>
    constructor
    · intro h
      cases h
    · rintro ⟨a, t, h, -⟩
      cases h
  | ok a =>
    constructor
    · exact fun h => ⟨a, s', rfl, h⟩
    · rintro ⟨a, t, h, k⟩
      cases h
      exact k

theorem not_throw {e : ε} {s s' : σ} {a : α} :
    ¬ Yields (throw e : ExceptT ε (StateM σ) α) s a s' := by
  intro h
  cases congrArg Prod.fst h

theorem get_iff {s s' t : σ} : Yields (get : ExceptT ε (StateM σ) σ) s t s' ↔ s = t ∧ s = s' := by
  show ((Except.ok s, s) : Except ε σ × σ) = (.ok t, s') ↔ _
  rw [Prod.mk.injEq, Except.ok.injEq]

theorem set_iff {s s' t : σ} {u : PUnit} :
    Yields (set t : ExceptT ε (StateM σ) PUnit) s u s' ↔ t = s' := by
  show ((Except.ok PUnit.unit, t) : Except ε PUnit × σ) = (.ok u, s') ↔ _
  rw [Prod.mk.injEq]
  exact and_iff_right rfl

theorem modify_iff {f : σ → σ} {s s' : σ} {u : PUnit} :
    Yields (modify f : ExceptT ε (StateM σ) PUnit) s u s' ↔ f s = s' := by
  show ((Except.ok PUnit.unit, f s) : Except ε PUnit × σ) = (.ok u, s') ↔ _
  rw [Prod.mk.injEq]
  exact and_iff_right rfl

theorem forM_nil_iff {f : α → ExceptT ε (StateM σ) PUnit} {s s' : σ} {u : PUnit} :
    Yields (([] : List α).forM f) s u s' ↔ s = s' := by
  show Yields (pure PUnit.unit : ExceptT ε (StateM σ) PUnit) s u s' ↔ _
  rw [pure_iff]
  exact and_iff_right rfl

/-- Going through a list succeeds if the first step and then the others do. -/
theorem forM_cons_iff {f : α → ExceptT ε (StateM σ) PUnit} {x : α} {xs : List α} {s s'' : σ}
    {u : PUnit} : Yields ((x :: xs).forM f) s u s'' ↔
      ∃ s', Yields (f x) s PUnit.unit s' ∧ Yields (xs.forM f) s' u s'' := by
  show Yields (f x >>= fun _ => xs.forM f) s u s'' ↔ _
  rw [bind_iff]
  constructor
  · rintro ⟨_, s', h, k⟩
    exact ⟨s', h, k⟩
  · rintro ⟨s', h, k⟩
    exact ⟨_, s', h, k⟩

theorem mapM_nil_iff {f : α → ExceptT ε (StateM σ) β} {s s' : σ} {ys : List β} :
    Yields (([] : List α).mapM f) s ys s' ↔ [] = ys ∧ s = s' := by
  rw [List.mapM_nil]
  exact pure_iff

/-- Mapping over a list succeeds if the first step and then the others do. -/
theorem mapM_cons_iff {f : α → ExceptT ε (StateM σ) β} {x : α} {xs : List α} {s s'' : σ}
    {ys : List β} : Yields ((x :: xs).mapM f) s ys s'' ↔
      ∃ y s' rest, Yields (f x) s y s' ∧ Yields (xs.mapM f) s' rest s'' ∧ y :: rest = ys := by
  rw [List.mapM_cons, bind_iff]
  constructor
  · rintro ⟨y, s', hy, h⟩
    obtain ⟨rest, t, hrest, hpure⟩ := bind_iff.1 h
    obtain ⟨rfl, rfl⟩ := pure_iff.1 hpure
    exact ⟨y, s', rest, hy, hrest, rfl⟩
  · rintro ⟨y, s', rest, hy, hrest, rfl⟩
    exact ⟨y, s', hy, bind_iff.2 ⟨rest, s'', hrest, pure_iff.2 ⟨rfl, rfl⟩⟩⟩

end Yields

end ModuleLowering
