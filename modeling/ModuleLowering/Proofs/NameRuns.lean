import Mathlib.Computability.StateTransition
import Mathlib.Order.Bounds.Defs
import ModuleLowering.Proofs.FreshNames

/-!
# Runs of the search for names

The search for a new name tries a base, and then the base with 1, 2, … behind it, until a name is
free. Whatever is taken, it comes to an end, at the base or at the least number that makes it free,
and exactly the name that it ends at is taken from then on. In a run of calls a name that is given
therefore differs from every name that was taken, given or reserved before.
-/

set_option autoImplicit false

namespace ModuleLowering

namespace Names

/-! ## The search, one try after the other -/

/-- Where the search for a new name stands: the name to try, and the number behind its base. -/
structure Trial where
  name : Text
  number : Nat

namespace Trial

/-- The base is tried first. -/
def first (base : Text) : Trial := ⟨base, 0⟩

/-- A name that is taken gives way to the base with the next number; at a free one the search is
over. -/
def next? (names : Names) (base : Text) (t : Trial) : Option Trial :=
  if names.isTaken t.name then some ⟨base ++ Text.ofNat (t.number + 1), t.number + 1⟩ else none

/-- The try with a number behind the base, or with the base alone. -/
def numbered (base : Text) (k : Nat) : Trial := ⟨candidate base k, k⟩

variable {names : Names} {base : Text}

theorem next?_numbered_of_taken {k : Nat} (h : candidate base k ∈ names.taken) :
    next? names base (numbered base k) = some (numbered base (k + 1)) :=
  if_pos (List.contains_iff_mem.2 h)

theorem next?_numbered_of_free {k : Nat} (h : candidate base k ∉ names.taken) :
    next? names base (numbered base k) = none :=
  if_neg fun htaken => h (List.contains_iff_mem.1 htaken)

/-- The search gets to a number if no smaller one makes the base free. -/
theorem reaches_numbered {k : Nat} (h : ∀ j < k, candidate base j ∈ names.taken) :
    StateTransition.Reaches (next? names base) (first base) (numbered base k) := by
  induction k with
  | zero => exact Relation.ReflTransGen.refl
  | succ k ih =>
    have hbefore := ih fun j hj => h j (Nat.lt_succ_of_lt hj)
    exact hbefore.tail (next?_numbered_of_taken (h k (Nat.lt_succ_self k)))

end Trial

variable (names : Names) (base : Text)

/-- The number of the new name for a base, zero standing for the base alone. -/
def freshNumber : Nat := names.freeFrom base names.taken.length 0

theorem candidate_freshNumber_notMem : candidate base (names.freshNumber base) ∉ names.taken :=
  names.freshName_notMem base

theorem candidate_mem_of_lt_freshNumber {j : Nat} (h : j < names.freshNumber base) :
    candidate base j ∈ names.taken :=
  names.mem_taken_of_lt_freeFrom base (Nat.zero_le j) h

/-- The search comes to its end at the new name. -/
theorem mem_eval_next? : ⟨(names.fresh base).1, names.freshNumber base⟩ ∈
    StateTransition.eval (Trial.next? names base) (Trial.first base) :=
  StateTransition.mem_eval.2
    ⟨Trial.reaches_numbered fun _ hj => names.candidate_mem_of_lt_freshNumber base hj,
      Trial.next?_numbered_of_free (names.candidate_freshNumber_notMem base)⟩

/-! ## The least number -/

/-- What the new name for a base is: the base if it is free, else the base with a number behind it in
decimal, the least one from 1 on that makes it free. -/
structure IsNew (taken : List Text) (base name : Text) : Prop where
  alone : base ∉ taken → name = base
  numbered : base ∈ taken →
    ∃ k, IsLeast {k | 1 ≤ k ∧ base ++ Text.ofNat k ∉ taken} k ∧ name = base ++ Text.ofNat k

theorem candidate_of_pos {k : Nat} (h : 1 ≤ k) : candidate base k = base ++ Text.ofNat k :=
  if_neg (by omega)

theorem isNew_fresh : IsNew names.taken base (names.fresh base).1 := by
  have hfree := names.candidate_freshNumber_notMem base
  constructor
  case alone =>
    intro hbase
    have hzero : names.freshNumber base = 0 := by
      by_contra hne
      exact hbase (names.candidate_mem_of_lt_freshNumber base (Nat.pos_of_ne_zero hne))
    show candidate base (names.freshNumber base) = base
    rw [hzero]
    rfl
  case numbered =>
    intro hbase
    have hpos : 1 ≤ names.freshNumber base := by
      by_contra hlt
      have hzero : names.freshNumber base = 0 := by omega
      rw [hzero] at hfree
      exact hfree hbase
    have hname := candidate_of_pos base hpos
    refine ⟨names.freshNumber base, ⟨⟨hpos, ?_⟩, ?_⟩, hname⟩
    · rw [← hname]
      exact hfree
    · rintro k ⟨hk, hkfree⟩
      by_contra hlt
      rw [← candidate_of_pos base hk] at hkfree
      exact hkfree (names.candidate_mem_of_lt_freshNumber base (Nat.lt_of_not_le hlt))

/-! ## Runs of calls -/

/-- What the allocator of names is asked for. -/
inductive Call where
  | fresh (base : Text)
  | reserve (name : Text)

/-- The names after a call, and the name that it gives. -/
def Call.run (names : Names) : Call → Option Text × Names
  | .fresh base => (some (names.fresh base).1, (names.fresh base).2)
  | .reserve name => (none, names.reserve name)

/-- The names after some calls. -/
def after (names : Names) : List Call → Names
  | [] => names
  | call :: calls => (call.run names).2.after calls

/-- The names that some calls give, in order. -/
def given (names : Names) : List Call → List Text
  | [] => []
  | call :: calls => (call.run names).1.toList ++ (call.run names).2.given calls

theorem after_append (early late : List Call) :
    names.after (early ++ late) = (names.after early).after late := by
  induction early generalizing names with
  | nil => rfl
  | cons call early ih => exact ih (call.run names).2

theorem given_append (early late : List Call) :
    names.given (early ++ late) = names.given early ++ (names.after early).given late := by
  induction early generalizing names with
  | nil => rfl
  | cons call early ih =>
    rw [List.cons_append, given, given, ih, List.append_assoc]
    rfl

theorem mem_taken_reserve (name x : Text) :
    x ∈ (names.reserve name).taken ↔ x = name ∨ x ∈ names.taken :=
  List.mem_cons

theorem mem_taken_fresh (x : Text) :
    x ∈ (names.fresh base).2.taken ↔ x = (names.fresh base).1 ∨ x ∈ names.taken :=
  names.mem_taken_reserve (names.freshName base) x

/-- A call makes exactly the name taken that it gives or reserves. -/
theorem Call.mem_taken_run (call : Call) (x : Text) : x ∈ (call.run names).2.taken ↔
    x ∈ (call.run names).1 ∨ call = .reserve x ∨ x ∈ names.taken := by
  cases call with
  | fresh base => simp [run, names.mem_taken_fresh, eq_comm]
  | reserve name => simp [run, names.mem_taken_reserve, eq_comm]

/-- What is taken after a run was taken before it, or was reserved or given in it. -/
theorem mem_taken_after (calls : List Call) (x : Text) : x ∈ (names.after calls).taken ↔
    x ∈ names.given calls ∨ .reserve x ∈ calls ∨ x ∈ names.taken := by
  induction calls generalizing names with
  | nil => simp [after, given]
  | cons call calls ih =>
    rw [after, ih, call.mem_taken_run, given, List.mem_append, Option.mem_toList, List.mem_cons,
      eq_comm (a := Call.reserve x)]
    tauto

/-- The names that a run gives differ from each other and from those that were taken before it. -/
theorem nodup_given (calls : List Call) :
    (names.given calls).Nodup ∧ ∀ x ∈ names.given calls, x ∉ names.taken := by
  induction calls generalizing names with
  | nil => exact ⟨List.nodup_nil, nofun⟩
  | cons call calls ih =>
    obtain ⟨hnodup, hfree⟩ := ih (call.run names).2
    have hlater (x : Text) (hx : x ∈ (call.run names).2.given calls) :
        x ∉ (call.run names).1 ∧ x ∉ names.taken := by
      have hnot := hfree x hx
      rw [call.mem_taken_run] at hnot
      exact ⟨fun h => hnot (.inl h), fun h => hnot (.inr (.inr h))⟩
    cases call with
    | reserve name => exact ⟨hnodup, fun x hx => (hlater x hx).2⟩
    | fresh base =>
      refine ⟨List.nodup_cons.2 ⟨fun h => (hlater _ h).1 rfl, hnodup⟩, fun x hx => ?_⟩
      rcases List.mem_cons.1 hx with rfl | hx
      · exact names.freshName_notMem base
      · exact (hlater x hx).2

/-! ## The laws -/

/-- The laws of new names, from any names that are taken. -/
structure FreshLaws (names : Names) : Prop where
  /-- The search for a name comes to an end, at the name that is given. -/
  ends : ∀ base, ∃ number, ⟨(names.fresh base).1, number⟩ ∈
    StateTransition.eval (Trial.next? names base) (Trial.first base)
  least : ∀ base, IsNew names.taken base (names.fresh base).1
  /-- Exactly the name that is given is taken in addition, and it was not taken. -/
  grows : ∀ base, (names.fresh base).1 ∉ names.taken ∧
    ∀ x, x ∈ (names.fresh base).2.taken ↔ x = (names.fresh base).1 ∨ x ∈ names.taken
  /-- The names that a run gives differ from each other. -/
  distinct : ∀ calls, (names.given calls).Nodup
  /-- A name that a run gives was not taken, reserved or given before. -/
  unused : ∀ early base late, ∃ name,
    names.given (early ++ .fresh base :: late) =
      names.given early ++ name :: (names.after (early ++ [.fresh base])).given late ∧
    name ∉ names.taken ∧ .reserve name ∉ early ∧ name ∉ names.given early

/-- New names keep these laws, whatever is taken. -/
theorem freshLaws : FreshLaws names := by
  constructor
  case ends => exact fun base => ⟨_, names.mem_eval_next? base⟩
  case least => exact names.isNew_fresh
  case grows => exact fun base => ⟨names.freshName_notMem base, names.mem_taken_fresh base⟩
  case distinct => exact fun calls => (names.nodup_given calls).1
  case unused =>
    intro early base late
    have hfree := (names.after early).freshName_notMem base
    rw [names.mem_taken_after] at hfree
    refine ⟨((names.after early).fresh base).1, ?_, fun h => hfree (.inr (.inr h)),
      fun h => hfree (.inr (.inl h)), fun h => hfree (.inl h)⟩
    rw [names.given_append, names.after_append]
    rfl

/-- A base that ends in a digit meets the names that another base was given. -/
example : given ⟨["a"]⟩ [.fresh "a", .reserve "a12", .fresh "a1", .fresh "a1"] =
    (["a1", "a11", "a13"] : List Text) := by
  decide

end Names

end ModuleLowering
