import Mathlib.Data.List.Nodup
import ModuleLowering.Json.Reader
import ModuleLowering.Proofs.Configuring

/-!
# Members of objects

The members of an object are a table: setting one changes the value of its name and no other. A text
that spells an object gives members with different names, because each one that is read is set among
those before it.
-/

set_option autoImplicit false

namespace ModuleLowering.Json

/-! ## Tables -/

section

variable {α β : Type}

theorem lookUp?_cons (x : Text) (member : Text × α) (members : List (Text × α)) :
    lookUp? x (member :: members) = if member.1 = x then some member.2 else lookUp? x members := by
  unfold lookUp?
  by_cases h : member.1 = x
  · simp [h]
  · simp [h]

theorem lookUp?_map (f : α → β) (x : Text) (members : List (Text × α)) :
    lookUp? x (members.map fun m => (m.1, f m.2)) = (lookUp? x members).map f := by
  induction members with
  | nil => rfl
  | cons member members ih =>
    rw [List.map_cons, lookUp?_cons, lookUp?_cons, ih]
    split <;> rfl

/-- Setting a member changes the value of its name and no other. -/
theorem lookUp?_setMember (x name : Text) (value : α) (members : List (Text × α)) :
    lookUp? x (setMember name value members) =
      if name = x then some value else lookUp? x members := by
  induction members with
  | nil => exact lookUp?_cons x (name, value) []
  | cons member members ih =>
    rw [setMember]
    by_cases hname : member.1 = name
    · rw [if_pos hname, lookUp?_cons, lookUp?_cons, hname]
      split <;> rfl
    · rw [if_neg hname, lookUp?_cons, lookUp?_cons, ih]
      by_cases hx : member.1 = x
      · rw [if_pos hx, if_pos hx, if_neg fun h => hname (hx.trans h.symm)]
      · rw [if_neg hx, if_neg hx]

/-- The names of some members are those of the members before one was set, and its name. -/
theorem mem_map_fst_setMember {x name : Text} {value : α} {members : List (Text × α)} :
    x ∈ (setMember name value members).map Prod.fst ↔ x = name ∨ x ∈ members.map Prod.fst := by
  induction members with
  | nil => simp [setMember]
  | cons member members ih =>
    rw [setMember]
    split
    case isTrue h => simp [h]
    case isFalse => simp only [List.map_cons, List.mem_cons, ih, or_left_comm]

/-- Members whose names differ from each other. -/
def Distinct (members : List (Text × α)) : Prop := (members.map Prod.fst).Nodup

theorem Distinct.setMember {members : List (Text × α)} (h : Distinct members) (name : Text)
    (value : α) : Distinct (setMember name value members) := by
  induction members with
  | nil => exact List.nodup_singleton name
  | cons member members ih =>
    obtain ⟨hfirst, hrest⟩ := List.nodup_cons.1 h
    rw [Json.setMember]
    split
    case isTrue hname =>
      subst hname
      exact List.nodup_cons.2 ⟨hfirst, hrest⟩
    case isFalse hname =>
      refine List.nodup_cons.2 ⟨fun hmem => ?_, ih hrest⟩
      exact (mem_map_fst_setMember.1 hmem).elim hname hfirst

theorem lookUp?_eq_none {x : Text} {members : List (Text × α)}
    (h : x ∉ members.map Prod.fst) : lookUp? x members = none := by
  induction members with
  | nil => rfl
  | cons member members ih =>
    obtain ⟨hfirst, hrest⟩ := List.ne_and_not_mem_of_not_mem_cons h
    rw [lookUp?_cons, if_neg hfirst.symm, ih hrest]

end

/-- Among members with different names it makes no difference which entry of a name counts. -/
theorem lastOf?_eq_lookUp? {members : List (Text × Json)} (h : Distinct members) (x : Text) :
    Config.lastOf? x members = lookUp? x members := by
  induction members with
  | nil => rfl
  | cons member members ih =>
    obtain ⟨hfirst, hrest⟩ := List.nodup_cons.1 h
    rw [Config.lastOf?_cons, ih hrest, lookUp?_cons]
    split
    case isTrue hname =>
      subst hname
      rw [lookUp?_eq_none hfirst, Option.none_or]
    case isFalse => exact Option.or_none

/-! ## Objects that are read -/

theorem exists_of_map_eq_ok {ε α β : Type} {x : Except ε α} {f : α → β} {b : β}
    (h : x.map f = .ok b) : ∃ a, x = .ok a ∧ f a = b := by
  cases x with
  | error e => cases h
  | ok a => exact ⟨a, rfl, Except.ok.inj h⟩

theorem distinct_of_moreMembers {read : Text → Except Stop (Json × Text)} {fuel : Nat}
    {known found : List (Text × Json)} {t rest : Text} (hknown : Distinct known)
    (h : moreMembers read fuel known t = .ok (found, rest)) : Distinct found := by
  induction fuel generalizing known t with
  | zero => cases h
  | succ fuel ih =>
    rw [moreMembers] at h
    dsimp only at h
    split at h
    · cases h
      exact hknown
    · split at h
      · obtain ⟨next, -, h⟩ := Config.bind_eq_ok.1 h
        exact ih (hknown.setMember next.1.1 next.1.2) h
      · cases h

theorem distinct_of_members {read : Text → Except Stop (Json × Text)}
    {found : List (Text × Json)} {t rest : Text} (h : members read t = .ok (found, rest)) :
    Distinct found := by
  unfold members at h
  dsimp only at h
  split at h
  · cases h
    exact List.nodup_nil
  · obtain ⟨first, -, h⟩ := Config.bind_eq_ok.1 h
    have hfirst : Distinct [first.1] := List.nodup_singleton first.1.1
    exact distinct_of_moreMembers hfirst h

theorem word?_ne_object {t rest : Text} {members : List (Text × Json)} :
    word? t ≠ some (object members, rest) := by
  intro h
  obtain ⟨word, hword, hvalue⟩ := Option.map_eq_some_iff.1 h
  have hmem := List.mem_of_find?_eq_some hword
  have hobject : word.2 = object members := congrArg Prod.fst hvalue
  simp only [words, List.mem_cons, List.not_mem_nil, or_false] at hmem
  rcases hmem with rfl | rfl | rfl | rfl | rfl | rfl <;> cases hobject

theorem number?_ne_object {t rest : Text} {members : List (Text × Json)} :
    number? t ≠ some (.ok (object members, rest)) := by
  intro h
  unfold number? at h
  dsimp only at h
  split at h
  · cases h
  · split at h <;> cases h

theorem distinct_of_value {fuel : Nat} {t rest : Text} {found : List (Text × Json)}
    (h : value fuel t = .ok (object found, rest)) : Distinct found := by
  cases fuel with
  | zero => cases h
  | succ fuel =>
    cases t with
    | nil => cases h
    | cons c t =>
      rw [value] at h
      split at h
      · obtain ⟨_, -, h⟩ := exists_of_map_eq_ok h
        cases h
      split at h
      · obtain ⟨_, -, h⟩ := exists_of_map_eq_ok h
        cases h
      split at h
      · obtain ⟨⟨members, rest'⟩, hmembers, h⟩ := exists_of_map_eq_ok h
        cases h
        exact distinct_of_members hmembers
      split at h
      case h_1 word hword =>
        cases h
        exact absurd hword word?_ne_object
      case h_2 =>
        cases hnumber : number? (c :: t) with
        | none =>
          rw [hnumber] at h
          cases h
        | some result =>
          rw [hnumber] at h
          cases (show result = _ from h)
          exact absurd hnumber number?_ne_object

/-- The members of an object that a whole text spells have different names. -/
theorem distinct_of_ofText {t : Text} {found : List (Text × Json)}
    (h : ofText t = .ok (object found)) : Distinct found := by
  unfold ofText at h
  dsimp only at h
  split at h
  · cases h
  obtain ⟨⟨v, rest⟩, hvalue, h⟩ := Config.bind_eq_ok.1 h
  dsimp only at h
  split at h
  · cases h
    exact distinct_of_value hvalue
  · cases h

end ModuleLowering.Json
