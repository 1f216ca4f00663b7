import Mathlib.Data.List.Nodup
import Mathlib.Data.List.Perm.Subperm
import Mathlib.Data.List.Range
import ModuleLowering.Proofs.Traversal
import ModuleLowering.Registry.Names

/-!
# Laws of new names

A new name is free, because of more candidates than there are taken names one is free. A run of the
allocator is described by the names that it gave: they are taken from then on, they differ from each
other, none of them was taken before the run, and all begin with an underscore as their bases do.
What is taken at the start are the identifiers of the tree. A template literal is one node of it
that holds its text, so the names in its substitutions are not among them.
-/

set_option autoImplicit false

namespace ModuleLowering

namespace Names

/-! ## Candidates -/

theorem ofNat_ne_nil (n : Nat) : Text.ofNat n ≠ [] := by
  unfold Text.ofNat
  intro h
  exact Nat.toDigits_ne_nil (List.map_eq_nil_iff.1 h)

/-- Different numbers give different candidates. -/
theorem candidate_injective (base : Text) : Function.Injective (candidate base) := by
  intro j k h
  unfold candidate at h
  split at h <;> split at h
  · omega
  · exact absurd (List.self_eq_append_right.1 h) (ofNat_ne_nil k)
  · exact absurd (List.append_right_eq_self.1 h) (ofNat_ne_nil j)
  · exact Text.ofNat_inj.1 (List.append_cancel_left h)

theorem base_prefix_candidate (base : Text) (k : Nat) : base <+: candidate base k := by
  unfold candidate
  split
  · exact List.prefix_refl base
  · exact List.prefix_append base _

/-! ## The search -/

variable (names : Names) (base : Text)

/-- The search passes over taken candidates only. -/
theorem mem_taken_of_lt_freeFrom {fuel k j : Nat} (hk : k ≤ j)
    (hj : j < names.freeFrom base fuel k) : candidate base j ∈ names.taken := by
  induction fuel generalizing k with
  | zero =>
    rw [freeFrom] at hj
    omega
  | succ fuel ih =>
    rw [freeFrom] at hj
    split at hj
    case isTrue htaken =>
      by_cases hjk : k = j
      · subst hjk
        exact List.contains_iff_mem.1 htaken
      · exact ih (by omega) hj
    case isFalse => omega

/-- The search ends at a free candidate unless it runs out of fuel. -/
theorem freeFrom_free_or (fuel k : Nat) :
    candidate base (names.freeFrom base fuel k) ∉ names.taken ∨
      names.freeFrom base fuel k = k + fuel := by
  induction fuel generalizing k with
  | zero => exact Or.inr rfl
  | succ fuel ih =>
    rw [freeFrom]
    split
    case isTrue =>
      have hrest := ih (k + 1)
      rw [Nat.add_assoc, Nat.add_comm 1 fuel] at hrest
      exact hrest
    case isFalse hfree => exact Or.inl fun hmem => hfree (List.contains_iff_mem.2 hmem)

/-- A new name is free. -/
theorem freshName_notMem : names.freshName base ∉ names.taken := by
  unfold freshName
  cases names.freeFrom_free_or base names.taken.length 0 with
  | inl hfree => exact hfree
  | inr hend =>
    -- Were this candidate taken too, there would be more taken candidates than taken names.
    intro hlast
    have hsub : (List.range (names.taken.length + 1)).map (candidate base) ⊆ names.taken := by
      intro x hx
      obtain ⟨j, hj, rfl⟩ := List.mem_map.1 hx
      have hle : j ≤ names.taken.length := Nat.lt_succ_iff.1 (List.mem_range.1 hj)
      rcases Nat.lt_or_eq_of_le hle with hlt | heq
      · have hsearch : j < names.freeFrom base names.taken.length 0 := by omega
        exact names.mem_taken_of_lt_freeFrom base (Nat.zero_le j) hsearch
      · rw [heq, ← Nat.zero_add names.taken.length, ← hend]
        exact hlast
    have hnodup : ((List.range (names.taken.length + 1)).map (candidate base)).Nodup :=
      List.nodup_range.map (candidate_injective base)
    have hlength := (hnodup.subperm hsub).length_le
    rw [List.length_map, List.length_range] at hlength
    omega

theorem base_prefix_freshName : base <+: names.freshName base := base_prefix_candidate base _

end Names

/-! ## Templates -/

namespace Node

/-- A tree with the texts of its template literals changed. -/
def withTemplates (f : Text → Text) (n : Node) : Node :=
  n.fold fun n form =>
    match form with
    | .templateLiteral raw => n.withForm (.templateLiteral (f raw))
    | form => n.withForm form

theorem names_withTemplates (f : Text → Text) (n : Node) : (n.withTemplates f).names = n.names := by
  induction n using induction_children with
  | step n ih =>
    have hname : (n.withTemplates f).name? = n.name? := by
      obtain ⟨loc, form⟩ := n
      rw [withTemplates, fold_eq]
      cases form <;> rfl
    have hchildren : (n.withTemplates f).children = n.children.map (withTemplates f) := by
      obtain ⟨loc, form⟩ := n
      rw [withTemplates, fold_eq]
      cases form with
      | templateLiteral => rfl
      | _ => exact parts_foldForm _ _
    rw [names_eq, names_eq n, hname, hchildren, List.flatMap_map, List.flatMap_congr ih]

end Node

/-- What templates hold takes no names: whatever it is, a module starts with the same names taken,
and so the same new names are given for the same bases. -/
theorem Names.ofProgram_withTemplates (f : Text → Text) (program : Node) :
    ofProgram (program.withTemplates f) = ofProgram program := by
  rw [ofProgram, ofProgram, program.names_withTemplates]

/-! ## Runs of the allocator -/

/-- Between two states of the allocator the names `given` were given, in this order. -/
structure Allocated (before after : Names) (given : List Text) : Prop where
  taken : after.taken = given.reverse ++ before.taken
  nodup : given.Nodup
  notMem : ∀ x ∈ given, x ∉ before.taken
  underscored : ∀ x ∈ given, ("_" : Text) <+: x

namespace Allocated

theorem refl (names : Names) : Allocated names names [] := ⟨rfl, List.nodup_nil, by simp, by simp⟩

/-- What two runs in a row give. -/
theorem trans {first second third : Names} {early late : List Text}
    (h : Allocated first second early) (k : Allocated second third late) :
    Allocated first third (early ++ late) := by
  have hmem : ∀ x, x ∈ second.taken ↔ x ∈ early ∨ x ∈ first.taken := by
    intro x
    rw [h.taken, List.mem_append, List.mem_reverse]
  refine ⟨?_, ?_, ?_, ?_⟩
  · rw [k.taken, h.taken, List.reverse_append, List.append_assoc]
  · refine List.nodup_append.2 ⟨h.nodup, k.nodup, ?_⟩
    rintro x hx _ hy rfl
    exact k.notMem x hy ((hmem x).2 (Or.inl hx))
  · intro x hx
    rcases List.mem_append.1 hx with hearly | hlate
    · exact h.notMem x hearly
    · exact fun hfirst => k.notMem x hlate ((hmem x).2 (Or.inr hfirst))
  · intro x hx
    exact (List.mem_append.1 hx).elim (h.underscored x) (k.underscored x)

/-- A new name is given alone. -/
theorem fresh (names : Names) {base : Text} (hbase : ("_" : Text) <+: base) :
    Allocated names (names.fresh base).2 [(names.fresh base).1] := by
  refine ⟨rfl, List.nodup_singleton _, ?_, ?_⟩
  · intro x hx
    rw [List.mem_singleton.1 hx]
    exact names.freshName_notMem base
  · intro x hx
    rw [List.mem_singleton.1 hx]
    exact hbase.trans (names.base_prefix_freshName base)

end Allocated

end ModuleLowering
