import ModuleLowering.Syntax.Traversal

/-!
# Taken names

The names that a module may no longer give to anything new. A new name is a base, or the base with
the least number behind it that makes it free.
-/

set_option autoImplicit false

namespace ModuleLowering

/-- The names that are taken in a module. -/
structure Names where
  taken : List Text
deriving Inhabited

namespace Names

/-- The names of all identifiers of a tree: bindings, references and member names alike. -/
def ofProgram (program : Node) : Names := ⟨program.names⟩

def isTaken (names : Names) (name : Text) : Bool := names.taken.contains name

/-- The names with one more taken. -/
def reserve (names : Names) (name : Text) : Names := ⟨name :: names.taken⟩

/-- The names to try for a base: the base itself, then the base with 1, 2, … behind it. -/
def candidate (base : Text) (k : Nat) : Text :=
  if k = 0 then base else base ++ Text.ofNat k

/-- The first of `fuel` candidates from the `k`-th on that is free, or the one behind them. -/
def freeFrom (names : Names) (base : Text) : Nat → Nat → Nat
  | 0, k => k
  | fuel + 1, k =>
    if names.isTaken (candidate base k) then freeFrom names base fuel (k + 1) else k

/-- The first free candidate. Of more candidates than there are taken names one is free. -/
def freshName (names : Names) (base : Text) : Text :=
  candidate base (names.freeFrom base names.taken.length 0)

/-- A new name, and the names with it taken. -/
def fresh (names : Names) (base : Text) : Text × Names :=
  (names.freshName base, names.reserve (names.freshName base))

end Names

end ModuleLowering
