import ModuleLowering.Text.Basic

/-!
# Positions

A position is a line and a column, both from one. Only a line feed starts a new line.
-/

set_option autoImplicit false

namespace ModuleLowering

/-- A line and a column of a text, both counted from one. -/
structure Position where
  line : Nat
  column : Nat
deriving DecidableEq, Inhabited

namespace Position

/-- The position of the first code point. -/
def start : Position := ⟨1, 1⟩

def next (p : Position) (c : CodePoint) : Position :=
  if c = '\n' then ⟨p.line + 1, 1⟩ else ⟨p.line, p.column + 1⟩

def advance (p : Position) (t : Text) : Position := t.foldl next p

@[simp] theorem advance_nil (p : Position) : p.advance [] = p := rfl

theorem advance_append (p : Position) (s t : Text) :
    p.advance (s ++ t) = (p.advance s).advance t := List.foldl_append

/-- The position `count` columns further on the same line. -/
def onLine (p : Position) (count : Nat) : Position := ⟨p.line, p.column + count⟩

end Position

end ModuleLowering
