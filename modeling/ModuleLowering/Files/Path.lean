import ModuleLowering.Text.Encoding

/-!
# Paths

A path in normal form: empty parts and dots are left out, and two dots stay. Two paths are shown
alike only if they have the same parts.
-/

set_option autoImplicit false

namespace ModuleLowering

/-- A path. -/
structure Path where
  /-- The slashes in front: none, one, or exactly two. -/
  root : Text
  parts : List Text
deriving DecidableEq, Inhabited

namespace Path

/-- The root that a number of slashes in front stands for. -/
def rootOfSlashes (n : Nat) : Text :=
  if n = 0 then "" else if n = 2 then "//" else "/"

/-- Whether a part counts. -/
def isPart (part : Text) : Bool := !part.isEmpty && part ≠ "."

def ofText (t : Text) : Path :=
  let slashes := (t.takeWhile fun (c : CodePoint) => c = '/').length
  ⟨rootOfSlashes slashes, (t.splitAt '/').filter isPart⟩

/-- A path as text; the empty one is a dot. -/
def text (p : Path) : Text :=
  let t := p.root ++ Text.join "/" p.parts
  if t.isEmpty then "." else t

/-- The last part of a path. -/
def name (p : Path) : Text := p.parts.getLast?.getD []

/-- A path below a path. -/
def child (p : Path) (name : Text) : Path := ⟨p.root, p.parts ++ [name]⟩

end Path

end ModuleLowering
