import ModuleLowering.Number.Numeral
import ModuleLowering.Number.Shortest
import ModuleLowering.Text.Quoted

/-!
# Literal values

The value of a literal. Two values are equal if they stand for the same thing; a truth value counts
as the number one or zero.
-/

set_option autoImplicit false

namespace ModuleLowering

/-- The value of a literal. -/
inductive Value where
  | text (t : Text)
  | boolean (b : Bool)
  | null
  | number (n : Number)
deriving Inhabited

namespace Value

def number? : Value → Option Number
  | boolean b => some (.integer (if b then 1 else 0))
  | number n => some n
  | _ => none

/-- Equality of values. -/
def same : Value → Value → Bool
  | text s, text t => s = t
  | null, null => true
  | v, w =>
    match v.number?, w.number? with
    | some m, some n => m.sameValue n
    | _, _ => false

instance : BEq Value := ⟨same⟩

/-- Whether a value counts as nothing: an empty text, zero, `false` or `null`. -/
def isEmpty : Value → Bool
  | text t => t.isEmpty
  | null => true
  | v => (v.number?.map (·.sameValue (.integer 0))).getD false

/-- A value as messages show it. -/
def shown : Value → Text
  | text t => t.shown
  | boolean b => if b then "True" else "False"
  | null => "None"
  | number (.integer n) => Text.ofInt n
  | number (.float x) => x.text

end Value

end ModuleLowering
