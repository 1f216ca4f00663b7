import ModuleLowering.Number.Shortest
import ModuleLowering.Number.Numeral
import ModuleLowering.Text.Quoted

/-!
# JSON values

The values of the data format in which configurations are given and reports are written, and their
text. The members of an object keep their order, and no name occurs twice.
-/

set_option autoImplicit false

namespace ModuleLowering

/-- A value of the data format. -/
inductive Json where
  | null
  | boolean (b : Bool)
  | number (n : Number)
  | text (t : Text)
  | array (items : List Json)
  | object (members : List (Text × Json))
deriving Inhabited

namespace Json

/-- A natural number as a value. -/
def ofNat (n : Nat) : Json := number (.integer n)

/-- A text as a value, or null. -/
def ofText? (t : Option Text) : Json := (t.map text).getD null

/-- A natural number as a value, or null. -/
def ofNat? (n : Option Nat) : Json := (n.map ofNat).getD null

/-! ## Members -/

/-- The members with one of them set: in its old place if its name is known, else at the end. -/
def setMember {α : Type} (name : Text) (value : α) : List (Text × α) → List (Text × α)
  | [] => [(name, value)]
  | (other, old) :: rest =>
    if other = name then (name, value) :: rest else (other, old) :: setMember name value rest

/-- The value of a name among members. -/
def lookUp? {α : Type} (name : Text) (members : List (Text × α)) : Option α :=
  (members.find? (·.1 = name)).map (·.2)

def member? (name : Text) : Json → Option Json
  | object members => lookUp? name members
  | _ => none

def text? : Json → Option Text
  | text t => some t
  | _ => none

/-- The truth value that a value is. -/
def boolean? : Json → Option Bool
  | boolean b => some b
  | _ => none

def items? : Json → Option (List Json)
  | array items => some items
  | _ => none

/-! ## Text -/

def numberText : Number → Text
  | .integer n => Text.ofInt n
  | .float .nan => "NaN"
  | .float (.infinite negative) => if negative then "-Infinity" else "Infinity"
  | .float x => x.text

mutual

/-- The text of a value in ASCII. -/
def render : Json → Text
  | null => "null"
  | boolean b => if b then "true" else "false"
  | number n => numberText n
  | text t => t.quotedAscii
  | array items => "[" ++ Text.join ", " (renderItems items) ++ "]"
  | object members => "\x7b" ++ Text.join ", " (renderMembers members) ++ "\x7d"

def renderItems : List Json → List Text
  | [] => []
  | item :: rest => item.render :: renderItems rest

def renderMembers : List (Text × Json) → List Text
  | [] => []
  | (name, value) :: rest => (name.quotedAscii ++ ": " ++ value.render) :: renderMembers rest

end

end Json

end ModuleLowering
