import ModuleLowering.Text.Class

/-!
# Patterns

What a pattern for texts is made of, and how long the texts are that it matches.
-/

set_option autoImplicit false

namespace ModuleLowering.Pattern

/-- A switch that changes how a pattern is read or matched. -/
inductive Flag where
  | ignoreCase
  | locale
  | multiline
  | dotAll
  | verbose
  | ascii
  | template
  | unicode
deriving DecidableEq

namespace Flag

def letters : List (CodePoint × Flag) :=
  [('i', ignoreCase), ('L', locale), ('m', multiline), ('s', dotAll), ('x', verbose),
    ('a', ascii), ('t', template), ('u', unicode)]

def ofLetter? (c : CodePoint) : Option Flag := (letters.find? (·.1 = c)).map (·.2)

/-- Whether a flag says which characters the classes hold. -/
def choosesClasses (f : Flag) : Bool := f = ascii || f = locale || f = unicode

end Flag

/-- A class of code points with a name of one letter. -/
inductive Category where
  | digit
  | space
  | word
deriving DecidableEq

/-- A member of a set of code points. -/
inductive Member where
  | literal (c : CodePoint)
  | range (low high : CodePoint)
  | category (k : Category) (negated : Bool)
deriving DecidableEq

/-- A condition on a place in a text. -/
inductive Anchor where
  | lineStart
  | lineEnd
  | textStart
  | textEnd
  | boundary
  | noBoundary
deriving DecidableEq

/-- How a repetition chooses between going on and stopping. -/
inductive Greed where
  /-- As often as possible, giving back if the rest does not match. -/
  | greedy
  /-- As seldom as possible. -/
  | reluctant
  /-- As often as possible, giving nothing back. -/
  | possessive
deriving DecidableEq

/-- A part of a pattern. -/
inductive Item where
  | literal (c : CodePoint)
  | any
  | set (negated : Bool) (members : List Member)
  | anchor (a : Anchor)
  | choice (alternatives : List (List Item))
  | repeated (greed : Greed) (least : Nat) (most : Option Nat) (body : List Item)
  | group (number : Option Nat) (on off : List Flag) (body : List Item)
  | atomic (body : List Item)
  | look (behind negated : Bool) (body : List Item)
  | backreference (number : Nat)
  | conditional (number : Nat) (yes no : List Item)

/-! ## Widths -/

/-- The least and the greatest length of the texts that something matches. -/
structure Width where
  least : Nat
  greatest : Nat
deriving DecidableEq

namespace Width

/-- Lengths from here on are not told apart. -/
def limit : Nat := Nat.pow 2 64

/-- The width of the empty text. -/
def zero : Width := ⟨0, 0⟩

/-- The width of a single code point. -/
def one : Width := ⟨1, 1⟩

/-- The width of one thing after another. -/
def add (v w : Width) : Width := ⟨v.least + w.least, v.greatest + w.greatest⟩

def either (v w : Width) : Width := ⟨min v.least w.least, max v.greatest w.greatest⟩

def times (w : Width) (least : Nat) (most : Option Nat) : Width :=
  ⟨w.least * least,
    match most with
    | some n => w.greatest * n
    | none => if w.greatest = 0 then 0 else limit⟩

def capped (w : Width) : Width := ⟨min w.least limit, min w.greatest limit⟩

end Width

mutual

/-- The width of a part, `groups` being the widths of the numbered groups. -/
def Item.width (groups : List (Option Width)) : Item → Width
  | .literal _ | .any | .set .. => .one
  | .anchor _ | .look .. => .zero
  | .choice alternatives => choiceWidth groups alternatives
  | .repeated _ least most body => (width groups body).times least most
  | .group _ _ _ body | .atomic body => width groups body
  | .backreference number => (groups[number]?.join).getD .zero
  | .conditional _ yes no => (width groups yes).either (width groups no)

/-- The width of parts one after the other. -/
def sumWidth (groups : List (Option Width)) : List Item → Width
  | [] => .zero
  | item :: rest => (item.width groups).add (sumWidth groups rest)

/-- The width of parts one after the other, up to the limit. -/
def width (groups : List (Option Width)) : List Item → Width
  | [] => .zero
  | item :: rest => ((item.width groups).add (sumWidth groups rest)).capped

/-- The width of one of several alternatives. -/
def choiceWidth (groups : List (Option Width)) : List (List Item) → Width
  | [] => .zero
  | [only] => width groups only
  | first :: rest => (width groups first).either (choiceWidth groups rest)

end

end ModuleLowering.Pattern
