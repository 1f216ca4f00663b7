import Mathlib.Data.List.Forall2
import ModuleLowering.Proofs.Printing
import ModuleLowering.Token.Scanner

/-!
# What the text of an expression is composed of

Words and signs, groups in brackets, and the blocks of functions. The word `in` may be banned
outside brackets, except behind a dot. A block is what is printed for a block at its depth, whatever
is around it.
-/

set_option autoImplicit false

namespace ModuleLowering

namespace Print

/-! ## Texts side by side -/

/-- No word goes on behind the text. -/
def Closes (t : Text) : Prop := ∀ c ∈ t.getLast?, Scanner.isNamePart c = false

/-- No word goes on with the text. -/
def Opens (t : Text) : Prop := ∀ c ∈ t.head?, Scanner.isNamePart c = false

instance (t : Text) : Decidable (Closes t) :=
  inferInstanceAs (Decidable (∀ c ∈ t.getLast?, Scanner.isNamePart c = false))

instance (t : Text) : Decidable (Opens t) :=
  inferInstanceAs (Decidable (∀ c ∈ t.head?, Scanner.isNamePart c = false))

/-- What the printer writes by itself. -/
def fixedTexts : List Text :=
  ["this", "super", "async ", "function", "*", "class", " extends ", "static ", "get ", "set ",
    "new ", "await ", "yield", "yield*", "import", " ", "  ", "\n", ",", ", ", ";", "...", " = ",
    ": ", " => ", " ? ", " : ", "?", "?."]

def brackets : List (Text × Text) := [("(", ")"), ("[", "]"), ("\x7b", "\x7d")]

/-- A text made of what the printer writes, of `own` words, of groups in brackets and of blocks,
which are listed. Outside brackets `in` is none of the words unless `free` holds or a dot stands
before it. -/
inductive Composed (own : Text → Prop) : (free : Bool) → Text → List Node → Prop where
  | empty {free : Bool} : Composed own free [] []
  | fixed {free : Bool} {x : Text} : x ∈ fixedTexts → Composed own free x []
  | word {free : Bool} {x : Text} : own x → (x = "in" → free = true) → Composed own free x []
  | member {free : Bool} {x : Text} : own x → Composed own free ("." ++ x) []
  | group {free : Bool} {b : Text × Text} {t : Text} {ns : List Node} : b ∈ brackets →
      Composed own true t ns → Composed own free (b.1 ++ t ++ b.2) ns
  | block {free : Bool} {depth : Nat} {n : Node} {t : Text} :
      Print.block depth (some n.printed) = .ok t → Composed own free t [n]
  | append {free : Bool} {t u : Text} {ns ms : List Node} : Composed own free t ns →
      Composed own free u ms → Closes t ∨ Opens u → Composed own free (t ++ u) (ns ++ ms)

section

variable {own : Text → Prop} {free : Bool} {t u x : Text} {ns ms : List Node}

theorem opens_append (ht : Opens t) (hne : t ≠ []) (u : Text) : Opens (t ++ u) := by
  cases t with
  | nil => exact absurd rfl hne
  | cons c t => exact ht

theorem opens_parenthesized (t : Text) : Opens (parenthesized t) :=
  opens_append (t := "(" ++ t) (opens_append (by decide) (by decide) t) (List.cons_ne_nil _ _) _

namespace Composed

theorem mark (b : Bool) (hx : x ∈ fixedTexts) : Composed own free (Print.mark b x) [] := by
  cases b with
  | false => exact .empty
  | true => exact .fixed hx

/-- A text with one of the printer's in front of it. -/
theorem before (ht : Composed own free t ns) (hx : x ∈ fixedTexts) (hcloses : Closes x) :
    Composed own free (x ++ t) ns := by
  have happend := append (.fixed hx) ht (.inl hcloses)
  rwa [List.nil_append] at happend

/-- A text with one of the printer's behind it. -/
theorem behind (ht : Composed own free t ns) (hx : x ∈ fixedTexts) (hopens : Opens x) :
    Composed own free (t ++ x) ns := by
  have happend := append ht (.fixed hx) (.inr hopens)
  rwa [List.append_nil] at happend

/-- Two texts with one of the printer's between them. -/
theorem between (ht : Composed own free t ns) (hu : Composed own free u ms)
    (hx : x ∈ fixedTexts) (hopens : Opens x) (hcloses : Closes x) :
    Composed own free (t ++ x ++ u) (ns ++ ms) := by
  rw [List.append_assoc]
  apply append ht (hu.before hx hcloses)
  cases x with
  | nil => exact absurd hx (by decide)
  | cons c x => exact .inr hopens

theorem parenthesized (ht : Composed own true t ns) :
    Composed own free (Print.parenthesized t) ns :=
  group (b := ("(", ")")) (by decide) ht

/-- Texts with one of the printer's between each two. -/
theorem join {ts : List Text} {nss : List (List Node)}
    (h : List.Forall₂ (Composed own free) ts nss) (hx : x ∈ fixedTexts) (hopens : Opens x)
    (hcloses : Closes x) : Composed own free (Text.join x ts) nss.flatten := by
  induction h with
  | nil => exact .empty
  | @cons t ns ts nss ht hts ih =>
    cases hts with
    | nil => simpa [Text.join] using ht
    | cons hu hrest =>
      rw [Text.join, List.intercalate_cons_cons]
      exact ht.between ih hx hopens hcloses

theorem commas {ts : List Text} {nss : List (List Node)}
    (h : List.Forall₂ (Composed own free) ts nss) :
    Composed own free (Print.commas ts) nss.flatten :=
  join h (by decide) (by decide) (by decide)

theorem indent (depth : Nat) : Composed own free (Print.indent depth) [] := by
  induction depth with
  | zero => exact .empty
  | succ depth ih => exact ih.before (x := "  ") (by decide) (by decide)

theorem inBraces {ts : List Text} {nss : List (List Node)}
    (h : List.Forall₂ (Composed own true) ts nss) :
    Composed own free (Print.inBraces ts) nss.flatten := by
  cases h with
  | nil => exact group (b := ("\x7b", "\x7d")) (by decide) .empty
  | @cons t ns ts nss ht hts =>
    have hcommas := commas (.cons ht hts)
    have hinner : Composed own true (" " ++ Print.commas (t :: ts) ++ " ") (ns ++ nss.flatten) :=
      (hcommas.before (by decide) (by decide)).behind (by decide) (by decide)
    have htext : Print.inBraces (t :: ts) =
        ("\x7b" : Text) ++ (" " ++ Print.commas (t :: ts) ++ " ") ++ "\x7d" := by
      show ("\x7b " : Text) ++ Print.commas (t :: ts) ++ " \x7d" = _
      simp only [List.append_assoc]
      rfl
    rw [htext]
    exact group (b := ("\x7b", "\x7d")) (by decide) hinner

theorem linesInBraces {ts : List Text} {nss : List (List Node)}
    (h : List.Forall₂ (Composed own true) ts nss) (depth : Nat) :
    Composed own free (Print.linesInBraces depth ts) nss.flatten := by
  cases h with
  | nil => exact group (b := ("\x7b", "\x7d")) (by decide) .empty
  | @cons t ns ts nss ht hts =>
    have hlines := join (x := "\n") (.cons ht hts) (by decide) (by decide) (by decide)
    have hinner : Composed own true
        ("\n" ++ Text.join "\n" (t :: ts) ++ "\n" ++ Print.indent depth)
        (ns ++ nss.flatten ++ []) :=
      (hlines.before (by decide) (by decide)).between (indent depth) (by decide) (by decide)
        (by decide)
    rw [List.append_nil] at hinner
    have htext : Print.linesInBraces depth (t :: ts) =
        ("\x7b" : Text) ++ ("\n" ++ Text.join "\n" (t :: ts) ++ "\n" ++ Print.indent depth) ++
          "\x7d" := by
      show ("\x7b\n" : Text) ++ Text.join "\n" (t :: ts) ++ "\n" ++ Print.indent depth ++ "\x7d" = _
      simp only [List.append_assoc]
      rfl
    rw [htext]
    exact group (b := ("\x7b", "\x7d")) (by decide) hinner

end Composed

end

end Print

end ModuleLowering
