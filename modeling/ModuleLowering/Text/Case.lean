import ModuleLowering.Text.Basic
import ModuleLowering.Text.CaseRanges

/-!
# Letter case

Lower case by tables, and the code points that count as the same letter when case is ignored. The
rules come in two strengths: for ASCII letters alone, and for all letters.
-/

set_option autoImplicit false

namespace ModuleLowering.CodePoint

/-- The lower-case form of a code point, given by its number. -/
def lowerOf (ascii : Bool) (n : Nat) : Nat :=
  if 0x41 ≤ n && n ≤ 0x5A then n + 0x20
  else if ascii || n < 0x80 then n
  else
    let run? := lowerRuns.find? fun (first, last, step, _) =>
      first ≤ n && n ≤ last && (n - first) % step = 0
    match run? with
    | some (first, _, _, target) => target + (n - first)
    | none => n

/-- The lower-case code points that stand for the same letter as the lower-case one `n`. -/
def family (ascii : Bool) (n : Nat) : List Nat :=
  if ascii then [n] else (letterFamilies.find? fun f => f.contains n).getD [n]

/-- The code points beyond ASCII whose lower-case form is `n`. -/
def capitals (n : Nat) : List Nat :=
  lowerRuns.filterMap fun (first, last, step, target) =>
    if target ≤ n && n - target ≤ last - first && (n - target) % step = 0 then
      some (first + (n - target))
    else none

/-- The code points whose lower-case form is `n`. -/
def spellings (ascii : Bool) (n : Nat) : List Nat :=
  (if lowerOf ascii n = n then [n] else []) ++
    (if 0x61 ≤ n && n ≤ 0x7A then [n - 0x20] else []) ++ (if ascii then [] else capitals n)

/-- The code points that are the same letter as `n` when case is ignored. -/
def sameLetter (ascii : Bool) (n : Nat) : List Nat :=
  (family ascii (lowerOf ascii n)).flatMap (spellings ascii)

end ModuleLowering.CodePoint
