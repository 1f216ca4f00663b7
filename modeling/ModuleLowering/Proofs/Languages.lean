import Mathlib.Computability.Language
import Mathlib.Order.CompletePartialOrder
import Mathlib.Tactic.Abel
import ModuleLowering.Proofs.Grammar

/-!
# The languages of the grammar

What a phrase derives is a language, and sequences, choices and repetitions are products, sums and
stars of languages. Rules that refer to themselves on the left derive what a loop does.
-/

set_option autoImplicit false

namespace ModuleLowering

open Computability

/-- The words that a phrase derives. -/
def Phrase.language (p : Phrase) : Language Terminal := {w | Derives p w}

/-- The words that a rule derives. -/
def Rule.language (r : Rule) : Language Terminal := (Phrase.rule r).language

/-- The terminal as a word. -/
def Terminal.alone (t : Terminal) : Language Terminal := {[t]}

/-- The terminals that pass a test, each as a word. -/
def anyOf (test : Terminal → Bool) : Language Terminal := {w | ∃ t, test t = true ∧ w = [t]}

def Word.alone (w : Word) : Language Terminal := Terminal.alone (.word w)

def Punctuator.alone (p : Punctuator) : Language Terminal := Terminal.alone (.punctuator p)

@[simp] theorem Terminal.alone_word (w : Word) : (Terminal.word w).alone = w.alone := rfl

@[simp] theorem Terminal.alone_punctuator (p : Punctuator) :
    (Terminal.punctuator p).alone = p.alone := rfl

theorem anyOf_eq_alone (t : Terminal) : anyOf (fun u => decide (u = t)) = t.alone := by
  ext w
  constructor
  · rintro ⟨u, hu, rfl⟩
    exact congrArg (fun u => [u]) (of_decide_eq_true hu)
  · rintro rfl
    exact ⟨t, decide_eq_true rfl, rfl⟩

/-- One or more words between commas. -/
def partsOf (l : Language Terminal) : Language Terminal := l * (Punctuator.comma.alone * l)∗

/-- Words between commas, perhaps none; a comma may come behind the last one. -/
def listOf (l : Language Terminal) : Language Terminal :=
  partsOf l * (Punctuator.comma.alone + 1) + 1

namespace Phrase

variable {p : Phrase} {ps qs : List Phrase}

@[simp] theorem language_one (t : Terminal) : (one t).language = t.alone := by
  ext w
  constructor
  · rintro ⟨⟩
    rfl
  · rintro rfl
    exact .one t

@[simp] theorem language_rule (r : Rule) : (rule r).language = r.language := rfl

@[simp] theorem language_seq_nil : (seq []).language = 1 := by
  ext w
  constructor
  · rintro ⟨⟩
    rfl
  · rintro rfl
    exact .nil

@[simp] theorem language_seq_cons (p : Phrase) (ps : List Phrase) :
    (seq (p :: ps)).language = p.language * (seq ps).language := by
  ext w
  constructor
  · intro h
    cases h with
    | cons hu hv => exact ⟨_, hu, _, hv, rfl⟩
  · rintro ⟨u, hu, v, hv, rfl⟩
    exact .cons hu hv

@[simp] theorem language_choice_nil : (choice []).language = 0 := by
  ext w
  constructor
  · intro h
    cases h with
    | choice hp _ => cases hp
  · intro h
    cases h

@[simp] theorem language_choice_cons (p : Phrase) (ps : List Phrase) :
    (choice (p :: ps)).language = p.language + (choice ps).language := by
  ext w
  constructor
  · intro h
    cases h with
    | choice hp hw =>
      rcases List.mem_cons.1 hp with rfl | hp
      · exact .inl hw
      · exact .inr (.choice hp hw)
  · rintro (h | h)
    · exact .choice List.mem_cons_self h
    · cases h with
      | choice hp hw => exact .choice (List.mem_cons_of_mem _ hp) hw

@[simp] theorem language_many (p : Phrase) : (many p).language = p.language∗ := by
  apply le_antisymm
  · intro w h
    generalize hq : many p = q at h
    induction h with
    | none => exact Language.nil_mem_kstar _
    | more hu _ _ ih =>
      cases hq
      rw [← one_add_mul_kstar]
      exact .inr ⟨_, hu, _, ih rfl, rfl⟩
    | _ => cases hq
  · refine kstar_le_of_mul_le_right ?_ ?_
    · rintro w rfl
      exact .none
    · rintro w ⟨u, hu, v, hv, rfl⟩
      exact .more hu hv

@[simp] theorem language_optional (ps : List Phrase) :
    (optional ps).language = (seq ps).language + 1 := by
  simp [optional]

@[simp] theorem language_commaParts (p : Phrase) :
    (commaParts p).language = partsOf p.language := by
  simp [commaParts, partsOf]

@[simp] theorem language_commaList (p : Phrase) :
    (commaList p).language = listOf p.language := by
  simp [commaList, listOf]

end Phrase

namespace Rule

theorem language_eq (r : Rule) : r.language = (Phrase.choice r.alternatives).language := by
  ext w
  constructor
  · intro h
    cases h with
    | rule hp hw => exact .choice hp hw
  · intro h
    cases h with
    | choice hp hw => exact .rule hp hw

theorem language_le {r : Rule} {p : Phrase} (h : p ∈ r.alternatives) : p.language ≤ r.language :=
  fun _ hw => .rule h hw

theorem language_only {r : Rule} {p : Phrase} (h : r.alternatives = [p]) :
    r.language = p.language := by
  rw [language_eq, h, Phrase.language_choice_cons, Phrase.language_choice_nil, add_zero]

end Rule

/-- A rule that refers to itself on the left derives what a loop does. -/
theorem eq_mul_kstar {l m n : Language Terminal} (hm : [] ∉ m) (h : l = n + l * m) :
    l = n * m∗ := by
  -- Arden's rule is at hand for a rule that refers to itself on the right.
  apply Language.reverse_injective
  rw [Language.reverse_mul, Language.reverse_kstar]
  refine (Language.self_eq_mul_add_iff ?_).1 ?_
  · simpa using hm
  · conv_lhs => rw [h, Language.reverse_add, Language.reverse_mul, add_comm]

theorem kstar_mul_eq (l m : Language Terminal) : (l * m)∗ = l * (m * (l * m)∗) + 1 := by
  conv_lhs => rw [← one_add_mul_kstar, mul_assoc, add_comm]

end ModuleLowering
