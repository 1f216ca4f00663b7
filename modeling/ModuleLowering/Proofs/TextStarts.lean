import ModuleLowering.Proofs.ComposedTexts

/-!
# What texts start with

The first word of a text, and whether a text starts like a block, a function or a class. A text that
stands behind an operand does not go on with the operand's last word, so it changes neither.
-/

set_option autoImplicit false

namespace ModuleLowering

namespace Print

/-! ## The first token of a text -/

/-- The word that a text starts with; nothing where it starts with a sign. -/
def firstWord (t : Text) : Text := t.takeWhile Scanner.isNamePart

/-- A text from its first code point on that is no blank. -/
def withoutBlanks (t : Text) : Text := t.dropWhile fun c => c = ' '

/-- What stands behind the first word of a text and the blanks there. -/
def behindFirstWord (t : Text) : Text := withoutBlanks (t.dropWhile Scanner.isNamePart)

/-- Whether a text starts like a function or a class. -/
def opensDefinition (t : Text) : Bool :=
  firstWord t = "function" || firstWord t = "class" ||
    (firstWord t = "async" && firstWord (behindFirstWord t) = "function")

def opensBrace (t : Text) : Bool := t.startsWith "\x7b"

/-- Whether a text starts with a sign that is no brace. -/
def isSign (t : Text) : Bool :=
  t.head?.any fun (c : CodePoint) => !Scanner.isNamePart c && c ≠ ' ' && !opensBrace [c]

/-- Whether a text starts with a token other than a brace, a function or a class. -/
def isPlain (t : Text) : Bool :=
  t.head?.any (fun (c : CodePoint) => c ≠ ' ' && !opensBrace [c]) && !opensDefinition t

/-- What may stand behind an operand: it goes on with no word, and there is no `function` behind
its blanks. -/
structure Trails (t : Text) : Prop where
  opens : Opens t
  word : firstWord (withoutBlanks t) ≠ "function"

section

variable {t u w : Text} {c : CodePoint}

theorem opensBrace_append (hne : t ≠ []) (u : Text) : opensBrace (t ++ u) = opensBrace t := by
  cases t with
  | nil => exact absurd rfl hne
  | cons c t => simp [opensBrace, Text.startsWith, Text.ofString, List.isPrefixOf]

theorem firstWord_eq_nil (h : Opens t) : firstWord t = [] := by
  cases t with
  | nil => rfl
  | cons c t => exact List.takeWhile_cons_of_neg (by simp [h c rfl])

/-- No word goes on across the end of a text. -/
theorem firstWord_append (t : Text) (h : Opens u) : firstWord (t ++ u) = firstWord t := by
  have hnone : u.takeWhile Scanner.isNamePart = [] := firstWord_eq_nil h
  unfold firstWord
  rw [List.takeWhile_append]
  split
  next hall => rw [hnone, List.append_nil, (List.takeWhile_sublist _).eq_of_length hall]
  next => rfl

theorem dropWhile_isNamePart (h : Opens u) :
    (t ++ u).dropWhile Scanner.isNamePart = t.dropWhile Scanner.isNamePart ++ u := by
  have hnone : u.dropWhile Scanner.isNamePart = u := by
    cases u with
    | nil => rfl
    | cons c u => exact List.dropWhile_cons_of_neg (by simp [h c rfl])
  rw [List.dropWhile_append, hnone]
  split
  next hempty => rw [List.isEmpty_iff.1 hempty, List.nil_append]
  next => rfl

/-- Behind blanks the same word comes first where the text goes on with no word. -/
theorem firstWord_withoutBlanks_append (ht : firstWord (withoutBlanks t) ≠ "function")
    (hu : Trails u) : firstWord (withoutBlanks (t ++ u)) ≠ "function" := by
  unfold withoutBlanks at ht ⊢
  rw [List.dropWhile_append]
  split
  next => exact hu.word
  next => rwa [firstWord_append _ hu.opens]

namespace Trails

theorem nil : Trails [] := ⟨nofun, by decide⟩

theorem append (ht : Trails t) (hu : Trails u) : Trails (t ++ u) where
  opens := by
    by_cases hnil : t = []
    · rw [hnil]
      exact hu.opens
    · exact opens_append ht.opens hnil u
  word := firstWord_withoutBlanks_append ht.word hu

theorem sign (h : isSign t = true) (u : Text) : Trails (t ++ u) := by
  cases t with
  | nil => cases h
  | cons c t =>
    simp only [isSign, List.head?_cons, Option.any_some, Bool.and_eq_true, Bool.not_eq_true',
      decide_eq_true_eq] at h
    obtain ⟨⟨hpart, hblank⟩, -⟩ := h
    have hopens : Opens (c :: t ++ u) := by
      intro d hd
      obtain rfl := Option.some.inj hd
      exact hpart
    have hkept : withoutBlanks (c :: t ++ u) = c :: t ++ u :=
      List.dropWhile_cons_of_neg (by simpa using hblank)
    refine ⟨hopens, ?_⟩
    rw [hkept, firstWord_eq_nil hopens]
    decide

theorem ofSign (h : isSign t = true) : Trails t := by
  have happend := sign h []
  rwa [List.append_nil] at happend

/-- An operator between blanks, other than `function`. -/
theorem operator (hhead : t.head?.any (fun (c : CodePoint) => c ≠ ' ') = true)
    (hword : firstWord t ≠ "function") (u : Text) : Trails (" " ++ t ++ " " ++ u) := by
  cases t with
  | nil => cases hhead
  | cons c t =>
    have hkept : withoutBlanks (" " ++ c :: t ++ " " ++ u) = c :: t ++ (" " ++ u) := by
      show withoutBlanks (c :: t ++ " " ++ u) = _
      rw [List.append_assoc]
      exact List.dropWhile_cons_of_neg (by simpa using hhead)
    refine ⟨opens_append (t := " " ++ c :: t ++ " ") ?_ (List.cons_ne_nil _ _) u, ?_⟩
    · exact opens_append (t := " " ++ c :: t) (opens_append (by decide) (by decide) _)
        (List.cons_ne_nil _ _) _
    · rw [hkept, firstWord_append _ (opens_append (by decide) (by decide) u)]
      exact hword

theorem signOperator (h : isSign t = true) (u : Text) : Trails (" " ++ t ++ " " ++ u) := by
  apply operator
  · cases t with
    | nil => cases h
    | cons c t =>
      simp only [isSign, List.head?_cons, Option.any_some, Bool.and_eq_true] at h ⊢
      exact h.1.2
  · rw [firstWord_eq_nil (ofSign h).opens]
    decide

end Trails

/-- Nothing that stands behind an operand makes a definition of it. -/
theorem opensDefinition_of_append (hu : Trails u) (h : opensDefinition (t ++ u) = true) :
    opensDefinition t = true := by
  unfold opensDefinition behindFirstWord at h ⊢
  rw [firstWord_append t hu.opens, dropWhile_isNamePart hu.opens] at h
  simp only [Bool.or_eq_true, Bool.and_eq_true, decide_eq_true_eq] at h ⊢
  refine h.imp_right fun ⟨hasync, hfunction⟩ => ⟨hasync, ?_⟩
  by_contra hother
  exact firstWord_withoutBlanks_append hother hu hfunction

/-- A text with another word first is no definition, whatever comes behind the word. -/
theorem opensDefinition_word
    (hw : firstWord w ∉ ([("function" : Text), "class", "async"] : List Text))
    (ht : Opens t) : opensDefinition (w ++ t) = false := by
  simp only [List.mem_cons, List.not_mem_nil, or_false, not_or] at hw
  obtain ⟨hfunction, hclass, hasync⟩ := hw
  simp [opensDefinition, firstWord_append w ht, hfunction, hclass, hasync]

theorem firstWord_of_isPlain (h : isPlain t = true) : firstWord t ≠ "function" := by
  intro hword
  simp [isPlain, opensDefinition, hword] at h

theorem withoutBlanks_of_isPlain (h : isPlain t = true) (u : Text) :
    withoutBlanks (t ++ u) = t ++ u := by
  cases t with
  | nil => cases h
  | cons c t =>
    simp only [isPlain, List.head?_cons, Option.any_some, Bool.and_eq_true, decide_eq_true_eq] at h
    exact List.dropWhile_cons_of_neg (by simpa using h.1.1)

/-- A text that is a block only if `block` holds, and a definition only if `definition` does. -/
structure StartsLike (block definition : Prop) (t : Text) : Prop where
  nonempty : t ≠ []
  block : opensBrace t = true → block
  definition : opensDefinition t = true → definition

namespace StartsLike

variable {block definition : Prop}

theorem append (ht : StartsLike block definition t) (hu : Trails u) :
    StartsLike block definition (t ++ u) where
  nonempty := List.append_ne_nil_of_left_ne_nil ht.nonempty u
  block h := ht.block (by rwa [opensBrace_append ht.nonempty] at h)
  definition h := ht.definition (opensDefinition_of_append hu h)

theorem plain (h : isPlain t = true) : StartsLike block definition t := by
  unfold isPlain at h
  rw [Bool.and_eq_true] at h
  cases t with
  | nil => cases h.1
  | cons c t =>
    have hbrace : opensBrace [c] = false := by
      have hhead := h.1
      simp only [List.head?_cons, Option.any_some, Bool.and_eq_true, Bool.not_eq_true'] at hhead
      exact hhead.2
    refine ⟨List.cons_ne_nil c t, fun hopens => ?_, fun hopens => ?_⟩
    · have hsame : opensBrace ([c] ++ t) = opensBrace [c] := opensBrace_append (by simp) t
      rw [show c :: t = [c] ++ t from rfl, hsame, hbrace] at hopens
      cases hopens
    · rw [hopens] at h
      cases h.2

/-- A word other than those of definitions, with more behind it. -/
theorem word (hplain : isPlain w = true) (hasync : firstWord w ≠ "async") (ht : Opens t) :
    StartsLike block definition (w ++ t) := by
  have hw : StartsLike False False w := plain hplain
  refine ⟨List.append_ne_nil_of_left_ne_nil hw.nonempty t, fun hopens => ?_, fun hopens => ?_⟩
  · rw [opensBrace_append hw.nonempty] at hopens
    exact (hw.block hopens).elim
  · rw [opensDefinition_word _ ht] at hopens
    · cases hopens
    · intro hmem
      have hnone : opensDefinition w = false := Bool.eq_false_iff.2 hw.definition
      simp only [List.mem_cons, List.not_mem_nil, or_false] at hmem
      rcases hmem with hfunction | hclass | hword
      · simp [opensDefinition, hfunction] at hnone
      · simp [opensDefinition, hclass] at hnone
      · exact hasync hword

theorem sign (h : isSign t = true) (u : Text) : StartsLike block definition (t ++ u) := by
  have hword : firstWord (t ++ u) = [] := firstWord_eq_nil (Trails.sign h u).opens
  have hdefinition : opensDefinition (t ++ u) = false := by
    unfold opensDefinition
    rw [hword]
    rfl
  cases t with
  | nil => cases h
  | cons c t =>
    refine ⟨List.cons_ne_nil c _, fun hopens => ?_, fun hopens => ?_⟩
    · have hsame : opensBrace (c :: t ++ u) = opensBrace [c] :=
        opensBrace_append (t := [c]) (by simp) (t ++ u)
      rw [hsame] at hopens
      simp [isSign, hopens] at h
    · rw [hdefinition] at hopens
      cases hopens

/-- Behind `async` a text is a definition only if it is a function. -/
theorem async (hword : firstWord t ≠ "function") (hhead : withoutBlanks t = t) :
    StartsLike block definition ("async " ++ t) where
  nonempty := List.cons_ne_nil _ _
  block hopens := by
    rw [opensBrace_append (by decide)] at hopens
    cases hopens
  definition hopens := by
    have hblank : Opens (" " ++ t) := opens_append (by decide) (by decide) t
    have hfirst : firstWord ("async " ++ t) = "async" :=
      (firstWord_append "async" hblank).trans (by decide)
    have hbehind : behindFirstWord ("async " ++ t) = t := by
      show withoutBlanks (("async" ++ (" " ++ t) : Text).dropWhile Scanner.isNamePart) = t
      rw [dropWhile_isNamePart hblank]
      exact hhead
    simp only [opensDefinition, hfirst, hbehind, hword] at hopens
    exact absurd hopens (by decide)

theorem ofDefinition (hne : w ≠ []) (hbrace : opensBrace w = false) (h : definition) (t : Text) :
    StartsLike block definition (w ++ t) where
  nonempty := List.append_ne_nil_of_left_ne_nil hne t
  block hopens := by
    rw [opensBrace_append hne, hbrace] at hopens
    cases hopens
  definition _ := h

theorem inBraces (h : block) (texts : List Text) :
    StartsLike block definition (Print.inBraces texts) := by
  have hbrace : ∀ u, StartsLike block definition ("\x7b" ++ u) := fun u =>
    ⟨List.cons_ne_nil _ _, fun _ => h, fun hopens => by
      rw [← List.nil_append (("\x7b" : Text) ++ u),
        opensDefinition_word (by decide) (opens_append (by decide) (by decide) u)] at hopens
      cases hopens⟩
  unfold Print.inBraces
  split
  · exact hbrace "\x7d"
  · exact hbrace (" " ++ commas texts ++ " \x7d")

theorem parenthesized (t : Text) : StartsLike block definition (Print.parenthesized t) := by
  unfold Print.parenthesized
  rw [List.append_assoc]
  exact sign (by decide) _

/-- In parentheses where `apart` holds. -/
theorem guarded {block' definition' : Prop} {apart : Bool} (ht : StartsLike block definition t)
    (hblock : block → apart = true ∨ block')
    (hdefinition : definition → apart = true ∨ definition') :
    StartsLike block' definition' (if apart = true then Print.parenthesized t else t) := by
  split
  next => exact parenthesized t
  next hnot =>
    refine ⟨ht.nonempty, fun hopens => ?_, fun hopens => ?_⟩
    · exact (hblock (ht.block hopens)).resolve_left hnot
    · exact (hdefinition (ht.definition hopens)).resolve_left hnot

end StartsLike

end

end Print

end ModuleLowering
