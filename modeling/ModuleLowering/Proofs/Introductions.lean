import ModuleLowering.Proofs.Calls

/-!
# Introductions

Going through the statements of a module in order, each may refer to new names that have been
declared before, and may declare further ones. If every statement does only that, each new name is
declared by one statement alone, and no statement before it refers to the name. The name of the
registry itself may stand behind the dot after the host, where it refers to nothing.
-/

set_option autoImplicit false

namespace ModuleLowering

open Node

/-- Of the names `given`, a statement declares `new` and refers to these and to `seen` only. Behind
a dot none of them stands but the name of the registry. -/
structure Introduces (given seen : List Text) (s : Node) (new : List Text) : Prop where
  references : ∀ x ∈ s.references, x ∈ given → x ∈ seen ∨ x ∈ new
  declared : ∀ x ∈ s.declaredNames, x ∈ given → x ∈ new
  introduced : ∀ x ∈ new, x ∈ s.declaredNames
  names : ∀ x ∈ s.names, x ∈ given → x ∈ s.references ∨ x = "__modules"

/-- Of the names `given`, statements declare `new` one after the other, and each refers only to
those that it or a statement before it declares or that are in `seen`. -/
inductive IntroducesAll (given : List Text) : List Text → List Node → List Text → Prop where
  | nil (seen : List Text) : IntroducesAll given seen [] []
  | cons {seen new more : List Text} {s : Node} {rest : List Node}
      (hs : Introduces given seen s new) (hrest : IntroducesAll given (seen ++ new) rest more) :
      IntroducesAll given seen (s :: rest) (new ++ more)

/-- A name may occur so in a statement: it is none of `given`, or it stands behind a dot as the name
of the registry, or it is in `scope`. -/
def Allowed (given scope : List Text) (o : Standing × Text) : Prop :=
  o.2 ∈ given → if o.1 = .member then o.2 = "__modules" else o.2 ∈ scope

namespace Allowed

variable {given scope : List Text}

theorem of_notMem {o : Standing × Text} (h : o.2 ∉ given) : Allowed given scope o :=
  fun hgiven => absurd hgiven h

theorem of_mem {o : Standing × Text} (hs : o.1 ≠ .member) (h : o.2 ∈ scope) :
    Allowed given scope o := by
  intro _
  rw [if_neg hs]
  exact h

/-- What may occur may occur in a wider scope. -/
theorem mono {scope' : List Text} {o : Standing × Text} (h : Allowed given scope o)
    (hscope : ∀ x ∈ scope, x ∈ scope') : Allowed given scope' o := by
  intro hgiven
  have ho := h hgiven
  split at ho
  case isTrue hs =>
    rw [if_pos hs]
    exact ho
  case isFalse hs =>
    rw [if_neg hs]
    exact hscope o.2 ho

/-- A part of the registry may occur if no name in it but that of the registry is given. -/
theorem of_registryPart (hglobal : ("global" : Text) ∉ given) {names : List Text}
    (hnames : ∀ x ∈ names, x ∉ given) :
    ∀ o ∈ Registry.partOccurrences names, Allowed given scope o := by
  intro o ho
  rcases List.mem_cons.1 ho with rfl | ho
  · exact .of_notMem hglobal
  · rcases List.mem_cons.1 ho with rfl | ho
    · intro _
      rw [if_pos rfl]
    · obtain ⟨x, hx, rfl⟩ := List.mem_map.1 ho
      exact .of_notMem (hnames x hx)

end Allowed

namespace Introduces

variable {given seen new : List Text} {s : Node}

/-- What a statement introduces is found from what occurs in it and what it declares. -/
theorem of_allowed (hocc : ∀ o ∈ s.occurrences, Allowed given (seen ++ new) o)
    (hdeclared : ∀ x ∈ s.declaredNames, x ∈ given → x ∈ new)
    (hnew : ∀ x ∈ new, x ∈ s.declaredNames) : Introduces given seen s new := by
  refine ⟨?_, hdeclared, hnew, ?_⟩
  · intro x hx hgiven
    rcases mem_references_iff.1 hx with ho | ho
    · exact List.mem_append.1 (hocc _ ho hgiven)
    · exact List.mem_append.1 (hocc _ ho hgiven)
  · intro x hx hgiven
    obtain ⟨standing, ho⟩ := mem_names_iff.1 hx
    cases standing with
    | alone => exact Or.inl (mem_references_iff.2 (Or.inl ho))
    | object => exact Or.inl (mem_references_iff.2 (Or.inr ho))
    | member => exact Or.inr (hocc _ ho hgiven)

theorem of_declares_none (hocc : ∀ o ∈ s.occurrences, Allowed given seen o)
    (hdeclared : ∀ x ∈ s.declaredNames, x ∉ given) : Introduces given seen s [] := by
  refine of_allowed ?_ (fun x hx hgiven => absurd hgiven (hdeclared x hx)) (by simp)
  rw [List.append_nil]
  exact hocc

theorem of_notMem (h : ∀ x ∈ s.names, x ∉ given) : Introduces given seen s [] := by
  refine of_declares_none ?_ ?_
  · intro o ho
    exact .of_notMem (h o.2 (mem_names_iff.2 ⟨o.1, ho⟩))
  · intro x hx
    exact h x (mem_names_of_mem_references (mem_references_of_mem_declaredNames hx))

theorem mono {seen' : List Text} (h : Introduces given seen s new)
    (hseen : ∀ x ∈ seen, x ∈ seen') : Introduces given seen' s new :=
  ⟨fun x hx hgiven => (h.references x hx hgiven).imp_left (hseen x), h.declared, h.introduced,
    h.names⟩

end Introduces

namespace IntroducesAll

variable {given seen new more : List Text} {body rest : List Node}

theorem single {s : Node} (h : Introduces given seen s new) :
    IntroducesAll given seen [s] new := by
  have hall := cons h (.nil (seen ++ new))
  rw [List.append_nil] at hall
  exact hall

theorem mono {seen' : List Text} (h : IntroducesAll given seen body new)
    (hseen : ∀ x ∈ seen, x ∈ seen') : IntroducesAll given seen' body new := by
  induction h generalizing seen' with
  | nil seen => exact .nil seen'
  | cons hs _ ih =>
    refine .cons (hs.mono hseen) (ih ?_)
    intro x hx
    exact List.mem_append.2 ((List.mem_append.1 hx).imp_left (hseen x))

/-- Statements behind others. -/
theorem append (h : IntroducesAll given seen body new)
    (k : IntroducesAll given (seen ++ new) rest more) :
    IntroducesAll given seen (body ++ rest) (new ++ more) := by
  induction h with
  | nil seen =>
    rw [List.append_nil] at k
    exact k
  | cons hs _ ih =>
    rw [List.append_assoc]
    rw [← List.append_assoc] at k
    exact .cons hs (ih k)

theorem of_forall (h : ∀ s ∈ body, Introduces given seen s []) :
    IntroducesAll given seen body [] := by
  induction body with
  | nil => exact .nil seen
  | cons s body ih =>
    have hrest := ih fun t ht => h t (List.mem_cons_of_mem _ ht)
    rw [← List.append_nil seen] at hrest
    exact .cons (h s List.mem_cons_self) hrest

theorem mem_new_of_declared (h : IntroducesAll given seen body new) {s : Node} (hs : s ∈ body)
    {x : Text} (hx : x ∈ s.declaredNames) (hgiven : x ∈ given) : x ∈ new := by
  induction h with
  | nil => exact absurd hs List.not_mem_nil
  | cons hfirst _ ih =>
    rcases List.mem_cons.1 hs with rfl | hs
    · exact List.mem_append_left _ (hfirst.declared x hx hgiven)
    · exact List.mem_append_right _ (ih hs)

/-- Of the given names, the statements refer only to those seen before and those that they
introduce. -/
theorem mem_of_references (h : IntroducesAll given seen body new) {s : Node} (hs : s ∈ body)
    {x : Text} (hx : x ∈ s.references) (hgiven : x ∈ given) : x ∈ seen ∨ x ∈ new := by
  induction h with
  | nil => exact absurd hs List.not_mem_nil
  | cons hfirst _ ih =>
    rcases List.mem_cons.1 hs with rfl | hs
    · exact (hfirst.references x hx hgiven).imp_right (List.mem_append_left _)
    · rcases ih hs with hseen | hmore
      · exact (List.mem_append.1 hseen).imp_right (List.mem_append_left _)
      · exact Or.inr (List.mem_append_right _ hmore)

end IntroducesAll

/-! ## Declarations -/

/-- The statements that declare a name. -/
def declarationsOf (x : Text) (body : List Node) : List Node :=
  body.filter fun s => s.declaredNames.contains x

/-- A name is declared by one statement of a module alone. No statement before refers to it, and
none has it as an identifier unless that is the name of the registry behind a dot. -/
def DeclaredOnce (x : Text) (body : List Node) : Prop :=
  ∃ before d after, body = before ++ d :: after ∧ x ∈ d.declaredNames ∧
    (∀ s ∈ before ++ after, x ∉ s.declaredNames) ∧
    ∀ s ∈ before, x ∉ s.references ∧ (x ∈ s.names → x = "__modules")

/-- A statement that declares a name which is declared once is the only one. -/
theorem DeclaredOnce.declarationsOf_eq {x : Text} {body : List Node} (h : DeclaredOnce x body)
    {s : Node} (hs : s ∈ body) (hx : x ∈ s.declaredNames) : declarationsOf x body = [s] := by
  obtain ⟨before, d, after, rfl, hd, hothers, -⟩ := h
  have hnone : ∀ rest : List Node, (∀ t ∈ rest, x ∉ t.declaredNames) →
      rest.filter (fun t => t.declaredNames.contains x) = [] := by
    intro rest hrest
    refine List.filter_eq_nil_iff.2 fun t ht hcontains => ?_
    exact hrest t ht (List.contains_iff_mem.1 hcontains)
  have hsd : s = d := by
    rcases List.mem_append.1 hs with hbefore | hs
    · exact absurd hx (hothers s (List.mem_append_left _ hbefore))
    · rcases List.mem_cons.1 hs with hsd | hafter
      · exact hsd
      · exact absurd hx (hothers s (List.mem_append_right _ hafter))
  unfold declarationsOf
  have hkept : d.declaredNames.contains x = true := List.contains_iff_mem.2 hd
  rw [List.filter_append, hnone before fun t ht => hothers t (List.mem_append_left _ ht),
    List.filter_cons, if_pos hkept,
    hnone after fun t ht => hothers t (List.mem_append_right _ ht), hsd]
  rfl

/-- Each name that statements introduce is declared once, if none was seen before and none is
introduced twice. -/
theorem IntroducesAll.declaredOnce {given seen new : List Text} {body : List Node}
    (h : IntroducesAll given seen body new) (hnodup : new.Nodup)
    (hnew : ∀ x ∈ new, x ∈ given ∧ x ∉ seen) : ∀ x ∈ new, DeclaredOnce x body := by
  induction h with
  | nil =>
    intro x hx
    exact absurd hx List.not_mem_nil
  | @cons seen new more s rest hs hrest ih =>
    obtain ⟨-, hmore, hdisjoint⟩ := List.nodup_append.1 hnodup
    intro x hx
    obtain ⟨hgiven, hseen⟩ := hnew x hx
    rcases List.mem_append.1 hx with hfirst | hlater
    · -- The first statement declares the name, so none behind it introduces it again.
      refine ⟨[], s, rest, rfl, hs.introduced x hfirst, ?_, by simp⟩
      intro t ht hxt
      exact hdisjoint x hfirst x (hrest.mem_new_of_declared ht hxt hgiven) rfl
    · have hnotFirst : x ∉ new := fun hxnew => hdisjoint x hxnew x hlater rfl
      have hunseen : ∀ y ∈ more, y ∈ given ∧ y ∉ seen ++ new := by
        intro y hy
        obtain ⟨hygiven, hyseen⟩ := hnew y (List.mem_append_right _ hy)
        refine ⟨hygiven, ?_⟩
        intro hymem
        rcases List.mem_append.1 hymem with hyseen' | hynew
        · exact hyseen hyseen'
        · exact hdisjoint y hynew y hy rfl
      obtain ⟨before, d, after, rfl, hd, hothers, hbefore⟩ := ih hmore hunseen x hlater
      have hunreferenced : x ∉ s.references := by
        intro hxs
        exact (hs.references x hxs hgiven).elim hseen hnotFirst
      refine ⟨s :: before, d, after, rfl, hd, ?_, ?_⟩
      · intro t ht hxt
        rcases List.mem_cons.1 ht with rfl | ht
        · exact hnotFirst (hs.declared x hxt hgiven)
        · exact hothers t ht hxt
      · intro t ht
        rcases List.mem_cons.1 ht with rfl | ht
        · exact ⟨hunreferenced, fun hxt => (hs.names x hxt hgiven).resolve_left hunreferenced⟩
        · exact hbefore t ht

end ModuleLowering
