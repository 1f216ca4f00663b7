import ModuleLowering.Proofs.Folds
import ModuleLowering.Syntax.Parse.Module

/-!
# Trees but for their places

Two trees are alike if they differ in the places of their nodes alone. What a parser makes of alike
parts is alike: patterns, targets of assignments, and lists of nodes in order.
-/

set_option autoImplicit false

namespace ModuleLowering

open Node ModuleLowering.Parser

/-- Values that hold places. -/
class Placed (α : Type) where
  /-- What is left of a value without its places. -/
  bare : α → α

export Placed (bare)

/-- Two values that differ in their places at most. -/
abbrev Alike {α : Type} [Placed α] (a b : α) : Prop := bare a = bare b

instance {α : Type} [Placed α] : Std.Refl (Alike (α := α)) := ⟨fun _ => rfl⟩

/-! ## Containers -/

instance : Placed Unit := ⟨id⟩

instance {α : Type} [Placed α] : Placed (Option α) := ⟨Option.map bare⟩

instance {α : Type} [Placed α] : Placed (List α) := ⟨List.map bare⟩

section

variable {α : Type} [Placed α]

@[simp] theorem bare_none : bare (none : Option α) = none := rfl

@[simp] theorem bare_some (a : α) : bare (some a) = some (bare a) := rfl

@[simp] theorem bare_nil : bare ([] : List α) = [] := rfl

@[simp] theorem bare_cons (a : α) (as : List α) : bare (a :: as) = bare a :: bare as := rfl

@[simp] theorem bare_append (as bs : List α) : bare (as ++ bs) = bare as ++ bare bs :=
  List.map_append

end

/-! ## Trees -/

/-- A tree without its places. -/
instance : Placed Node := ⟨fun n => n.fold fun _ form => .mk none form⟩

/-- A form with the places taken from its parts. -/
def Form.bare (form : Form Node) : Form Node := foldForm (fun _ form => .mk none form) form

@[simp] theorem bare_mk (loc : Option Position) (form : Form Node) :
    bare (Node.mk loc form) = .mk none form.bare := fold_eq _ _

theorem bare_eq (n : Node) : bare n = .mk none n.form.bare := fold_eq _ _

@[simp] theorem form_bare (n : Node) : (bare n).form = n.form.bare := by
  rw [bare_eq]
  rfl

@[simp] theorem loc_bare (n : Node) : (bare n).loc = none := by
  rw [bare_eq]
  rfl

@[simp] theorem foldPart_bare (p : Option Node) :
    foldPart (fun _ form => .mk none form) p = bare p := foldPart_eq_map _ _

@[simp] theorem foldList_bare (ns : List Node) :
    foldList (fun _ form => .mk none form) ns = bare ns := foldList_eq_map _ _

@[simp] theorem foldSparse_bare (ps : List (Option Node)) :
    foldSparse (fun _ form => .mk none form) ps = bare ps := foldSparse_eq_map _ _

attribute [simp] Form.bare Node.foldForm

@[simp] theorem bare_bare (n : Node) : bare (bare n) = bare n := by
  induction n using induction_children with
  | step n ih =>
    rw [bare_eq n, bare_mk]
    refine congrArg _ ?_
    show foldForm _ (foldForm _ n.form) = _
    rw [foldForm_foldForm]
    refine foldForm_congr fun c hc => ?_
    rw [fold_const]
    exact ih c hc

/-! ## Trees that may be ill-shaped -/

/-- A fault without its place. -/
def ShapeFault.bare : ShapeFault → ShapeFault
  | .error e _ => .error e none
  | fault => fault

instance {α : Type} [Placed α] : Placed (Shaped α) :=
  ⟨fun x => match x with
    | .ok a => .ok (bare a)
    | .error fault => .error fault.bare⟩

section

variable {α β : Type} [Placed α] [Placed β]

@[simp] theorem bare_ok (a : α) : bare (.ok a : Shaped α) = .ok (bare a) := rfl

@[simp] theorem bare_error (fault : ShapeFault) :
    bare (.error fault : Shaped α) = .error fault.bare := rfl

@[simp] theorem bare_pure (a : α) : bare (pure a : Shaped α) = pure (bare a) := rfl

theorem bare_bind (x : Shaped α) (f : α → Shaped β) {g : α → Shaped β}
    (h : ∀ a, bare (f a) = g (bare a)) : bare (x >>= f) = bare x >>= g := by
  cases x with
  | error fault => rfl
  | ok a => exact h a

/-- Values that are built alike of values alike are alike. -/
theorem Alike.bind {x y : Shaped α} {f g : α → Shaped β} (h : Alike x y)
    (hfg : ∀ a b, Alike a b → Alike (f a) (g b)) : Alike (x >>= f) (y >>= g) := by
  cases x with
  | ok a =>
    cases y with
    | ok b => exact hfg a b (Except.ok.inj h)
    | error fault => cases h
  | error fault =>
    cases y with
    | ok b => cases h
    | error fault' => exact congrArg Except.error (Except.error.inj h)

theorem Alike.exists_ok {a : α} {y : Shaped α} (h : Alike (.ok a) y) :
    ∃ b, y = .ok b ∧ Alike a b := by
  cases y with
  | ok b => exact ⟨b, rfl, Except.ok.inj h⟩
  | error fault => cases h

theorem Alike.map {x y : Shaped α} {f g : α → β} (h : Alike x y)
    (hfg : ∀ a b, Alike a b → Alike (f a) (g b)) : Alike (x.map f) (y.map g) :=
  Alike.bind (f := fun a => .ok (f a)) (g := fun b => .ok (g b)) h
    fun a b hab => congrArg Except.ok (hfg a b hab)

end

/-! ## Lists of trees that may be ill-shaped -/

section

variable {α : Type} [Placed α]

theorem Alike.mapM {α β : Type} [Placed α] [Placed β] {f : α → Shaped β} {xs ys : List α}
    (h : Alike xs ys) (hf : ∀ a b, Alike a b → Alike (f a) (f b)) :
    Alike (xs.mapM f) (ys.mapM f) := by
  induction xs generalizing ys with
  | nil =>
    cases ys with
    | nil => rfl
    | cons y ys => cases h
  | cons x xs ih =>
    cases ys with
    | nil => cases h
    | cons y ys =>
      obtain ⟨hxy, hrest⟩ := List.cons.inj h
      rw [List.mapM_cons, List.mapM_cons]
      refine Alike.bind (hf x y hxy) fun a b hab => Alike.bind (ih hrest) fun as bs has => ?_
      exact congrArg Except.ok (List.cons_eq_cons.2 ⟨hab, has⟩)

theorem Alike.inOrder {xs ys : List (Shaped Node)} (h : Alike xs ys) :
    Alike (Parser.inOrder xs) (Parser.inOrder ys) := h.mapM fun _ _ hxy => hxy

theorem Alike.optional {x y : Option (Shaped Node)} (h : Alike x y) :
    Alike (x.mapM id : Shaped (Option Node)) (y.mapM id) := by
  cases x with
  | none =>
    cases y with
    | none => rfl
    | some y => cases h
  | some x =>
    cases y with
    | none => cases h
    | some y =>
      exact Alike.map (Option.some.inj h) fun a b hab => congrArg some hab

end

theorem Alike.sparse {xs ys : List (Option (Shaped Node))} (h : Alike xs ys) :
    Alike (xs.mapM fun x => x.mapM id : Shaped (List (Option Node)))
      (ys.mapM fun x => x.mapM id) := h.mapM fun _ _ hxy => hxy.optional

theorem Alike.isNone {α : Type} [Placed α] {x y : Option α} (h : Alike x y) :
    x.isNone = y.isNone := by
  cases x <;> cases y <;> first | rfl | cases h

theorem Alike.filterMap {α : Type} [Placed α] {xs ys : List (Option α)} (h : Alike xs ys) :
    Alike (xs.filterMap id) (ys.filterMap id) := by
  have hbare : ∀ zs : List (Option α), bare (zs.filterMap id) = (bare zs).filterMap id := by
    intro zs
    induction zs with
    | nil => rfl
    | cons z zs ih => cases z <;> simp_all
  unfold Alike
  rw [hbare, hbare, h]

/-! ## Patterns -/

/-- A node and the pattern that it stands for. -/
def withPattern (n : Node) : Node × Shaped Node := (n, n.asPattern)

theorem asPattern_eq (n : Node) :
    n.asPattern = patternOf n (foldForm (fun n _ => withPattern n) n.form) := by
  have hfold : n.asPattern = (n.fold fun n form => (n, patternOf n form)).2 := rfl
  rw [hfold, fold_eq]
  refine congrArg (patternOf n) (foldForm_congr fun c _ => ?_)
  rw [fold_const, fold_eq, withPattern, asPattern, fold_eq]

theorem bare_mapM {α β : Type} {γ : Type} [Placed γ] {f : α → Shaped γ} {g : β → Shaped γ}
    {h : α → β} {xs : List α} (hfg : ∀ x ∈ xs, bare (f x) = g (h x)) :
    bare (xs.mapM f) = (xs.map h).mapM g := by
  induction xs with
  | nil => rfl
  | cons x xs ih =>
    have hx := hfg x List.mem_cons_self
    have hxs := ih fun y hy => hfg y (List.mem_cons_of_mem x hy)
    rw [List.mapM_cons, List.map_cons, List.mapM_cons, ← hx, ← hxs]
    refine bare_bind _ _ fun a => ?_
    exact bare_bind _ _ fun as => rfl

theorem bare_partPattern {p : Option Node}
    (h : ∀ c ∈ p.toList, bare c.asPattern = (bare c).asPattern) :
    bare (partPattern (p.map withPattern)) = partPattern ((bare p).map withPattern) := by
  cases p with
  | none => rfl
  | some c =>
    show bare (c.asPattern.map some) = (bare c).asPattern.map some
    rw [← h c (by simp)]
    cases c.asPattern <;> rfl

theorem map_fst_withPattern (p : Option Node) : (p.map withPattern).map (·.1) = p := by
  cases p <;> rfl

/-- The pattern that a tree without places stands for is the one that the tree stands for. -/
theorem bare_asPattern (n : Node) : bare n.asPattern = (bare n).asPattern := by
  induction n using induction_children with
  | step n ih =>
    obtain ⟨loc, form⟩ := n
    rw [asPattern_eq, asPattern_eq, bare_mk]
    cases form
    all_goals
      simp only [Node.form, Form.bare, foldForm, foldPart_bare, foldList_bare, foldSparse_bare]
    all_goals
      simp only [foldPart_eq_map, foldList_eq_map, foldSparse_eq_map, fold_const, patternOf,
        Node.loc, map_fst_withPattern]
    case assignmentExpression operator left right =>
      have hleft := bare_partPattern (p := left) fun c hc => ih c (List.mem_append_left _ hc)
      split
      · rw [← hleft]
        exact bare_bind _ _ fun a => by simp
      · rfl
    case spreadElement argument =>
      have hpart := bare_partPattern (p := argument) fun c hc => ih c (List.mem_append_left _ hc)
      rw [← hpart]
      exact bare_bind _ _ fun a => by simp
    case arrayExpression elements =>
      have helements : bare ((elements.map (Option.map withPattern)).mapM partPattern) =
          (((bare elements).map (Option.map withPattern)).mapM partPattern) := by
        rw [List.mapM_map, List.mapM_map]
        refine bare_mapM fun p hp => bare_partPattern fun c hc => ih c ?_
        exact List.mem_append_left _ (List.mem_filterMap.2 ⟨p, hp, Option.mem_toList.1 hc⟩)
      rw [← helements]
      exact bare_bind _ _ fun a => by simp
    case objectExpression properties =>
      have hproperties : bare ((properties.map withPattern).mapM (·.2)) =
          ((bare properties).map withPattern).mapM (·.2) := by
        rw [List.mapM_map, List.mapM_map]
        exact bare_mapM fun c hc => ih c (List.mem_append_left _ hc)
      rw [← hproperties]
      exact bare_bind _ _ fun a => by simp
    case property key value computed shorthand method kind =>
      have hpart := bare_partPattern (p := value) fun c hc =>
        ih c (List.mem_append_right _ (List.mem_append_left _ hc))
      split
      · rw [← hpart]
        exact bare_bind _ _ fun a => by simp
      · rfl
    all_goals simp [ShapeFault.bare]

theorem Alike.asPattern {a b : Node} (h : Alike a b) : Alike a.asPattern b.asPattern := by
  unfold Alike
  rw [bare_asPattern, bare_asPattern, h]

/-! ## Questions to a tree that do not ask for places -/

theorem name?_bare (n : Node) : (bare n).name? = n.name? := by
  obtain ⟨loc, form⟩ := n
  cases form <;> simp [name?, Node.form]

theorem isTarget_bare (n : Node) : (bare n).isTarget = n.isTarget := by
  obtain ⟨loc, form⟩ := n
  cases form <;> simp [isTarget, Node.form]

theorem commaParts_bare (n : Node) : (bare n).commaParts = bare n.commaParts := by
  obtain ⟨loc, form⟩ := n
  cases form <;> simp [commaParts, Node.form]

theorem bare_asTarget (operator : Text) (left : Node) (loc : Option Position) :
    bare (left.asTarget operator loc) = (bare left).asTarget operator none := by
  have hpattern := bare_asPattern left
  have htarget := isTarget_bare left
  obtain ⟨loc', form⟩ := left
  cases form <;>
    simp only [asTarget, Node.form, ← hpattern, htarget] <;>
    split <;> rfl

variable {a b : Node}

theorem Alike.name? (h : Alike a b) : a.name? = b.name? := by
  rw [← name?_bare a, ← name?_bare b, h]

theorem Alike.isNamed (h : Alike a b) (name : Text) : a.isNamed name = b.isNamed name := by
  rw [Node.isNamed, Node.isNamed, h.name?]

theorem Alike.isTarget (h : Alike a b) : a.isTarget = b.isTarget := by
  rw [← isTarget_bare a, ← isTarget_bare b, h]

theorem Alike.commaParts (h : Alike a b) : Alike a.commaParts b.commaParts := by
  unfold Alike
  rw [← commaParts_bare, ← commaParts_bare, h]

theorem Alike.asTarget (h : Alike a b) (operator : Text) (loc loc' : Option Position) :
    Alike (a.asTarget operator loc) (b.asTarget operator loc') := by
  unfold Alike
  rw [bare_asTarget, bare_asTarget, h]

theorem Alike.asParameters (h : Alike a b) : Alike a.asParameters b.asParameters := by
  have hmapM : ∀ ns : List Node, bare (ns.mapM Node.asPattern) = (bare ns).mapM Node.asPattern :=
    fun ns => bare_mapM fun n _ => bare_asPattern n
  unfold Alike Node.asParameters
  rw [hmapM, hmapM, h.commaParts]

/-! ## What the parsers build -/

/-- Two nodes that are built of parts alike, at whatever places. -/
theorem alike_mk {s s' : Option Position} {f f' : Form Node} (h : f.bare = f'.bare) :
    Alike (mk s f) (mk s' f') := by
  unfold Alike
  rw [bare_mk, bare_mk, h]

theorem Alike.ok {a b : Node} (h : Alike a b) : Alike (.ok a : Shaped Node) (.ok b) :=
  congrArg Except.ok h

variable {x x' y y' : Shaped Node}

theorem alike_countingOf (s s' : Option Position) (operator : Text) (before : Bool)
    (h : Alike x y) : Alike (countingOf s operator before x) (countingOf s' operator before y) := by
  refine h.bind fun a b hab => ?_
  rw [hab.isTarget]
  split
  · exact .ok (alike_mk (by simp [hab]))
  · rfl

theorem alike_binaryOf (s s' : Option Position) (logical : Bool) (operator : Text)
    (h : Alike x y) (h' : Alike x' y') :
    Alike (binaryOf s logical operator x x') (binaryOf s' logical operator y y') := by
  refine h.bind fun a b hab => h'.bind fun c d hcd => .ok (alike_mk ?_)
  cases logical <;> simp [hab, hcd]

theorem alike_joinByComma (s s' : Option Position) (h : Alike x y) (h' : Alike x' y') :
    Alike (joinByComma s x x') (joinByComma s' y y') := by
  refine h.bind fun a b hab => h'.bind fun c d hcd => .ok (alike_mk ?_)
  simp [hab.commaParts, hcd]

theorem alike_joinAll (s s' : Option Position) {xs ys : List (Shaped Node)} (h : Alike x y)
    (h' : Alike xs ys) : Alike (joinAll s x xs) (joinAll s' y ys) := by
  induction xs generalizing x y ys with
  | nil =>
    cases ys with
    | nil => exact h
    | cons _ _ => cases h'
  | cons c cs ih =>
    cases ys with
    | nil => cases h'
    | cons d ds =>
      obtain ⟨hcd, hrest⟩ := List.cons.inj h'
      exact ih (y := joinByComma s' y d) (alike_joinByComma s s' h hcd) hrest

theorem alike_shorthandOf (s s' : Option Position) {d d' : Option Node} (h : Alike a b)
    (hd : Alike d d') : Alike (shorthandOf s a d) (shorthandOf s' b d') := by
  match d, d' with
  | none, none => exact alike_mk (by simp [h])
  | some d, some d' => exact alike_mk (by simp [h, Option.some.inj hd])
  | none, some _ => cases hd
  | some _, none => cases hd

theorem alike_localNameOf (s s' : Option Position) (h : Alike a b) :
    Alike (localNameOf s a) (localNameOf s' b) := by
  unfold localNameOf
  rw [h.name?]
  split
  · split
    · rfl
    · exact .ok h
  · rfl

theorem alike_stringOf {t u : Token} (h : t.text = u.text) : Alike (stringOf t) (stringOf u) := by
  unfold stringOf
  rw [h]
  split
  · exact .ok (alike_mk rfl)
  · rfl

theorem alike_numberOf {t u : Token} (h : t.text = u.text) : Alike (numberOf t) (numberOf u) := by
  unfold numberOf
  rw [h]
  split
  · exact .ok (alike_mk rfl)
  · rfl

theorem alike_declarationOf {t u : Token} {xs ys : List (Shaped Node)} (h : t.text = u.text)
    (hxs : Alike xs ys) : Alike (declarationOf t xs) (declarationOf u ys) := by
  refine hxs.inOrder.bind fun as bs has => .ok (alike_mk ?_)
  simp [h, has]

theorem alike_loopVariable {t u : Token} (s s' : Option Position) (h : t.text = u.text)
    (hx : Alike x y) : Alike (loopVariable t s x) (loopVariable u s' y) := by
  refine hx.bind fun a b hab => .ok (alike_mk ?_)
  simp [h, hab]

/-! ## Records of the parsers -/

instance : Placed Key := ⟨fun k => ⟨bare k.node, k.computed⟩⟩

instance : Placed Method := ⟨fun m => ⟨bare m.key, bare m.function, m.kind⟩⟩

instance : Placed FunctionRest := ⟨fun r => ⟨bare r.parameters, bare r.body⟩⟩

instance : Placed ClassRest := ⟨fun r => ⟨bare r.superclass, bare r.body⟩⟩

instance : Placed Operand := ⟨fun o => ⟨bare o.node, bare o.parameters⟩⟩

instance : Placed Construction := ⟨fun c => ⟨bare c.node, c.extensible⟩⟩

instance : Placed InParentheses := ⟨fun i => ⟨bare i.more, bare i.rest⟩⟩

instance {α β : Type} [Placed α] [Placed β] : Placed (α × β) := ⟨Prod.map bare bare⟩

theorem alike_pair_iff {α β : Type} [Placed α] [Placed β] {p q : α × β} :
    Alike p q ↔ Alike p.1 q.1 ∧ Alike p.2 q.2 :=
  Prod.ext_iff

theorem Key.alike_iff {k k' : Key} :
    Alike k k' ↔ Alike k.node k'.node ∧ k.computed = k'.computed := by
  show Key.mk _ _ = Key.mk _ _ ↔ _
  rw [Key.mk.injEq]

theorem Method.alike_iff {m m' : Method} :
    Alike m m' ↔ Alike m.key m'.key ∧ Alike m.function m'.function ∧ m.kind = m'.kind := by
  show Method.mk _ _ _ = Method.mk _ _ _ ↔ _
  rw [Method.mk.injEq]

theorem FunctionRest.alike_iff {r r' : FunctionRest} :
    Alike r r' ↔ Alike r.parameters r'.parameters ∧ Alike r.body r'.body := by
  show FunctionRest.mk _ _ = FunctionRest.mk _ _ ↔ _
  rw [FunctionRest.mk.injEq]

theorem ClassRest.alike_iff {r r' : ClassRest} :
    Alike r r' ↔ Alike r.superclass r'.superclass ∧ Alike r.body r'.body := by
  show ClassRest.mk _ _ = ClassRest.mk _ _ ↔ _
  rw [ClassRest.mk.injEq]

theorem Operand.alike_iff {o o' : Operand} :
    Alike o o' ↔ Alike o.node o'.node ∧ Alike o.parameters o'.parameters := by
  show Operand.mk _ _ = Operand.mk _ _ ↔ _
  rw [Operand.mk.injEq]

theorem alike_plain (h : Alike x y) : Alike (Operand.plain x) (.plain y) :=
  Operand.alike_iff.2 ⟨h, rfl⟩

theorem Construction.alike_iff {c c' : Construction} :
    Alike c c' ↔ Alike c.node c'.node ∧ c.extensible = c'.extensible := by
  show Construction.mk _ _ = Construction.mk _ _ ↔ _
  rw [Construction.mk.injEq]

theorem InParentheses.alike_iff {i i' : InParentheses} :
    Alike i i' ↔ Alike i.more i'.more ∧ Alike i.rest i'.rest := by
  show InParentheses.mk _ _ = InParentheses.mk _ _ ↔ _
  rw [InParentheses.mk.injEq]

theorem alike_propertyOf (s s' : Option Position) {m m' : Method} (h : Alike m m') :
    Alike (propertyOf s m) (propertyOf s' m') := by
  obtain ⟨hkey, hfunction, hkind⟩ := Method.alike_iff.1 h
  obtain ⟨hnode, hcomputed⟩ := Key.alike_iff.1 hkey
  exact alike_mk (by simp [hnode, hfunction, hkind, hcomputed])

theorem alike_memberOf (s s' : Option Position) (isStatic : Bool) {m m' : Method}
    (h : Alike m m') : Alike (memberOf s isStatic m) (memberOf s' isStatic m') := by
  obtain ⟨hkey, hfunction, hkind⟩ := Method.alike_iff.1 h
  obtain ⟨hnode, hcomputed⟩ := Key.alike_iff.1 hkey
  unfold memberOf
  rw [hnode.isNamed]
  exact alike_mk (by simp [hnode, hfunction, hkind, hcomputed])

end ModuleLowering
