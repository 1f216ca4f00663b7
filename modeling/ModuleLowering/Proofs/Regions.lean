import ModuleLowering.Proofs.Positions
import ModuleLowering.Proofs.WellFormed

/-!
# Trees in a region of the text

A node lies in a region if it is placed there and its children lie in the part of the region that
is not before it. So the places in a tree never go back on the way down. What nodes of a region are
read as, be it patterns, targets or parameters, lies in the region again.
-/

set_option autoImplicit false

namespace ModuleLowering

open Shaped (Builds)

/-! ## Positions in order -/

namespace Position

/-- A position comes before those behind it on its line and before those on the lines below. -/
instance : LE Position := ⟨fun p q => p.line < q.line ∨ p.line = q.line ∧ p.column ≤ q.column⟩

variable {p q r : Position}

theorem le_iff : p ≤ q ↔ p.line < q.line ∨ p.line = q.line ∧ p.column ≤ q.column := Iff.rfl

instance (p q : Position) : Decidable (p ≤ q) := decidable_of_iff' _ le_iff

theorem le_refl (p : Position) : p ≤ p := .inr ⟨rfl, Nat.le_refl _⟩

theorem le_trans (hpq : p ≤ q) (hqr : q ≤ r) : p ≤ r := by
  rw [le_iff] at *
  omega

/-- The positions of offsets are in the order of the offsets. -/
theorem IsAt.le {t : Text} {i j : Nat} (hp : p.IsAt t i) (hq : q.IsAt t j) (hij : i ≤ j) :
    p ≤ q := by
  obtain ⟨start, hstart, hcolumn⟩ := hp.column
  obtain ⟨start', hstart', hcolumn'⟩ := hq.column
  have hcount : (t.take i).count (CodePoint.ofChar '\n') ≤
      (t.take j).count (CodePoint.ofChar '\n') :=
    (List.take_sublist_take_left hij).count_le _
  rw [le_iff, hp.line, hq.line, hcolumn, hcolumn']
  rcases Nat.lt_or_eq_of_le hcount with hlt | heq
  · exact .inl (by omega)
  · rw [hstart.eq_of_count hstart' heq]
    exact .inr (by omega)

end Position

/-! ## Regions -/

/-- A set of positions. -/
abbrev Region := Position → Prop

namespace Region

/-- The part of a region that is not before a place. -/
def since (K : Region) (s : Option Position) : Region := fun q => K q ∧ ∀ p ∈ s, p ≤ q

/-- The first position of a region is this place. -/
structure StartsAt (K : Region) (s : Option Position) : Prop where
  isFirst : ∃ p, s = some p ∧ K p ∧ ∀ q, K q → p ≤ q

variable {K : Region} {p : Position}

theorem startsAt_since (h : K p) : (K.since (some p)).StartsAt (some p) := by
  refine ⟨p, rfl, ⟨h, ?_⟩, fun q hq => hq.2 p rfl⟩
  rintro _ ⟨⟩
  exact p.le_refl

end Region

/-! ## Values in a region -/

/-- A node is placed in a region, and its children lie in the region and not before it. -/
inductive Node.InRegion : Region → Node → Prop
  | mk {K : Region} {p : Position} {form : Form Node} (hp : K p)
    (hparts : ∀ c ∈ form.parts, InRegion (K.since (some p)) c) : InRegion K (.mk (some p) form)

theorem Node.InRegion.mono {K K' : Region} {n : Node} (h : n.InRegion K) (hK : ∀ q, K q → K' q) :
    n.InRegion K' := by
  induction h generalizing K' with
  | mk hp _ ih => exact .mk (hK _ hp) fun c hc => ih c hc fun q hq => ⟨hK q hq.1, hq.2⟩

/-- Values that are made of nodes. -/
class Sited (α : Type) where
  /-- The nodes of a value lie in a region. -/
  InRegion : Region → α → Prop
  mono : ∀ {K K' : Region} {a : α}, InRegion K a → (∀ q, K q → K' q) → InRegion K' a

open Sited

section

variable {α β : Type} [Sited α] [Sited β]

instance : Sited Node := ⟨Node.InRegion, Node.InRegion.mono⟩

instance : Sited Unit := ⟨fun _ _ => True, fun _ _ => trivial⟩

instance : Sited (Option α) :=
  ⟨fun K o => ∀ a ∈ o, InRegion K a, fun h hK a ha => Sited.mono (h a ha) hK⟩

instance : Sited (List α) :=
  ⟨fun K as => ∀ a ∈ as, InRegion K a, fun h hK a ha => Sited.mono (h a ha) hK⟩

instance : Sited (α × β) :=
  ⟨fun K ab => InRegion K ab.1 ∧ InRegion K ab.2, fun h hK =>
    ⟨Sited.mono h.1 hK, Sited.mono h.2 hK⟩⟩

instance : Sited (Shaped α) :=
  ⟨fun K x => Builds x (InRegion K), fun h hK => h.mono fun _ ha => Sited.mono ha hK⟩

end

/-- The parts that slots hold lie in a region. -/
inductive Slot.InRegion (K : Region) : List (Slot Node) → Prop
  | nil : InRegion K []
  | one {part : Option Node} {rest : List (Slot Node)} (h : Sited.InRegion K part)
    (hrest : InRegion K rest) : InRegion K (.one part :: rest)
  | many {parts : List Node} {rest : List (Slot Node)} (h : Sited.InRegion K parts)
    (hrest : InRegion K rest) : InRegion K (.many parts :: rest)
  | sparse {parts : List (Option Node)} {rest : List (Slot Node)} (h : Sited.InRegion K parts)
    (hrest : InRegion K rest) : InRegion K (.sparse parts :: rest)

theorem Slot.InRegion.parts {K : Region} {slots : List (Slot Node)} (h : Slot.InRegion K slots) :
    Sited.InRegion K (slots.flatMap Slot.parts) := by
  induction h with
  | nil => exact nofun
  | one h _ ih =>
    rw [List.flatMap_cons]
    exact List.forall_mem_append.2 ⟨fun a ha => h a (Option.mem_toList.1 ha), ih⟩
  | many h _ ih =>
    rw [List.flatMap_cons]
    exact List.forall_mem_append.2 ⟨h, ih⟩
  | sparse h _ ih =>
    rw [List.flatMap_cons]
    refine List.forall_mem_append.2 ⟨fun a ha => ?_, ih⟩
    obtain ⟨part, hpart, ha⟩ := List.mem_filterMap.1 ha
    exact h part hpart a ha

namespace Sited.InRegion

variable {α β : Type} [Sited α] [Sited β] {K : Region} {s : Option Position}

theorem some {a : α} (h : InRegion K a) : InRegion K (some a) := by
  rintro _ ⟨⟩
  exact h

theorem none : InRegion K (none : Option α) := nofun

theorem nil : InRegion K ([] : List α) := nofun

theorem cons {a : α} {as : List α} (h : InRegion K a) (has : InRegion K as) :
    InRegion K (a :: as) := List.forall_mem_cons.2 ⟨h, has⟩

theorem ok {a : α} (h : InRegion K a) : InRegion K (pure a : Shaped α) := Builds.pure h

theorem error {fault : ShapeFault} : InRegion K (.error fault : Shaped α) := Builds.error

theorem bind {x : Shaped α} {f : α → Shaped β} (h : InRegion K x)
    (hf : ∀ a, InRegion K a → InRegion K (f a)) : InRegion K (x >>= f) := Builds.bind h hf

theorem map {x : Shaped α} {g : α → β} (h : InRegion K x)
    (hg : ∀ a, InRegion K a → InRegion K (g a)) : InRegion K (x.map g) := Builds.map h hg

theorem ite {c : Prop} [Decidable c] {x y : Shaped α} (h : c → InRegion K x)
    (h' : ¬c → InRegion K y) : InRegion K (if c then x else y) := Builds.ite h h'

theorem mapM {γ : Type} {as : List γ} {f : γ → Shaped β} (h : ∀ a ∈ as, InRegion K (f a)) :
    InRegion K (as.mapM f) := (Builds.mapM h).mono fun _ hbs => hbs.2

/-- A part that is built if it is there. -/
theorem part {x? : Option (Shaped α)} (h : InRegion K x?) : InRegion K (x?.mapM id) :=
  (Builds.optionMapM h).mono fun _ hb => hb.2

/-- A node at the first place of a region lies there if its parts do. -/
theorem node {form : Form Node} (hs : K.StartsAt s) (h : Slot.InRegion K form.slots) :
    InRegion K (Node.mk s form) := by
  obtain ⟨p, rfl, hp, hfirst⟩ := hs.isFirst
  refine Node.InRegion.mk hp fun c hc => Sited.mono (h.parts c hc) fun q hq => ⟨hq, ?_⟩
  rintro _ ⟨⟩
  exact hfirst q hq

/-- A node lies in the part of a region that starts with it, and so do its parts. -/
theorem exists_since {n : Node} (h : InRegion K n) :
    ∃ K' : Region, (∀ q, K' q → K q) ∧ K'.StartsAt n.loc ∧ InRegion K' n ∧
      ∀ c ∈ n.children, InRegion K' c := by
  cases h with
  | @mk _ p form hp hparts =>
    have hstarts := Region.startsAt_since hp
    refine ⟨K.since (Option.some p), fun q hq => hq.1, hstarts, ?_, hparts⟩
    refine Node.InRegion.mk ⟨hp, ?_⟩ fun c hc => (hparts c hc).mono fun q hq => ⟨hq, hq.2⟩
    rintro _ ⟨⟩
    exact p.le_refl

end Sited.InRegion

/-! ## Patterns, targets and parameters -/

namespace Node

variable {K : Region} {n : Node} {loc : Option Position}

theorem mem_children_of_slot {slot : Slot Node} {c : Node} (hslot : slot ∈ n.form.slots)
    (hc : c ∈ slot.parts) : c ∈ n.children := List.mem_flatMap.2 ⟨slot, hslot, hc⟩

/-- What a part is read as lies in a region if what the nodes in its slot are read as does. -/
theorem inRegion_partPattern {part : Option Node}
    (h : ∀ c ∈ part, Sited.InRegion K c.asPattern) :
    Sited.InRegion K (partPattern (foldPart (fun n form => (n, patternOf n form)) part)) := by
  rw [partPattern_foldPart]
  exact (Builds.optionMapM h).mono fun _ hb => hb.2

theorem inRegion_asPattern (h : Sited.InRegion K n) : Sited.InRegion K n.asPattern := by
  induction n using induction_children generalizing K with
  | step n ih =>
    obtain ⟨K', hK', hloc, hn, hchildren⟩ := h.exists_since
    have hparts {slot : Slot Node} (hslot : slot ∈ n.form.slots) :
        ∀ c ∈ slot.parts, Sited.InRegion K' c ∧ Sited.InRegion K' c.asPattern := fun c hc =>
      have hc := mem_children_of_slot hslot hc
      ⟨hchildren c hc, ih c hc (hchildren c hc)⟩
    refine Sited.mono (K := K') ?_ hK'
    rw [asPattern_eq]
    obtain ⟨loc, form⟩ := n
    cases form
    case identifier | memberExpression | assignmentPattern => all_goals exact .ok hn
    case assignmentExpression operator left right =>
      rw [form, foldForm, patternOf, map_fst_foldPart]
      refine .ite (fun _ => ?_) fun _ => .error
      have hleft : ∀ c ∈ left, Sited.InRegion K' c.asPattern := fun c hc =>
        (hparts (.head _) c (Option.mem_toList.2 hc)).2
      have hright : Sited.InRegion K' right := fun c hc =>
        (hparts (.tail _ (.head _)) c (Option.mem_toList.2 hc)).1
      exact .bind (inRegion_partPattern hleft) fun left hleft =>
        .ok (.node hloc (.one hleft (.one hright .nil)))
    case spreadElement argument =>
      have hargument : ∀ c ∈ argument, Sited.InRegion K' c.asPattern := fun c hc =>
        (hparts (.head _) c (Option.mem_toList.2 hc)).2
      exact .bind (inRegion_partPattern hargument) fun argument hargument =>
        .ok (.node hloc (.one hargument .nil))
    case arrayExpression elements =>
      rw [form, foldForm, foldSparse_eq_map]
      refine .bind (.mapM fun p hp => ?_) fun elements helements =>
        .ok (.node hloc (.sparse helements .nil))
      obtain ⟨element, helement, rfl⟩ := List.mem_map.1 hp
      rw [← foldPart_eq_map]
      exact inRegion_partPattern fun c hc =>
        (hparts (.head _) c (List.mem_filterMap.2 ⟨element, helement, hc⟩)).2
    case objectExpression properties =>
      rw [form, foldForm, foldList_eq_map]
      refine .bind (.mapM fun p hp => ?_) fun properties hproperties =>
        .ok (.node hloc (.many hproperties .nil))
      obtain ⟨property, hproperty, rfl⟩ := List.mem_map.1 hp
      rw [fold_patternOf]
      exact (hparts (.head _) property hproperty).2
    case property key value _ _ _ _ =>
      rw [form, foldForm, patternOf, map_fst_foldPart]
      refine .ite (fun _ => ?_) fun _ => .error
      have hkey : Sited.InRegion K' key := fun c hc =>
        (hparts (.head _) c (Option.mem_toList.2 hc)).1
      have hvalue : ∀ c ∈ value, Sited.InRegion K' c.asPattern := fun c hc =>
        (hparts (.tail _ (.head _)) c (Option.mem_toList.2 hc)).2
      exact .bind (inRegion_partPattern hvalue) fun value hvalue =>
        .ok (.node hloc (.one hkey (.one hvalue .nil)))
    all_goals exact .error

theorem inRegion_asTarget (operator : Text) (h : Sited.InRegion K n) :
    Sited.InRegion K (n.asTarget operator loc) := by
  unfold asTarget
  split
  case h_1 | h_2 => all_goals exact .ite (fun _ => inRegion_asPattern h) fun _ => .error
  case h_3 => exact .ite (fun _ => .ok h) fun _ => .error

theorem inRegion_commaParts (h : Sited.InRegion K n) : Sited.InRegion K n.commaParts := by
  unfold commaParts
  split
  case h_1 expressions hform =>
    obtain ⟨K', hK', -, -, hchildren⟩ := h.exists_since
    have hslot : Slot.many expressions ∈ n.form.slots := by
      rw [hform]
      exact .head _
    exact fun e he => Sited.mono (hchildren e (mem_children_of_slot hslot he)) hK'
  case h_2 => exact .cons h .nil

theorem inRegion_asParameters (h : Sited.InRegion K n) : Sited.InRegion K n.asParameters :=
  .mapM fun e he => inRegion_asPattern (inRegion_commaParts h e he)

end Node

end ModuleLowering
