import ModuleLowering.Proofs.Items

/-!
# Names in items

Whatever a statement says about modules, it says with names that occur in it; only for the default
the name may be left out. Only the export of a default leaves what it publishes without a name.
-/

set_option autoImplicit false

namespace ModuleLowering

namespace Node

/-! ## Names in items -/

theorem mem_names_of_partName? {n : Node} {part : Option Node} {x : Text}
    (h : partName? part = some x) (hpart : ∀ c, part = some c → c ∈ n.children) :
    x ∈ n.names := by
  cases part with
  | none => cases h
  | some c => exact mem_names_of_mem_children (hpart c rfl) (mem_names_of_name? h)

/-- The names in an item are names of a tree, or the default is meant. -/
def WordsIn (n : Node) (item : ModuleItem) : Prop := ∀ x ∈ item.words, x ∈ n.names ∨ x = "default"

/-- An item says something about what is named in a tree. -/
structure Says (n : Node) (item : ModuleItem) : Prop where
  words : n.WordsIn item
  named : item.isUnnamed = false

theorem Says.of_child {n c : Node} {item : ModuleItem} (h : c.Says item)
    (hc : c ∈ n.children) : n.Says item := by
  refine ⟨?_, h.named⟩
  intro x hx
  exact (h.words x hx).imp_left (mem_names_of_mem_children hc)

/-- The names in an item that two parts of a form give are names of the node. -/
theorem says_pair {n : Node} {item : ModuleItem} {a b : Option Node} {x y : Text}
    (hnamed : item.isUnnamed = false) (hwords : item.words = [x, y]) (hx : partName? a = some x)
    (hy : partName? b = some y)
    (hparts : ∀ c, a = some c ∨ b = some c → c ∈ n.children) : n.Says item := by
  refine ⟨?_, hnamed⟩
  intro z hz
  rw [hwords] at hz
  rcases List.mem_cons.1 hz with rfl | hz
  · exact Or.inl (mem_names_of_partName? hx fun c hc => hparts c (Or.inl hc))
  · rw [List.mem_singleton.1 hz]
    exact Or.inl (mem_names_of_partName? hy fun c hc => hparts c (Or.inr hc))

theorem says_single {n : Node} {item : ModuleItem} {a : Option Node} {x : Text}
    (hnamed : item.isUnnamed = false) (hwords : ∀ y ∈ item.words, y = x ∨ y = "default")
    (hx : partName? a = some x)
    (hpart : ∀ c, a = some c → c ∈ n.children) : n.Says item := by
  refine ⟨?_, hnamed⟩
  intro y hy
  rcases hwords y hy with rfl | hdefault
  · exact Or.inl (mem_names_of_partName? hx hpart)
  · exact Or.inr hdefault

/-- The names that a specifier of an import gives are its names, or the default is meant. -/
theorem says_importItem? {v : Value} {specifier : Node} {item : ModuleItem}
    (h : importItem? v specifier = some item) : specifier.Says item := by
  unfold importItem? at h
  split at h
  case h_1 name hform =>
    obtain ⟨y, hy, rfl⟩ := Option.map_eq_some_iff.1 h
    refine says_single rfl (by simp [ModuleItem.words, or_comm]) hy fun c hc => ?_
    simp [children, hform, Form.parts, Form.slots, Slot.parts, hc]
  case h_2 name hform =>
    obtain ⟨y, hy, rfl⟩ := Option.map_eq_some_iff.1 h
    refine says_single rfl (by simp [ModuleItem.words]) hy fun c hc => ?_
    simp [children, hform, Form.parts, Form.slots, Slot.parts, hc]
  case h_3 name imported hform =>
    obtain ⟨m, hm, hmap⟩ := Option.bind_eq_some_iff.1 h
    obtain ⟨y, hy, rfl⟩ := Option.map_eq_some_iff.1 hmap
    refine says_pair rfl rfl hm hy fun c hc => ?_
    simp [children, hform, Form.parts, Form.slots, Slot.parts, hc.symm]
  case h_4 => cases h

/-- The names that a specifier of an export gives are its names. -/
theorem says_exportItem? {specifier : Node} {item : ModuleItem}
    (h : exportItem? specifier = some item) : specifier.Says item := by
  unfold exportItem? at h
  split at h
  case h_1 name exported hform =>
    obtain ⟨m, hm, hmap⟩ := Option.bind_eq_some_iff.1 h
    obtain ⟨y, hy, rfl⟩ := Option.map_eq_some_iff.1 hmap
    refine says_pair rfl rfl hm hy fun c hc => ?_
    simp [children, hform, Form.parts, Form.slots, Slot.parts, hc]
  case h_2 => cases h

/-- The names that a specifier of an export of names of another module gives are its names. -/
theorem says_reexportItem? {v : Value} {specifier : Node} {item : ModuleItem}
    (h : reexportItem? v specifier = some item) : specifier.Says item := by
  unfold reexportItem? at h
  split at h
  case h_1 name exported hform =>
    obtain ⟨m, hm, hmap⟩ := Option.bind_eq_some_iff.1 h
    obtain ⟨y, hy, rfl⟩ := Option.map_eq_some_iff.1 hmap
    refine says_pair rfl rfl hm hy fun c hc => ?_
    simp [children, hform, Form.parts, Form.slots, Slot.parts, hc]
  case h_2 => cases h

/-- What a form says about the module of a literal it says for some value. -/
theorem mem_elim_literalValue? {source : Option Node} {f : Value → List ModuleItem}
    {item : ModuleItem} (h : item ∈ (literalValue? source).elim [] f) :
    ∃ v, literalValue? source = some v ∧ item ∈ f v := by
  cases hv : literalValue? source with
  | none =>
    rw [hv] at h
    exact absurd h List.not_mem_nil
  | some v =>
    rw [hv] at h
    exact ⟨v, rfl, h⟩

/-- The name of a declaration is that of a part of it. -/
theorem mem_children_of_idPart? {n c : Node} (h : Collecting.idPart? n = some (some c)) :
    c ∈ n.children := by
  unfold Collecting.idPart? at h
  split at h
  case h_6 => cases h
  all_goals
    rename_i hform
    cases h
    simp [children, hform, Form.parts, Form.slots, Slot.parts]

/-- The names that an exported declaration declares are its names. -/
theorem says_declarationItems {declaration : Node} :
    ∀ item ∈ declaration.declarationItems, declaration.Says item := by
  have hwords : ∀ x, ∀ y ∈ (declaredItem x).words, y = x ∨ y = "default" := by
    simp [declaredItem, ModuleItem.words]
  intro item hitem
  unfold declarationItems at hitem
  split at hitem
  case h_1 kind declarations hform =>
    obtain ⟨d, hd, hitem⟩ := List.mem_filterMap.1 hitem
    obtain ⟨id, hid, hmap⟩ := Option.bind_eq_some_iff.1 hitem
    obtain ⟨y, hy, rfl⟩ := Option.map_eq_some_iff.1 hmap
    refine Says.of_child (c := d) (says_single rfl (hwords y) hy ?_) ?_
    · rintro c rfl
      exact mem_children_of_idPart? hid
    · simpa [children, hform, Form.parts, Form.slots, Slot.parts] using hd
  case h_4 => exact absurd hitem List.not_mem_nil
  all_goals
    rename_i hform
    obtain ⟨y, hy, rfl⟩ := Option.map_eq_some_iff.1 (Option.mem_toList.1 hitem)
    refine says_single rfl (hwords y) hy ?_
    rintro c rfl
    simp [children, hform, Form.parts, Form.slots, Slot.parts]

/-- The name of a default is a name of its declaration. -/
theorem mem_names_of_defaultName? {d : Node} {x : Text} (h : defaultName? (some d) = some x) :
    x ∈ d.names := by
  unfold defaultName? at h
  split at h
  case h_3 => cases h
  all_goals
    rename_i hform
    refine mem_names_of_partName? h ?_
    rintro c rfl
    have hform' := Option.some.inj hform
    simp [children, hform', Form.parts, Form.slots, Slot.parts]

/-- What a statement says about modules it says with its names. Only the export of a default leaves
what it publishes without a name. -/
theorem wordsIn_items {s : Node} {item : ModuleItem} (hitem : item ∈ s.items) :
    s.WordsIn item ∧
      (item.isUnnamed = true → ∃ declaration, s.form = .exportDefaultDeclaration declaration) := by
  have hsays (h : s.Says item) : s.WordsIn item ∧ (item.isUnnamed = true →
      ∃ declaration, s.form = .exportDefaultDeclaration declaration) :=
    ⟨h.words, fun hunnamed => absurd (h.named.symm.trans hunnamed) Bool.false_ne_true⟩
  unfold items at hitem
  split at hitem
  case h_1 specifiers source hform =>
    obtain ⟨v, -, hitem⟩ := mem_elim_literalValue? hitem
    obtain ⟨c, hc, hci⟩ := List.mem_filterMap.1 hitem
    refine hsays ((says_importItem? hci).of_child ?_)
    simp [children, hform, Form.parts, Form.slots, Slot.parts, hc]
  case h_2 declaration hform =>
    refine ⟨?_, fun _ => ⟨declaration, hform⟩⟩
    rw [List.mem_singleton.1 hitem]
    intro x hx
    rcases List.mem_append.1 hx with hx | hx
    · cases declaration with
      | none => exact absurd hx List.not_mem_nil
      | some d =>
        refine Or.inl (mem_names_of_mem_children (c := d) ?_
          (mem_names_of_defaultName? (Option.mem_toList.1 hx)))
        simp [children, hform, Form.parts, Form.slots, Slot.parts]
    · exact Or.inr (List.mem_singleton.1 hx)
  case h_3 declaration _ _ hform =>
    refine hsays ((says_declarationItems item hitem).of_child ?_)
    simp [children, hform, Form.parts, Form.slots, Slot.parts]
  case h_4 specifiers source hform =>
    obtain ⟨v, -, hitem⟩ := mem_elim_literalValue? hitem
    obtain ⟨c, hc, hci⟩ := List.mem_filterMap.1 hitem
    refine hsays ((says_reexportItem? hci).of_child ?_)
    simp [children, hform, Form.parts, Form.slots, Slot.parts, hc]
  case h_5 specifiers hform =>
    obtain ⟨c, hc, hci⟩ := List.mem_filterMap.1 hitem
    refine hsays ((says_exportItem? hci).of_child ?_)
    simp [children, hform, Form.parts, Form.slots, Slot.parts, hc]
  case h_6 source hform =>
    obtain ⟨v, -, rfl⟩ := Option.map_eq_some_iff.1 (Option.mem_toList.1 hitem)
    exact hsays ⟨fun x hx => absurd hx List.not_mem_nil, rfl⟩
  case h_7 source exported hform =>
    obtain ⟨v, -, hmap⟩ := Option.bind_eq_some_iff.1 (Option.mem_toList.1 hitem)
    obtain ⟨x, hx, rfl⟩ := Option.map_eq_some_iff.1 hmap
    refine hsays (says_single rfl (a := some exported) (by simp [ModuleItem.words]) hx ?_)
    rintro c hc
    cases hc
    simp [children, hform, Form.parts, Form.slots, Slot.parts]
  case h_8 => exact absurd hitem List.not_mem_nil

/-- What is left of a statement is the statement or a child of it, unless a default is exported. -/
theorem names_remainder_subset {runtimeModule : Bool} {s t : Node} {names : List Text} {x : Text}
    (h : ∀ declaration, s.form ≠ .exportDefaultDeclaration declaration)
    (ht : t ∈ s.remainder runtimeModule names) (hx : x ∈ t.names) : x ∈ s.names := by
  have hsame (hts : t ∈ [s]) : x ∈ s.names := by
    rw [← List.mem_singleton.1 hts]
    exact hx
  have hgone (hts : t ∈ if runtimeModule then [] else [s]) : x ∈ s.names := by
    cases runtimeModule with
    | true => exact absurd hts List.not_mem_nil
    | false => exact hsame hts
  unfold remainder at ht
  split at ht
  case isTrue => exact absurd ht List.not_mem_nil
  case isFalse =>
    split at ht
    case h_1 declaration hform => exact absurd hform (h declaration)
    case h_2 declaration _ _ hform =>
      cases runtimeModule with
      | false => exact hsame ht
      | true =>
        refine mem_names_of_mem_children (c := t) ?_ hx
        rw [List.mem_singleton.1 ht]
        simp [children, hform, Form.parts, Form.slots, Slot.parts]
    case h_6 => exact hsame ht
    all_goals exact hgone ht

end Node

end ModuleLowering
