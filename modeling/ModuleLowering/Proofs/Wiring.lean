import ModuleLowering.Proofs.Hygiene
import ModuleLowering.Proofs.RegistryShape

/-!
# Wiring

On the registry each name that a module imports or passes on is bound to the member that is meant,
of the module that is meant: the identifier that the binding reads from is declared by one
statement of the lowered module alone, and that makes the module of the specifier available.
Nothing else reads from these identifiers.
-/

set_option autoImplicit false

namespace ModuleLowering

/-- The statement that declares the identifier of a specifier's module: an import by the specifier
itself if the host loads it, and otherwise a call of the registry with the path that the table
gives. -/
def Resolution.declaration (r : Resolution) (specifier ident : Text) : Node :=
  if r.isExternal specifier then Node.wholeImport ident (.text specifier)
  else Registry.localModule ident (r.mappedPath specifier)

/-- In the module `body` a statement binds what an item takes: it reads the member from one of the
identifiers `idents`, which is declared for the module of the item's specifier. If the item passes
something on, no other statement declares its name. -/
inductive Wired (resolution : Resolution) (idents : List Text) (body : List Node) (n : NamedItem)
    (s : Node) : Prop where
  | intro (member : Member) (specifier ident : Text)
      (htaken : n.item.taken? = some (member, .text specifier))
      (hident : ident ∈ idents)
      (hs : s = Node.constant n.name (some (member.read ident)))
      (hdeclared : declarationsOf ident body = [resolution.declaration specifier ident])
      (hpassed : n.item.isPassed = true → declarationsOf n.name body = [s])

/-- A publication publishes an item: by name, or a whole module. -/
def NamedItem.PublishedBy (n : NamedItem) (moduleId : Text) (s : Node) : Prop :=
  ∃ properties wildcards, s = Registry.publication moduleId properties wildcards ∧
    match n.item.key? with
    | some key =>
      Registry.publishedProperty (if key.isEmpty then n.name else key) n.name ∈ properties
    | none => n.name ∈ wildcards

/-- How a lowered module is wired. The items of the module go by `named`; `bindings` bind what they
take, one statement for each and in their order, and no other statement reads from the identifiers
`idents` that are new. What is passed on is published at the end. -/
structure Wiring (config : Config) (program : Node) (lowered : List Node) (named : List NamedItem)
    (idents : List Text) (before bindings after : List Node) : Prop where
  items : named.map NamedItem.item = program.statements.flatMap Node.items
  supported : ∀ s ∈ program.statements, s.Supported
  own : ∀ n ∈ named, ∀ x, n.item.ownName? = some x → n.name = x
  new : ∀ n ∈ named, n.item.ownName? = none → n.name ∉ program.names
  newIdents : ∀ ident ∈ idents, ident ∉ program.names
  statements : lowered = before ++ bindings ++ after
  wired : List.Forall₂ (Wired config.resolution idents lowered)
    (named.filter fun n => n.item.isTaken) bindings
  only : ∀ s ∈ before ++ after, ∀ ident ∈ idents, ∀ x, ∀ member : Member,
    s ≠ Node.constant x (some (member.read ident))
  published : ∀ n ∈ named, n.item.isPassed = true →
    ∃ s, lowered.getLast? = some s ∧ n.PublishedBy config.moduleId s

namespace Lowering

/-! ## Reading from modules -/

theorem mem_references_read (x ident : Text) (member : Member) :
    ident ∈ (Node.constant x (some (member.read ident))).references := by
  rw [Node.mem_references_iff, Node.occurrences_constant, Option.toList_some,
    List.flatMap_singleton]
  cases member with
  | named name => exact Or.inr (by simp [Member.read, Node.occurrences_memberNamed_identifier])
  | whole => exact Or.inl (by simp [Member.read, Registry.occurrences_asWildcard])

theorem constant_call_ne_read (x y entry ident : Text) (arguments : List Node) (member : Member) :
    Node.constant x (some (Registry.call entry arguments)) ≠
      Node.constant y (some (member.read ident)) := by
  intro h
  cases member with
  | named name => cases h
  | whole => cases h

theorem declaration_mem_registration (resolution : Resolution) (specifier ident : Text) :
    resolution.declaration specifier ident ∈
      (resolution.key specifier).registration ident := by
  unfold Resolution.declaration ModuleKey.registration Resolution.key Resolution.actualPath
  dsimp only
  split
  case isTrue => exact List.mem_cons_self
  case isFalse => exact List.mem_singleton.2 rfl

theorem mem_declaredNames_declaration (resolution : Resolution) (specifier ident : Text) :
    ident ∈ (resolution.declaration specifier ident).declaredNames := by
  unfold Resolution.declaration
  split
  case isTrue => simp
  case isFalse => simp [Registry.localModule]

/-- No statement that makes a module available reads from one. -/
theorem registration_ne_read {key : ModuleKey} {ident x y : Text} {member : Member} :
    ∀ s ∈ key.registration ident, s ≠ Node.constant x (some (member.read y)) := by
  intro s hs
  unfold ModuleKey.registration at hs
  split at hs
  case isTrue =>
    rcases List.mem_cons.1 hs with rfl | hs
    · intro h
      cases h
    · rw [List.mem_singleton.1 hs]
      intro h
      cases h
  case isFalse =>
    rw [List.mem_singleton.1 hs]
    exact constant_call_ne_read _ _ _ _ _ _

/-! ## Lowered modules -/

namespace Stages

variable {config : Config} {program : Node} {body : List Node} {found : List (List Finding)}
  {bindings : List Node}

/-- What is passed on is published at the end of the module. -/
theorem publishedBy (f : Finding) (hf : f ∈ found.flatten) (hpassed : f.item.isPassed = true) :
    f.named.PublishedBy config.moduleId
      (publicationOf config (found.flatten.map Finding.named)) := by
  have hmem : f.named ∈ found.flatten.map Finding.named := List.mem_map_of_mem hf
  refine ⟨_, _, rfl, ?_⟩
  cases hkey : f.named.item.key? with
  | some key =>
    refine List.mem_filterMap.2 ⟨_, hmem, ?_⟩
    unfold NamedItem.property?
    rw [hkey]
    rfl
  | none =>
    refine List.mem_filterMap.2 ⟨_, hmem, ?_⟩
    exact if_pos (ModuleItem.isWildcard_of_isPassed hpassed hkey)

/-- A statement that reads what an item takes is wired. -/
theorem wired (h : Stages config program body found bindings)
    (hmode : config.runtimeModule = true) {lowered : List Node}
    (hregistered : ∀ s ∈ registrations config program, s ∈ lowered)
    (hbindings : ∀ s ∈ bindings, s ∈ lowered)
    (hdeclared : ∀ x ∈ found.flatten.filterMap Finding.newName? ++
      (resolver config program).modules.map ResolvedModule.ident, DeclaredOnce x lowered) :
    List.Forall₂ (Wired config.resolution
        ((resolver config program).modules.map ResolvedModule.ident) lowered)
      ((found.flatten.map Finding.named).filter fun n => n.item.isTaken) bindings := by
  have hread := (h.onRegistry hmode).bindings
  rw [flatten_named] at hread
  obtain ⟨hlength, hpairs⟩ := List.forall₂_iff_zip.1 hread
  refine List.forall₂_iff_zip.2 ⟨hlength, fun {n s} hpair => ?_⟩
  obtain ⟨hn, hs⟩ := List.of_mem_zip hpair
  obtain ⟨member, specifier, ident, htaken, hregistered', rfl⟩ := hpairs hpair
  obtain ⟨m, hm, hpairm⟩ := List.mem_map.1 hregistered'
  obtain ⟨hkey, hident⟩ := Prod.mk.inj hpairm
  have hmem : ident ∈ (resolver config program).modules.map ResolvedModule.ident := by
    rw [← hident]
    exact List.mem_map_of_mem hm
  have hdeclaration : config.resolution.declaration specifier ident ∈ lowered := by
    refine hregistered _ (List.mem_flatMap.2 ⟨m, hm, ?_⟩)
    rw [hkey, hident]
    exact declaration_mem_registration config.resolution specifier ident
  refine .intro member specifier ident htaken hmem rfl ?_ fun hpassed => ?_
  · refine (hdeclared ident (List.mem_append_right _ hmem)).declarationsOf_eq hdeclaration ?_
    exact mem_declaredNames_declaration config.resolution specifier ident
  · obtain ⟨f, hf, rfl⟩ := List.mem_map.1 (List.mem_of_mem_filter hn)
    have hnew : f.newName? = some f.name :=
      NamedItem.newName?_of_not_own (ModuleItem.ownName?_of_isPassed hpassed)
    have hgiven := List.mem_append_left ((resolver config program).modules.map ResolvedModule.ident)
      (List.mem_filterMap.2 ⟨f, hf, hnew⟩)
    refine (hdeclared f.name hgiven).declarationsOf_eq (hbindings _ hs) ?_
    exact List.mem_singleton.2 rfl

/-- In front of the bindings nothing reads from a module. -/
theorem front_ne_read {moduleId : Text} {object : Option Text} :
    ∀ s ∈ object.toList.map (Registry.boundary · moduleId) ++ registrations config program,
      ∀ ident x, ∀ member : Member, s ≠ Node.constant x (some (member.read ident)) := by
  intro s hs ident x member
  rcases List.mem_append.1 hs with hs | hs
  · obtain ⟨b, -, rfl⟩ := List.mem_map.1 hs
    exact constant_call_ne_read _ _ _ _ _ _
  · obtain ⟨m, -, hsm⟩ := List.mem_flatMap.1 hs
    exact registration_ne_read s hsm

theorem exports_ne_nil (h : Stages config program body found bindings) {f : Finding}
    (hf : f ∈ found.flatten) (hpassed : f.item.isPassed = true) :
    (collection config program).exports ≠ [] := by
  intro hnil
  rw [Collection.exports, h.findings] at hnil
  have hnone := List.filterMap_eq_nil_iff.1 hnil f hf
  cases f <;> first | (cases hnone; done) | cases hpassed

/-- The lowered module ends with what publishes an item that is passed on. -/
theorem exists_publication (h : Stages config program body found bindings) {object : Option Text}
    {before rest : List Node}
    (hending : Ending config program (collection config program).exports
      (collection config program).body object rest)
    {n : NamedItem} (hn : n ∈ found.flatten.map Finding.named) (hpassed : n.item.isPassed = true) :
    ∃ s, (before ++ rest).getLast? = some s ∧ n.PublishedBy config.moduleId s := by
  obtain ⟨f, hf, rfl⟩ := List.mem_map.1 hn
  cases hending with
  | rewritten boundary hnone => exact absurd hnone (h.exports_ne_nil hf hpassed)
  | published _ _ hrest =>
    refine ⟨_, ?_, publishedBy f hf hpassed⟩
    rw [hrest, h.publication_eq, flatten_named, ← List.append_assoc, List.getLast?_concat]

end Stages

/-- On the registry every import and everything that is passed on is wired to the member and the
module that are meant. -/
theorem ofProgram_wiring {config : Config} {program : Node} {l : Lowering}
    (hmode : config.runtimeModule = true) (h : (ofProgram config program).result.1 = .ok l) :
    ∃ named idents before bindings after,
      Wiring config program l.program.statements named idents before bindings after := by
  obtain ⟨body, found, bindings, hstages, hl⟩ := stages_of_ok h
  obtain ⟨object, rest, hprogram, -, hending⟩ := hstages.lowered hl
  obtain ⟨given, hallocated, hdeclared⟩ := hstages.declaredOnce hl
  have honRegistry := hstages.onRegistry hmode
  have hstatements : l.program.statements =
      object.toList.map (Registry.boundary · config.moduleId) ++ registrations config program ++
        bindings ++ rest := by
    rw [hprogram, ← List.append_assoc]
    rfl
  have hmember : ∀ n ∈ found.flatten.map Finding.named,
      n ∈ (found.map (List.map Finding.named)).flatten := by
    intro n hn
    rw [Stages.flatten_named]
    exact hn
  refine ⟨found.flatten.map Finding.named,
    (resolver config program).modules.map ResolvedModule.ident,
    object.toList.map (Registry.boundary · config.moduleId) ++ registrations config program,
    bindings, rest, ?_⟩
  constructor
  case items =>
    rw [List.flatMap_def, honRegistry.items, ← List.map_flatten, Stages.flatten_named]
  case supported => exact honRegistry.supported
  case own => exact fun n hn => honRegistry.own n (hmember n hn)
  case new =>
    intro n hn hown
    refine honRegistry.new n.name (List.mem_append_left _ ?_)
    exact List.mem_filterMap.2 ⟨n, hmember n hn, NamedItem.newName?_of_not_own hown⟩
  case newIdents =>
    intro ident hident
    refine honRegistry.new ident (List.mem_append_right _ ?_)
    rw [List.map_map]
    exact hident
  case statements => exact hstatements
  case wired =>
    refine hstages.wired hmode ?_ ?_ fun x hx => hdeclared x (List.mem_append_left _ hx)
    · intro s hs
      simp [hstatements, hs]
    · intro s hs
      simp [hstatements, hs]
  case only =>
    intro s hs ident hident x member
    rcases List.mem_append.1 hs with hs | hs
    · exact Stages.front_ne_read s hs ident x member
    · intro hread
      refine hstages.notMem_references_rest hending hs ident hident ?_
      rw [hread]
      exact mem_references_read x ident member
  case published =>
    intro n hn hpassed
    rw [hstatements]
    exact hstages.exists_publication hending hn hpassed

/-- Imports and what is passed on, of every kind, are bound from local and external modules. -/
theorem wiring_of_every_kind :
    ∃ config source program l named idents before bindings after,
      Node.ofSource source = .ok program ∧ (ofProgram config program).result.1 = .ok l ∧
      Wiring config program l.program.statements named idents before bindings after ∧
      bindings.length = 7 := by
  have htest : lowersTo
      { moduleId := "main", runtimeModule := true, importPaths := some [("x", "lib/x.js")],
        external := some ⟨"y", [.literal 'y'], [], []⟩ }
      ("import a, \x7bb as c\x7d from 'x'; import * as d from 'y'; export * from 'z';" ++
        "export \x7bdefault as e, f\x7d from 'x'; export * as g from 'y';")
      (fun program _ =>
        ((program.statements.flatMap Node.items).filter ModuleItem.isTaken).length = 7) = true := by
    decide +kernel
  obtain ⟨program, l, hprogram, hl, hcount⟩ := exists_of_lowersTo htest
  obtain ⟨named, idents, before, bindings, after, hwiring⟩ := ofProgram_wiring rfl hl
  refine ⟨_, _, program, l, named, idents, before, bindings, after, hprogram, hl, hwiring, ?_⟩
  rw [← of_decide_eq_true hcount, ← hwiring.items, ← hwiring.wired.length_eq, List.filter_map,
    List.length_map]
  rfl

end Lowering

end ModuleLowering
