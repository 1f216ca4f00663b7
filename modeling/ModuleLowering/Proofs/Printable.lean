import ModuleLowering.Proofs.BuildingModules
import ModuleLowering.Proofs.Hygiene
import ModuleLowering.Proofs.LoweredForms
import ModuleLowering.Proofs.Publishing

/-!
# What is read and lowered can be printed

Reading builds a well-formed tree, lowering keeps it well formed in either mode, and a well-formed
tree has a text. So the printer, which has to refuse some trees, is never given one of them.
-/

set_option autoImplicit false

namespace ModuleLowering

open Node

namespace Rewritten

/-- A well-formed module stays well formed when it is rewritten. -/
theorem fits_ofProgram (moduleId : Text) (runtimeModule : Bool) (resolution : Resolution)
    (names : Names) {module : Node} (h : module.Fits .module) :
    (((ofProgram moduleId runtimeModule resolution names module).outcome.item? module).getD
      module).Fits .module := by
  have hvalid := h.walk_isInvalid
  cases h with
  | @program loc body hbody =>
    obtain ⟨hitem, -, -⟩ := ofProgram_eq (d := Rewriting.redirection runtimeModule resolution names)
      rfl moduleId (rfl : (Node.mk loc (.program body)).form = _) hvalid
    rw [hitem]
    refine .program (List.forall_mem_append.2 ⟨?_, ?_⟩)
    · unfold Rewriting.front
      split
      · exact List.forall_mem_singleton.2 (Registry.fits_boundary _ _)
      · nofun
    · exact List.forall_mem_map.2 fun s hs => (hbody s hs).redirected _

end Rewritten

namespace Lowering

variable {config : Config} {program : Node}

theorem fits_bindings {runtimeModule : Bool} {r : Resolver} {records : List ImportRecord}
    {bindings : List Node} (h : List.Forall₂ (Bound runtimeModule r) records bindings) :
    ∀ s ∈ bindings, s.Fits .item := by
  induction h with
  | nil => nofun
  | cons hbound _ ih => exact List.forall_mem_cons.2 ⟨hbound.fits, ih⟩

/-- What a module consists of after its imports have been bound. -/
theorem Stages.fits {body : List Node} {found : List (List Finding)} {bindings : List Node}
    (h : Stages config program body found bindings) (hbody : ∀ s ∈ body, s.Fits .item) :
    ∀ s ∈ (resolver config program).modules.flatMap ResolvedModule.registration ++ bindings ++
      (collection config program).body, s.Fits .item := by
  refine List.forall_mem_append.2 ⟨List.forall_mem_append.2 ⟨?_, fits_bindings h.bound⟩, ?_⟩
  · intro s hs
    obtain ⟨m, hm, hsm⟩ := List.mem_flatMap.1 hs
    rw [h.registration m hm] at hsm
    exact m.key.fits_registration m.ident s hsm
  · rw [h.remains]
    intro t ht
    obtain ⟨s, hs, fs, -, -, ht⟩ := exists_statement_of_remainder h.items ht
    exact (hbody s hs).remainder _ _ t ht

/-- A well-formed module stays well formed when it is lowered. -/
theorem fits_ofProgram {l : Lowering} (h : program.Fits .module)
    (hl : (ofProgram config program).result.1 = .ok l) : l.program.Fits .module := by
  obtain ⟨body, found, bindings, hstages, rfl⟩ := stages_of_ok hl
  cases h with
  | @program loc statements hstatements =>
    cases hstages.form
    have hitems := hstages.fits hstatements
    unfold assemble
    dsimp only
    split
    case isTrue => exact Rewritten.fits_ofProgram _ _ _ _ (.program hitems)
    case isFalse =>
      refine .program (List.forall_mem_append.2 ⟨hitems, ?_⟩)
      exact List.forall_mem_singleton.2 (ExportRecord.fits_publication _ _)

/-- What can be read has a text, and so has what it is lowered to, whatever the configuration. -/
theorem exists_moduleText_of_ofSource {source : Text} (h : Node.ofSource source = .ok program) :
    (∃ t, program.moduleText = .ok t) ∧
      ∀ config l, (ofProgram config program).result.1 = .ok l →
        ∃ t, l.program.moduleText = .ok t := by
  have hfits := Node.fits_ofSource h
  refine ⟨hfits.exists_moduleText, ?_⟩
  intro config l hl
  exact (fits_ofProgram hfits hl).exists_moduleText

/-- A module with patterns in an assignment and in the head of a loop, and with a slot assigned to in
a pattern and by itself, has a text before and after it is lowered. -/
theorem exists_moduleText_of_patterns :
    ∃ config source program l t u, Node.ofSource source = .ok program ∧
      (ofProgram config program).result.1 = .ok l ∧ program.moduleText = .ok t ∧
      l.program.moduleText = .ok u := by
  have htest : lowersTo { moduleId := "main", runtimeModule := true }
      "[exports.b, ...a] = []; for (var \x7bc = 1\x7d of a) module.exports = require('x');"
      (fun _ l => l.rewritten.isSome) = true := by
    decide +kernel
  obtain ⟨program, l, hprogram, hl, -⟩ := exists_of_lowersTo htest
  obtain ⟨⟨t, ht⟩, hlowered⟩ := exists_moduleText_of_ofSource hprogram
  obtain ⟨u, hu⟩ := hlowered _ l hl
  exact ⟨_, _, program, l, t, u, hprogram, hl, ht, hu⟩

end Lowering

namespace Logged

variable {ε δ α β : Type}

theorem ofExcept_ok_bind (a : α) (f : α → Logged ε β) : ofExcept (.ok a) >>= f = f a := rfl

/-- What comes after work that was attempted goes on with its outcome. -/
theorem result_attempt_bind (work : Logged ε α) (f : Except ε α → Logged δ β) :
    (attempt work >>= f).result.1 = ((ExceptT.run (f work.result.1)).run work.result.2).1 :=
  rfl

end Logged

/-- Lowering a text does not fail because something cannot be printed. -/
theorem lowerText_ne_print (source : Text) (config : Except ConfigError Config)
    (file : Option Text) (e : PrintError) :
    (lowerText source config file).result.1 ≠ .error (.print e) := by
  unfold lowerText
  cases hfile : Node.ofFile source file with
  | error fault => nofun
  | ok read =>
    cases read with
    | error d => nofun
    | ok program =>
      have hfits : program.Fits .module := by
        unfold Node.ofFile at hfile
        split at hfile
        case h_1 n hn =>
          cases hfile
          exact Node.fits_ofSource hn
        case h_2 => split at hfile <;> cases hfile
      rw [Except.mapError, Logged.ofExcept_ok_bind]
      dsimp only
      rw [Logged.result_attempt_bind]
      split
      case h_1 fault _ => split <;> nofun
      case h_2 l hl =>
        have hlfits : l.program.Fits .module := by
          cases config with
          | error fault => cases hl
          | ok config =>
            rw [Except.mapError, Logged.ofExcept_ok_bind] at hl
            exact Lowering.fits_ofProgram hfits hl
        obtain ⟨t, ht⟩ := hlfits.exists_moduleText
        rw [ht]
        nofun

end ModuleLowering
