import ModuleLowering.Files.Tree

/-!
# Laws of writing files

Writing a file changes what stands at one place of a tree and at no other. The way to that place
leads through directories that stay, so reading the path that was written gives what was written.
-/

set_option autoImplicit false

namespace ModuleLowering.FileTree

/-! ## Entries -/

/-- The tree with a file at a place. -/
def put (t : FileTree) (place : List Text) (bytes : List UInt8) : FileTree :=
  ⟨t.entries.filter (fun entry => entry.1 ≠ place) ++ [(place, .file bytes)]⟩

theorem entry?_put_self (t : FileTree) (place : List Text) (bytes : List UInt8) :
    entry? (t.put place bytes) place = some (.file bytes) := by
  have hnone : (t.entries.filter fun entry => entry.1 ≠ place).find? (·.1 = place) = none := by
    rw [List.find?_eq_none]
    intro entry hentry
    simpa using (List.mem_filter.1 hentry).2
  unfold entry? put
  rw [List.find?_append, hnone]
  simp

/-- What stands at another place stays, if the places above the new file are directories. -/
theorem entry?_put_of_ne {t : FileTree} {place p : List Text} (bytes : List UInt8) (hp : p ≠ place)
    (habove : p <+: place → p ≠ [] → t.entry? p = some .directory) :
    entry? (t.put place bytes) p = t.entry? p := by
  have hfind : (t.entries.filter fun entry => entry.1 ≠ place).find? (·.1 = p) =
      t.entries.find? (·.1 = p) := by
    rw [List.find?_filter]
    congr 1
    funext entry
    by_cases h : entry.1 = p <;> simp [h, hp]
  have hlast : ([(place, Entry.file bytes)].find? (·.1 = p)) = none := by
    simpa using Ne.symm hp
  unfold entry? at habove ⊢
  simp only [put, List.find?_append, hfind, hlast, Option.or_none]
  cases hfound : t.entries.find? (·.1 = p) with
  | some entry => rfl
  | none =>
    by_cases hempty : p = []
    · simp [hempty]
    · by_cases hbelow : p <+: place
      · have hdirectory := habove hbelow hempty
        rw [hfound] at hdirectory
        simp only at hdirectory ⊢
        rw [hdirectory]
        simp [hbelow]
      · have hnot : p.isPrefixOf place = false := by
          rw [Bool.eq_false_iff, Ne, List.isPrefixOf_iff_prefix]
          exact hbelow
        have hany : ((t.entries.filter fun entry => entry.1 ≠ place).any
            fun entry => p.isPrefixOf entry.1) = t.entries.any fun entry => p.isPrefixOf entry.1 := by
          rw [List.any_filter]
          congr 1
          funext entry
          by_cases h : entry.1 = place
          · simp [h, hnot]
          · simp [h]
        simp only [List.any_append, hany, List.any_cons, hnot, List.any_nil, Bool.or_false]

/-! ## Ways -/

/-- Whether the places on the way to a place, the place itself included, are directories. -/
def IsWay (t : FileTree) (place : List Text) : Prop :=
  ∀ p, p <+: place → p ≠ [] → t.entry? p = some .directory

theorem isWay_nil (t : FileTree) : t.IsWay [] := fun _ hp hne =>
  absurd (List.prefix_nil.1 hp) hne

theorem IsWay.dropLast {t : FileTree} {place : List Text} (h : t.IsWay place) :
    t.IsWay place.dropLast := fun p hp =>
  h p (hp.trans (List.dropLast_prefix place))

theorem IsWay.append {t : FileTree} {place : List Text} {part : Text} (h : t.IsWay place)
    (hpart : t.entry? (place ++ [part]) = some .directory) : t.IsWay (place ++ [part]) := by
  intro p hp hne
  rcases List.prefix_concat_iff.1 hp with rfl | hp
  · exact hpart
  · exact h p hp hne

/-- Above the top no place of the tree is reached. -/
theorem follow_none {t : FileTree} {parts : List Text} {place : List Text} {e : Option Entry} :
    t.follow none parts ≠ .ok (some place, e) := by
  induction parts with
  | nil => simp [follow]
  | cons part rest ih =>
    unfold follow
    split
    · exact ih
    · simp

/-- Where a way ends at something else than a directory, it leads there through directories; with a
file written there, the same way leads to the file. -/
theorem follow_put {t : FileTree} {parts directory place : List Text} {e : Option Entry}
    (bytes : List UInt8) (hway : t.IsWay directory) (he : e ≠ some .directory)
    (h : t.follow (some directory) parts = .ok (some place, e)) :
    (∀ p, p <+: place → p ≠ place → p ≠ [] → t.entry? p = some .directory) ∧
      t.entry? place = e ∧
      (t.put place bytes).follow (some directory) parts = .ok (some place, some (.file bytes)) := by
  induction parts generalizing directory with
  | nil =>
    simp only [follow, Except.ok.injEq, Prod.mk.injEq] at h
    exact absurd h.2.symm he
  | cons part rest ih =>
    unfold follow at h ⊢
    split at h
    case isTrue hup =>
      rw [if_pos hup]
      cases hempty : directory.isEmpty with
      | true =>
        rw [hempty, if_pos rfl] at h
        exact absurd h follow_none
      | false =>
        rw [hempty, if_neg Bool.false_ne_true] at h
        exact ih hway.dropLast h
    case isFalse hdown =>
      rw [if_neg hdown]
      cases hentry : t.entry? (directory ++ [part]) with
      | none =>
        simp only [hentry] at h
        split at h
        case isFalse => cases h
        case isTrue hrest =>
          obtain ⟨rfl, rfl⟩ : directory ++ [part] = place ∧ none = e := by simpa using h
          refine ⟨fun p hp hne hnil => ?_, hentry, ?_⟩
          · exact hway p ((List.prefix_concat_iff.1 hp).resolve_left hne) hnil
          · simp only [entry?_put_self, hrest, if_true]
      | some entry =>
        cases entry with
        | file old =>
          simp only [hentry] at h
          split at h
          case isFalse => cases h
          case isTrue hrest =>
            obtain ⟨rfl, rfl⟩ : directory ++ [part] = place ∧ some (.file old) = e := by
              simpa using h
            refine ⟨fun p hp hne hnil => ?_, hentry, ?_⟩
            · exact hway p ((List.prefix_concat_iff.1 hp).resolve_left hne) hnil
            · simp only [entry?_put_self, hrest, if_true]
        | directory =>
          simp only [hentry] at h
          obtain ⟨habove, hplace, hfollow⟩ := ih (hway.append hentry) h
          have hne : directory ++ [part] ≠ place := by
            rintro rfl
            exact he (hplace.symm.trans hentry)
          refine ⟨habove, hplace, ?_⟩
          have hstays : entry? (t.put place bytes) (directory ++ [part]) = some .directory := by
            rw [entry?_put_of_ne bytes hne fun _ _ => hentry, hentry]
          simp only [hstays, hfollow]

/-! ## Writing -/

/-- A file has been written at the place of a path: what stands there can be read by that path, and
what stands anywhere else has not changed. -/
structure Written (t : FileTree) (path : Path) (bytes : List UInt8) (t' : FileTree) : Prop where
  read : t'.read path = .ok bytes
  others : ∃ place, t.locate path = .ok (some place, t.entry? place) ∧
    ∀ p, p ≠ place → t'.entry? p = t.entry? p

theorem write_spec {t t' : FileTree} {path : Path} {bytes : List UInt8}
    (h : t.write path bytes = .ok t') : t.Written path bytes t' := by
  unfold write at h
  cases hlocate : t.locate path with
  | error fault =>
    rw [hlocate] at h
    cases h
  | ok found =>
    obtain ⟨place?, e⟩ := found
    rw [hlocate] at h
    have he : e ≠ some .directory := by
      rintro rfl
      cases place? <;> cases h
    cases place? with
    | none => rcases e with _ | _ | _ <;> cases h
    | some place =>
      have hput : t' = t.put place bytes := by
        rcases e with _ | _ | _
        · exact (Except.ok.inj h).symm
        · exact (Except.ok.inj h).symm
        · exact absurd rfl he
      subst hput
      unfold locate at hlocate
      split at hlocate
      case isFalse => exact absurd hlocate follow_none
      case isTrue hroot =>
        obtain ⟨habove, hplace, hfollow⟩ := follow_put bytes t.isWay_nil he hlocate
        refine ⟨?_, place, ?_, fun p hp => ?_⟩
        · simp only [read, locate, if_pos hroot, hfollow]
          rfl
        · rw [locate, if_pos hroot, hlocate, hplace]
        · exact entry?_put_of_ne bytes hp fun hbelow hnil => habove p hbelow hp hnil

theorem writeText_spec {t t' : FileTree} {path : Path} {text : Text}
    (h : t.writeText path text = .ok t') :
    ∃ bytes, text.toUtf8? = some bytes ∧ t.Written path bytes t' := by
  unfold writeText at h
  dsimp only at h
  cases hwrite : t.write path (text.toUtf8?.getD []) with
  | error fault =>
    rw [hwrite] at h
    cases h
  | ok written =>
    rw [hwrite] at h
    cases hbytes : text.toUtf8? with
    | none =>
      rw [hbytes] at h
      cases h
    | some bytes =>
      rw [hbytes] at h hwrite
      obtain rfl : written = t' := Except.ok.inj h
      exact ⟨bytes, rfl, write_spec hwrite⟩

end ModuleLowering.FileTree
