import ModuleLowering.Proofs.FollowingStatements
import ModuleLowering.Proofs.ReadingStatements
import ModuleLowering.Syntax.Parse.Module

/-!
# What modules read

The rules for imports and exports read the words of the grammar, and by induction on how deep a text
goes the rules for what lies deeper do as well. So a stream of tokens is read to its end if and only
if the grammar derives it, and else its first token that nothing goes on with is reported.
-/

set_option autoImplicit false

namespace ModuleLowering

open Computability

namespace Rule

open Punctuator

/-! ## The words of modules -/

theorem language_importDecl : importDecl.language = Word.kwImport.alone *
    (string.language * Terminal.terminator.alone + importClause.language *
      (Word.kwFrom.alone * (string.language * Terminal.terminator.alone))) := by
  simp [language_eq importDecl, language_only (r := importBare) rfl, mul_add, -add_eq_sup, add_comm]

/-- Imported names between braces or under a namespace. -/
def importedNames : Language Terminal := namespaceImport.language + namedImports.language

theorem language_importClause : importClause.language =
    ident.language * (comma.alone * importedNames + 1) + importedNames := by
  simp [language_eq importClause, importedNames, mul_add, -add_eq_sup]
  abel

/-- What is exported without a declaration. -/
def namedExport : Language Terminal :=
  namedExports.language * ((Word.kwFrom.alone * string.language + 1) * Terminal.terminator.alone)

/-- What is exported from another module as a whole. -/
def wholeExport : Language Terminal :=
  star.alone * ((Word.kwAs.alone * exportName.language + 1) *
    (Word.kwFrom.alone * (string.language * Terminal.terminator.alone)))

/-- What is exported as the default. -/
def defaultExport : Language Terminal :=
  Word.kwDefault.alone * ((functionDecl.language + anonFunctionDecl.language) +
    ((classDecl.language + anonClassDecl.language) + assign.language * Terminal.terminator.alone))

/-- A declaration that is exported. -/
def exportedDeclaration : Language Terminal :=
  varDecl.language * Terminal.terminator.alone + (classDecl.language + functionDecl.language)

theorem language_exportDecl : exportDecl.language = Word.kwExport.alone *
    (defaultExport + (namedExport + (wholeExport + exportedDeclaration))) := by
  have hbody : defaultBody.language = (functionDecl.language + anonFunctionDecl.language) +
      ((classDecl.language + anonClassDecl.language) +
        assign.language * Terminal.terminator.alone) := by
    simp [language_eq defaultBody, -add_eq_sup]
    abel
  simp [language_eq exportDecl, language_eq exportDeclaration,
    language_only (r := exportDefault) rfl, language_only (r := exportNamed) rfl,
    language_only (r := exportFrom) rfl, language_only (r := exportAll) rfl,
    language_only (r := exportAllAs) rfl, hbody, defaultExport, namedExport, wholeExport,
    exportedDeclaration, mul_add, add_mul, mul_assoc, -add_eq_sup]
  abel

end Rule

namespace Parser.Reads

open Rule Follow

variable {n : ℕ} {k : Deeper} {F G : Follow}

/-! ## Names across modules -/

theorem exportName : Reads n F exportName Rule.exportName.language := by
  have hdefault {a : Shaped Node} : Reads n F (do
      Parser.word .kwDefault
      return a) (Phrase.one (.word .kwDefault)).language := by
    rw [Phrase.language_one]
    exact .map (.word _)
  refine .place fun s => ⟨.look fun o => ?sound, .rule ⟨?_, ?_, ?_⟩⟩
  case sound =>
    split
    · exact (Sound.of_reads stringLiteral).rule (q := string) (by simp)
    · exact hdefault.sound.rule (by simp)
    · exact (Sound.of_reads (.map identifier)).rule (q := ident) (by simp)
  · exact .lookName ⟨rfl, rfl, rfl, rfl, rfl, rfl, rfl⟩ .ident identifier.map.complete
  · exact .lookAt .string (.only rfl fun _ => rfl) stringLiteral.complete
  · exact .lookAt (.word .kwDefault) (.one fun _ => rfl) hdefault.complete

/-! ## Imports -/

theorem importSpecifier : Reads n (.without [.word .kwAs]) importSpecifier importSpec.language := by
  refine of_eq (.place fun s => .bind exportName fun imported => .ifTaken
    (.map (.fmap identifier)) (.pureBind (.pure _)) (.one fun _ => id)) ?_
  simp [language_only (r := importSpec) rfl]

theorem starts_exportName :
    Begins Rule.exportName.language (.without [.punctuator .rightBrace]) := by
  refine .rule ⟨.name ?_, .only rfl fun v => without_cons (by decide),
    .one fun v => without_cons (by decide)⟩
  intro t ht v
  refine without_cons ?_
  revert t
  decide

theorem namespaceImport : Reads n F namespaceImport Rule.namespaceImport.language := by
  refine of_eq (.place fun s => .bind (.punctuator _) fun _ => .bind (.word _) fun _ =>
    .map identifier) ?_
  simp [language_only (r := Rule.namespaceImport) rfl]

theorem importedNames : Reads n .any importedNames Rule.importedNames := by
  refine .lookIf (c := (· = some (.punctuator .star))) (.map namespaceImport) ?_ ?_ ?_
  · refine of_eq (.bind (.fmap (.take _)) fun _ => .map (items importSpecifier
      (fun v => without_cons (by decide)) (fun v => without_cons (by decide))
      (.front rfl starts_exportName) (by decide))) ?_
    simp [language_only (r := namedImports) rfl]
  · exact .of_begins (.terminal rfl fun _ => rfl)
  · exact .of_begins (.terminal rfl fun _ => nofun)

theorem importClause :
    Reads n (.without [.punctuator .comma]) importClause Rule.importClause.language := by
  rw [language_importClause]
  refine .place fun s => .lookIf (c := fun o => (o.map Terminal.isName).getD false = true)
    (.bind identifier fun name => .ifTaken (.map (importedNames.anywhere (Nat.sub_le n 1)))
      (.pure _) (.one fun _ => id)) (importedNames.anywhere le_rfl) isName_ident.leads ?_
  exact .add (.of_begins (.terminal rfl fun _ => Bool.false_ne_true))
    (.of_begins (.terminal rfl fun _ => Bool.false_ne_true))

theorem starts_importClause : Begins Rule.importClause.language
    (.among (.punctuator .star :: .objectBrace :: Terminal.names)) := by
  rw [language_importClause]
  refine .add (.mul (.name fun t ht v => among_cons ?_))
    (.add (.terminal rfl fun v => among_cons ?_) (.terminal rfl fun v => among_cons ?_))
  · exact List.mem_cons_of_mem _ (List.mem_cons_of_mem _ ht)
  · decide
  · decide

theorem importDeclaration : Reads n F importDeclaration importDecl.language := by
  rw [language_importDecl]
  refine .place fun s => .bind (.word _) fun _ => .lookIf (c := (· = some .string))
    (.bind stringLiteral fun source => .map .terminator) (.bindOpen importClause (fun clause =>
      .bind (.word _) fun _ => .bind stringLiteral fun source => .map .terminator)
      (.front fun v => without_cons (by decide))) ?_ ?_
  · exact .of_begins (.mul (.only rfl fun _ => rfl))
  · exact starts_importClause.leads.mono fun v hv => hv.head_ne (by decide)

/-- What follows `import` in a declaration. -/
theorem begins_importDecl : Begins importDecl.language fun v =>
    v.head? = some (.word .kwImport) ∧ importsInExpression v.tail.head? = false := by
  rw [language_importDecl]
  refine Leads.mul (H := fun v => importsInExpression v.head? = false)
    (.alone fun v hv => ⟨rfl, hv⟩) (.add (.of_begins (.mul (.only rfl fun _ => rfl)))
      (starts_importClause.leads.mono fun v hv => ?_))
  have hnext : Follow.without [.punctuator .leftParen, .punctuator .dot] v :=
    hv.without (by decide)
  simpa [importsInExpression, Follow.without] using hnext

/-! ## Exports -/

theorem exportSpecifier : Reads n (.without [.word .kwAs]) exportSpecifier exportSpec.language := by
  refine of_eq (.place fun s => .bind exportName fun name => .ifTaken
    (.map (.fmap exportName)) (.pureBind (.pure _)) (.one fun _ => id)) ?_
  simp [language_only (r := exportSpec) rfl]

theorem namedExports (s : Option Position) : Reads n F (namedExports s) namedExport := by
  have hend {g : Option (Shaped Node) → Shaped Node} : Reads n F (do
      let source ← if ← Parser.taken (.word .kwFrom) then some <$> Parser.stringLiteral
        else Pure.pure none
      Parser.terminator
      return g source) ((Word.kwFrom.alone * string.language + 1) * Terminal.terminator.alone) := by
    rw [add_mul, one_mul, mul_assoc]
    exact .ifTaken (.bind (.fmap stringLiteral) fun source => .map .terminator)
      (.pureBind (.map .terminator)) (.alone fun v _ => without_cons (by decide))
  refine of_eq (.bind (.fmap (.take _)) fun _ => .bind (items exportSpecifier
    (fun v => without_cons (by decide)) (fun v => without_cons (by decide))
    (.front rfl starts_exportName) (by decide)) fun specifiers => hend) ?_
  simp [namedExport, language_only (r := Rule.namedExports) rfl, mul_assoc]

theorem wholeExport (s : Option Position) : Reads n F (wholeExport s) Rule.wholeExport := by
  have hend {g : Shaped Node → Shaped Node} : Reads n F (do
      Parser.word .kwFrom
      let source ← Parser.stringLiteral
      Parser.terminator
      return g source) (Word.kwFrom.alone * (string.language * Terminal.terminator.alone)) :=
    .bind (.word _) fun _ => .bind stringLiteral fun source => .map .terminator
  refine of_eq (.bind (.punctuator _) fun _ => .ifTaken (.bind (.fmap exportName) fun exported =>
    hend.mono (Nat.sub_le n 1)) (.pureBind hend) (.front fun v => without_cons (by decide))) ?_
  rw [Rule.wholeExport, add_mul, one_mul, mul_assoc Word.kwAs.alone]
  rfl

variable (h : k.Reads n)
include h

theorem defaultExport (s : Option Position) :
    Reads (n + 1) .any (defaultExport k s) Rule.defaultExport := by
  have hvalue {g : Shaped Node → Shaped Node} : Reads (n + 1) .any (do
      let value ← Parser.assignment k
      Parser.terminator
      let declaration ← Pure.pure value
      return g declaration) (assign.language * Terminal.terminator.alone) :=
    .bindOpen (assignment h) (fun value => .map .terminator)
      (.alone fun v _ => among_cons (by decide))
  refine .bind (.word _) fun _ =>
    ⟨.look fun first => .lookFurther fun next => ?sound, .add ?_ (.add ?_ ?_)⟩
  case sound =>
    refine .ite (fun _ => ?_) fun _ => .ite (fun _ => ?_) fun _ => ?_
    · exact (namelessFunctionDeclaration h).map.sound.mono le_self_add
    · exact (namelessClassDeclaration h).map.sound.mono (le_self_add.trans le_add_self)
    · exact hvalue.sound.mono (le_add_self.trans le_add_self)
  · refine .lookBoth (P := fun o next => startsFunction o next = true)
      (.of_begins (.add (startsFunction_of rfl) (startsFunction_of rfl))) fun o next ho => ?_
    rw [if_pos ho]
    exact (namelessFunctionDeclaration h).map.complete
  · exact .lookFirst .classDeclaration
      (.add (.terminal rfl fun _ => rfl) (.terminal rfl fun _ => rfl))
      fun next => (namelessClassDeclaration h).map.complete
  · refine .lookOpens begins_assign.leads fun t next ht => ?_
    rw [if_neg (not_startsFunction ht), if_neg]
    · exact hvalue.complete
    · rintro ⟨⟩
      cases ht

omit h in
theorem look_bind_ite {α : Type} {c : Option Terminal → Prop} [DecidablePred c] (p : Parser α)
    (f : Option Terminal → Parser α) :
    (Parser.look >>= fun o => Parser.look >>= fun o' => if c o then p else f o') =
      Parser.look >>= fun o => if c o then p else Parser.look >>= f := by
  refine congrArg (Parser.look >>= ·) (funext fun o => ?_)
  split
  · rfl
  · rfl

omit h in
theorem among_functionDecl :
    Begins functionDecl.language (.among [.word .kwAsync, .functionDeclaration]) := by
  rw [language_only (r := functionDecl) rfl, Phrase.language_seq_cons, Phrase.language_optional,
    Phrase.language_seq_cons, Phrase.language_seq_nil, mul_one, add_mul, one_mul]
  exact .add (.mul (.only rfl fun v => among_cons (by decide)))
    (.seq (.one fun v => among_cons (by decide)))

omit h in
theorem starts_exportedDeclaration : Begins Rule.exportedDeclaration
    (.without [.word .kwDefault, .objectBrace, .punctuator .star]) := by
  refine .add (.mul (begins_varDecl fun t ht v => without_cons ?_))
    (.add (.terminal rfl fun v => without_cons (by decide))
      (among_functionDecl.mono fun v hv => hv.without (by decide)))
  revert t
  decide

theorem exportedDeclaration (s : Option Position) :
    Reads (n + 1) .any (exportedDeclaration k s) Rule.exportedDeclaration := by
  have hvariables {g : Shaped Node → Shaped Node} : Reads (n + 1) .any (do
      let declared ← Parser.declaredVariables k
      Parser.terminator
      let declaration ← Pure.pure declared
      return g declaration) (varDecl.language * Terminal.terminator.alone) :=
    .bindOpen (declaredVariables h) (fun declared => .map .terminator)
      (.alone fun v _ => among_cons (by decide))
  unfold Parser.exportedDeclaration
  dsimp only
  rw [look_bind_ite (c := fun o => (o.map Terminal.declaresVariables).getD false = true)]
  refine .lookIf (c := fun o => (o.map Terminal.declaresVariables).getD false = true) hvariables
    (.lookIf (c := (· = some .classDeclaration)) (.map (classDeclaration h))
      (.map (functionDeclaration h)) ?_ ?_) ?_ ?_
  · exact .of_begins (.terminal rfl fun _ => rfl)
  · exact .of_begins (among_functionDecl.mono fun v hv => hv.head_ne (by decide))
  · rw [language_varDecl, language_varKind]
    exact .of_begins (.mul (.mul (.anyOf fun _ _ ht => ht)))
  · refine .add (.of_begins (.terminal rfl fun _ => Bool.false_ne_true))
      (.of_begins (among_functionDecl.mono fun v hv => ?_))
    have hnone : Follow.without Terminal.declaring v := hv.without (by decide)
    exact hnone.not_starts fun t => Terminal.declaresVariables_iff.1

theorem exportDeclaration : Reads (n + 1) .any (exportDeclaration k) exportDecl.language := by
  rw [language_exportDecl]
  refine .place fun s => .bind (.word _) fun _ =>
    ⟨.look fun o => ?sound, .add ?_ (.add ?_ (.add ?_ ?_))⟩
  case sound =>
    split
    · exact (defaultExport h s).sound.mono le_self_add
    · exact (Sound.of_reads (namedExports s)).mono (le_self_add.trans le_add_self)
    · exact (Sound.of_reads (wholeExport s)).mono
        (le_self_add.trans (le_add_self.trans le_add_self))
    · exact (exportedDeclaration h s).sound.mono (le_add_self.trans (le_add_self.trans le_add_self))
  · exact .lookAt (.word .kwDefault) (.mul (.alone fun _ => rfl)) (defaultExport h s).complete
  · exact .lookAt .objectBrace (.mul (.terminal rfl fun _ => rfl)) (namedExports s).complete
  · exact .lookAt (.punctuator .star) (.mul (.alone fun _ => rfl)) (wholeExport s).complete
  · refine .look (P := fun o => ∀ t ∈ [Terminal.word .kwDefault, .objectBrace, .punctuator .star],
      o ≠ some t) (.of_begins starts_exportedDeclaration) fun o ho => ?_
    split
    · exact absurd rfl (ho (.word .kwDefault) (by decide))
    · exact absurd rfl (ho .objectBrace (by decide))
    · exact absurd rfl (ho (.punctuator .star) (by decide))
    · exact (exportedDeclaration h s).complete

/-! ## Items -/

omit h in
theorem item_eq (k : Deeper) : Parser.item k = Parser.look >>= fun o =>
    Parser.lookFurther >>= fun next =>
      if o = some (.word .kwExport) then Parser.exportDeclaration k
      else if o = some (.word .kwImport) ∧ importsInExpression next = false then
        Parser.importDeclaration
      else Parser.statement k := by
  unfold Parser.item
  refine congrArg (Parser.look >>= ·) (funext fun o => ?_)
  split
  case h_1 => rfl
  case h_2 =>
    refine congrArg (Parser.lookFurther >>= ·) (funext fun next => ?_)
    cases hnext : importsInExpression next <;> simp
  case h_3 hexport himport =>
    simp only [show ¬o = some (.word .kwExport) from hexport, if_false,
      show ¬o = some (.word .kwImport) from himport, false_and]
    rfl

omit h in
theorem begins_exportDecl :
    Begins exportDecl.language fun v => v.head? = some (.word .kwExport) := by
  rw [language_exportDecl]
  exact .mul (.alone fun _ => rfl)

omit h in
/-- What an item starts with. -/
theorem starts_item : Begins Rule.item.language
    (.starts fun t => t.startsStatement || t = .word .kwExport) := by
  have hfirst {L : Language Terminal} {w : Word} (hw : w = .kwImport ∨ w = .kwExport)
      (hL : Begins L fun v => v.head? = some (.word w)) :
      Begins L (.starts fun t => t.startsStatement || t = .word .kwExport) := by
    refine hL.mono fun v hv => ?_
    obtain ⟨v, rfl⟩ := List.head?_eq_some_iff.1 hv
    obtain rfl | rfl := hw
    · exact starts_cons.2 rfl
    · exact starts_cons.2 rfl
  refine .rule ⟨begins_stmt.firsts.mono fun v hv => hv.mono (by simp +contextual), ?_, ?_⟩
  · exact hfirst (.inl rfl) (begins_importDecl.mono fun v => And.left)
  · exact hfirst (.inr rfl) begins_exportDecl

theorem item : Reads (n + 1) (.without prolonging) (item k) Rule.item.language := by
  rw [item_eq]
  refine ⟨.look fun o => .lookFurther fun next => ?sound, .rule ⟨?_, ?_, ?_⟩⟩
  case sound =>
    refine .ite (fun _ => ?_) fun _ => .ite (fun _ => ?_) fun _ => ?_
    · exact (exportDeclaration h).sound.rule (q := exportDecl) (by simp)
    · exact (Sound.of_reads importDeclaration).rule (q := importDecl) (by simp)
    · exact (statement h).sound.rule (q := stmt) (by simp)
  · refine .lookOpens (.of_begins begins_stmt) fun t next ht => ?_
    simp only [opening, Bool.and_true, Bool.or_true, Bool.and_eq_true, Bool.or_eq_true,
      decide_eq_true_eq] at ht
    obtain ⟨hfirst, himport⟩ := ht
    rw [if_neg, if_neg]
    · exact (statement h).complete
    · rintro ⟨⟨⟩, hnext⟩
      rw [hnext] at himport
      exact himport.elim (· rfl) Bool.false_ne_true
    · rintro ⟨⟩
      cases hfirst
  · refine .lookBoth (P := fun o next => o = some (.word .kwImport) ∧
      importsInExpression next = false) (.of_begins begins_importDecl) fun o next ho => ?_
    rw [if_neg (by simp [ho.1]), if_pos ho]
    exact importDeclaration.complete
  · exact .lookFirst (.word .kwExport) begins_exportDecl fun next =>
      ((exportDeclaration h).anywhere le_rfl).complete

/-- The items of a module, which nothing follows. -/
theorem moduleItems : Reads (n + 1) (fun v => v = []) (moduleItems k) Rule.start.language := by
  refine of_eq (.left fun m => manyUntil ((item h).mono (Nat.min_le_left _ _)) ?_ ?_
    starts_item.one_le_length (Nat.min_le_right _ _)) ?_
  · refine starts_item.mono fun v hv => ⟨hv.without (by decide), ?_⟩
    obtain ⟨t, u, rfl, _⟩ := hv
    rfl
  · rintro _ rfl
    exact ⟨nofun, rfl⟩
  · simp [language_only (r := start) rfl]

end Parser.Reads

end ModuleLowering
