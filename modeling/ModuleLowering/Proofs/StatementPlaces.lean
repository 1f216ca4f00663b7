import ModuleLowering.Proofs.Following
import ModuleLowering.Proofs.Items
import ModuleLowering.Proofs.WellFormed

/-!
# Where statements are

What stands at the top of a module, an import, an export or a statement, is placed at its first
token. That is followed along the rules of the grammar by what a parser answers on a list of tokens.
-/

set_option autoImplicit false

namespace ModuleLowering

open Shaped (Builds)

/-- What is built behind another part does not depend on the part. -/
theorem Shaped.Builds.behind {α β : Type} {s : Shaped α} {f : α → Shaped β} {Q : β → Prop}
    (hf : ∀ a, Builds (f a) Q) : Builds (s >>= f) Q :=
  bind (P := fun _ => True) (fun _ _ => trivial) fun a _ => hf a

namespace Parser

/-! ## First tokens -/

/-- Whatever a parser builds of a list of tokens passes the test. -/
def Answers (ts : List Token) (p : Parser (Shaped Node)) (P : Node → Prop) : Prop :=
  ∀ x rest, p.run ts = .ok (x, rest) → Builds x P

/-- A node that is no import or export, at the place of the first token. -/
structure IsStatementAt (ts : List Token) (n : Node) : Prop where
  loc : n.loc = ts.head?.map Token.start
  plain : n.isModuleForm = false

namespace Answers

variable {α : Type} {ts us : List Token} {p q : Parser (Shaped Node)} {first : Parser α}
  {f : α → Parser (Shaped Node)} {P : Node → Prop}

theorem pure {x : Shaped Node} (h : Builds x P) : Answers ts (Pure.pure x) P := by
  intro y rest hrun
  obtain ⟨rfl, -⟩ := run_pure_ok.1 hrun
  exact h

theorem bind (hf : ∀ a us, Answers us (f a) P) : Answers ts (first >>= f) P := by
  intro x rest hrun
  obtain ⟨a, mid, -, ha⟩ := run_bind_ok.1 hrun
  exact hf a mid x rest ha

theorem ite {c : Prop} [Decidable c] (h : c → Answers ts p P) (h' : ¬c → Answers ts q P) :
    Answers ts (if c then p else q) P := by
  split
  · exact h ‹_›
  · exact h' ‹_›

theorem place {f : Option Position → Parser (Shaped Node)}
    (h : Answers ts (f (ts.head?.map Token.start)) P) : Answers ts (place >>= f) P := h

theorem look {f : Option Terminal → Parser (Shaped Node)} (h : ∀ t, Answers ts (f t) P) :
    Answers ts (look >>= f) P := h _

theorem lookFurther {f : Option Terminal → Parser (Shaped Node)} (h : ∀ t, Answers ts (f t) P) :
    Answers ts (lookFurther >>= f) P := h _

/-- What is built behind a token of a list that starts with it. -/
theorem takeIf {test : Terminal → Bool} {f : Token → Parser (Shaped Node)}
    (h : ∀ t us, ts = t :: us → Answers us (f t) P) : Answers ts (takeIf test >>= f) P := by
  intro x rest hrun
  obtain ⟨t, mid, ht, hx⟩ := run_bind_ok.1 hrun
  obtain ⟨hts, -⟩ := run_takeIf_ok.1 ht
  exact h t mid hts x rest hx

/-- What is built behind one of two parts. -/
theorem bindIte {c : Prop} [Decidable c] {second : Parser α}
    (hf : ∀ a us, Answers us (f a) P) : Answers ts (if c then first >>= f else second >>= f) P :=
  ite (fun _ => bind hf) fun _ => bind hf

/-- What is built before something else is read. -/
theorem kept {second : Parser α} (h : Answers ts p P) :
    Answers ts (p >>= fun x => second >>= fun _ => Pure.pure x) P := by
  intro x rest hrun
  obtain ⟨y, mid, hy, hx⟩ := run_bind_ok.1 hrun
  obtain ⟨_, us, -, hpure⟩ := run_bind_ok.1 hx
  obtain ⟨rfl, -⟩ := run_pure_ok.1 hpure
  exact h y mid hy

theorem mono {Q : Node → Prop} (h : Answers ts p P) (hPQ : ∀ n, P n → Q n) : Answers ts p Q :=
  fun x rest hrun => (h x rest hrun).mono hPQ

/-! ### Statements -/

variable {k : Deeper}

theorem functionDeclaration (nameless : Bool)
    (h : ∀ id params body isAsync generator, P (.mk (ts.head?.map Token.start)
      (.functionDeclaration id params body isAsync generator))) :
    Answers ts (functionDeclaration k nameless) P := by
  refine place (bind fun _ _ => bind fun _ _ => bind fun _ _ => look fun _ => ?_)
  refine bindIte fun _ _ => bind fun _ _ => pure ?_
  exact .behind fun _ => .pure (h _ _ _ _ _)

theorem classDeclaration (nameless : Bool)
    (h : ∀ id superclass body, P (.mk (ts.head?.map Token.start)
      (.classDeclaration id superclass body))) :
    Answers ts (classDeclaration k nameless) P := by
  refine place (bind fun _ _ => look fun _ => bindIte fun _ _ => bind fun _ _ => pure ?_)
  exact .behind fun _ => .pure (h _ _ _)

theorem block : Answers ts (block k) (IsStatementAt ts) := by
  refine place (bind fun _ _ => bind fun _ _ => pure ?_)
  exact .behind fun _ => .pure ⟨rfl, rfl⟩

theorem declaredVariables : Answers ts (declaredVariables k) (IsStatementAt ts) := by
  refine takeIf fun kind us hts => bind fun declarators _ => pure (.behind fun _ => .pure ⟨?_, rfl⟩)
  rw [hts]
  rfl

theorem ifStatement : Answers ts (ifStatement k) (IsStatementAt ts) := by
  refine place (bind fun _ _ => bind fun _ _ => bind fun _ _ => bind fun _ _ => ?_)
  refine bindIte fun _ _ => pure ?_
  exact .behind fun _ => .behind fun _ => .behind fun _ => .pure ⟨rfl, rfl⟩

theorem whileStatement : Answers ts (whileStatement k) (IsStatementAt ts) := by
  refine place (bind fun _ _ => bind fun _ _ => bind fun _ _ => pure ?_)
  exact .behind fun _ => .behind fun _ => .pure ⟨rfl, rfl⟩

theorem doStatement : Answers ts (doStatement k) (IsStatementAt ts) := by
  refine place (bind fun _ _ => bind fun _ _ => bind fun _ _ => bind fun _ _ => bind fun _ _ => ?_)
  exact pure (.behind fun _ => .behind fun _ => .pure ⟨rfl, rfl⟩)

section

variable {P : Node → Prop} {s : Option Position} (h : ∀ form : Form Node,
  (Node.mk s form).isModuleForm = false → P (.mk s form))
include h

theorem forRest (init : Option (Shaped Node)) : Answers us (forRest k s init) P := by
  refine bind fun _ _ => bind fun _ _ => bind fun _ _ => bind fun _ _ => bind fun _ _ => ?_
  refine bind fun _ _ => pure ?_
  exact .behind fun _ => .behind fun _ => .behind fun _ => .behind fun _ => .pure (h _ rfl)

theorem forInRest (declared : Shaped Node) : Answers us (forInRest k s declared) P := by
  refine bind fun _ _ => bind fun _ _ => bind fun _ _ => bind fun _ _ => pure ?_
  exact .behind fun _ => .behind fun _ => .behind fun _ => .pure (h _ rfl)

theorem forOfRest (isAwait : Bool) (declared : Shaped Node) :
    Answers us (forOfRest k s isAwait declared) P := by
  refine bind fun _ _ => bind fun _ _ => bind fun _ _ => bind fun _ _ => pure ?_
  exact .behind fun _ => .behind fun _ => .behind fun _ => .pure (h _ rfl)

theorem forDeclaring (isAwait : Bool) : Answers us (forDeclaring k s isAwait) P := by
  refine bind fun _ _ => bind fun _ _ => bind fun _ _ => ite (fun _ => ?_) fun _ => look fun _ => ?_
  · exact forOfRest h true _
  split
  · exact forInRest h _
  · exact forOfRest h false _
  · exact bind fun _ _ => bind fun _ _ => bind fun _ _ => forRest h _

end

theorem forStatement : Answers ts (forStatement k) (IsStatementAt ts) := by
  refine place (bind fun _ _ => bind fun _ _ => bind fun _ _ => look fun _ => ite (fun _ => ?_) ?_)
  · exact forDeclaring (fun _ h => ⟨rfl, h⟩) _
  · exact fun _ => bind fun _ _ => forRest (fun _ h => ⟨rfl, h⟩) _

theorem returnStatement : Answers ts (returnStatement k) (IsStatementAt ts) := by
  refine place (bind fun _ _ => bind fun _ _ => ite (fun _ => pure (.pure ⟨rfl, rfl⟩)) fun _ => ?_)
  refine bind fun _ _ => bind fun _ _ => pure ?_
  exact .behind fun _ => .pure ⟨rfl, rfl⟩

theorem throwStatement : Answers ts (throwStatement k) (IsStatementAt ts) := by
  refine place (bind fun _ _ => bind fun _ _ => bind fun _ _ => pure ?_)
  exact .behind fun _ => .pure ⟨rfl, rfl⟩

theorem wordStatement (w : Word) {form : Form Node}
    (h : ∀ loc, (Node.mk loc form).isModuleForm = false) :
    Answers ts (wordStatement w form) (IsStatementAt ts) :=
  place (bind fun _ _ => bind fun _ _ => pure (.pure ⟨rfl, h _⟩))

theorem tryStatement : Answers ts (tryStatement k) (IsStatementAt ts) := by
  refine place (bind fun _ _ => bind fun _ _ => look fun _ => bindIte fun _ _ => bind fun _ _ => ?_)
  refine bindIte fun _ _ => pure ?_
  refine .ite (fun _ => ?_) fun _ => ?_
  · exact .behind fun _ => .behind fun _ => .behind fun _ => .behind fun _ => .pure ⟨rfl, rfl⟩
  · exact .behind fun _ => .behind fun _ => .behind fun _ => .pure ⟨rfl, rfl⟩

theorem switchStatement : Answers ts (switchStatement k) (IsStatementAt ts) := by
  refine place (bind fun _ _ => bind fun _ _ => bind fun _ _ => bind fun _ _ => pure ?_)
  exact .behind fun _ => .behind fun _ => .pure ⟨rfl, rfl⟩

theorem expressionStatement : Answers ts (expressionStatement k) (IsStatementAt ts) := by
  refine place (bind fun _ _ => bind fun _ _ => pure ?_)
  exact .behind fun _ => .pure ⟨rfl, rfl⟩

/-- A statement is placed at its first token. -/
theorem statement : Answers ts (statement k) (IsStatementAt ts) := by
  refine place (look fun t => lookFurther fun u => ite (fun _ => ?_) fun _ => ?_)
  · exact functionDeclaration false fun _ _ _ _ _ => ⟨rfl, rfl⟩
  split
  · exact classDeclaration false fun _ _ _ => ⟨rfl, rfl⟩
  · exact bind fun _ _ => pure (.pure ⟨rfl, rfl⟩)
  · exact block
  · exact declaredVariables.kept
  · exact declaredVariables.kept
  · exact declaredVariables.kept
  · exact ifStatement
  · exact forStatement
  · exact whileStatement
  · exact doStatement
  · exact returnStatement
  · exact throwStatement
  · exact wordStatement .kwBreak fun _ => rfl
  · exact wordStatement .kwContinue fun _ => rfl
  · exact tryStatement
  · exact switchStatement
  · exact expressionStatement

/-! ### Imports and exports -/

theorem importDeclaration :
    Answers ts importDeclaration fun n => n.loc = ts.head?.map Token.start := by
  refine place (bind fun _ _ => look fun _ => ite (fun _ => ?_) fun _ => ?_)
  · refine bind fun _ _ => bind fun _ _ => pure ?_
    exact .behind fun _ => .pure rfl
  · refine bind fun _ _ => bind fun _ _ => bind fun _ _ => bind fun _ _ => pure ?_
    exact .behind fun _ => .behind fun _ => .pure rfl

theorem namedExports (s : Option Position) : Answers us (namedExports s) fun n => n.loc = s := by
  refine bind fun _ _ => bind fun _ _ => bind fun _ _ => bindIte fun _ _ => bind fun _ _ => pure ?_
  exact .behind fun _ => .behind fun _ => .pure rfl

theorem wholeExport (s : Option Position) : Answers us (wholeExport s) fun n => n.loc = s := by
  refine bind fun _ _ => bind fun _ _ => bindIte fun _ _ => ?_
  refine bind fun _ _ => bind fun _ _ => bind fun _ _ => pure ?_
  exact .behind fun _ => .behind fun _ => .pure rfl

theorem defaultExport (s : Option Position) :
    Answers us (defaultExport k s) fun n => n.loc = s := by
  refine bind fun _ _ => look fun _ => lookFurther fun _ => ?_
  have hrest : ∀ x vs, Answers vs (Pure.pure (x >>= fun declaration => Pure.pure
      (Node.mk s (.exportDefaultDeclaration (some declaration))))) fun n => n.loc = s := fun _ _ =>
    pure (.behind fun _ => .pure rfl)
  refine ite (fun _ => bind hrest) fun _ => ite (fun _ => bind hrest) fun _ => ?_
  exact bind fun _ _ => bind fun _ _ => bind hrest

theorem exportedDeclaration (s : Option Position) :
    Answers us (exportedDeclaration k s) fun n => n.loc = s := by
  have hrest : ∀ x vs, Answers vs (Pure.pure (x >>= fun declaration => Pure.pure
      (Node.mk s (.exportNamedDeclaration (some declaration) [] none)))) fun n => n.loc = s :=
    fun _ _ => pure (.behind fun _ => .pure rfl)
  refine look fun _ => look fun _ => ite (fun _ => ?_) fun _ => ite (fun _ => ?_) fun _ => ?_
  · exact bind fun _ _ => bind fun _ _ => bind hrest
  · exact bind hrest
  · exact bind hrest

theorem exportDeclaration :
    Answers ts (exportDeclaration k) fun n => n.loc = ts.head?.map Token.start := by
  refine place (bind fun _ _ => look fun _ => ?_)
  split
  · exact defaultExport _
  · exact namedExports _
  · exact wholeExport _
  · exact exportedDeclaration _

/-- What stands at the top of a module is placed at its first token. -/
theorem item : Answers ts (item k) fun n => n.loc = ts.head?.map Token.start := by
  refine look fun t => ?_
  split
  · exact exportDeclaration
  · refine lookFurther fun _ => ite (fun _ => ?_) fun _ => importDeclaration
    exact statement.mono fun _ h => h.loc
  · exact statement.mono fun _ h => h.loc

end Answers

end Parser

end ModuleLowering
