import ModuleLowering.Text.Quoted
import ModuleLowering.Token.Lexeme
import ModuleLowering.Token.Terminal

/-!
# Terminators

From lexemes to tokens. Each lexeme becomes one token; which one depends on the brackets that are
open around it and on the tokens before it. Where a line break or a closing brace ends a statement,
a terminator is inserted. Brackets have to match.
-/

set_option autoImplicit false

namespace ModuleLowering

/-- What an open bracket encloses. -/
inductive Scope where
  /-- Statements. -/
  | block
  /-- The body of a function inside an expression. -/
  | expressionBlock
  /-- The members of a declared class. -/
  | classBody
  /-- The members of a class inside an expression. -/
  | classExpressionBody
  /-- The properties of an object, or specifiers. -/
  | object
  | parenthesis
  | bracket
  /-- The head of a statement. -/
  | head
  /-- The condition after the body of a `do`. -/
  | doHead
deriving DecidableEq, Inhabited

namespace Scope

def name : Scope → String
  | block => "block"
  | expressionBlock => "expr_block"
  | classBody => "class"
  | classExpressionBody => "class_expr"
  | object => "object"
  | parenthesis => "paren"
  | bracket => "bracket"
  | head => "head"
  | doHead => "do_head"

/-- Whether terminators separate what the scope holds. -/
def holdsStatements (s : Scope) : Bool :=
  [block, expressionBlock, classBody, classExpressionBody].contains s

/-- Whether the end of the scope may end an expression. -/
def endsExpression (s : Scope) : Bool := [object, expressionBlock, classExpressionBody].contains s

def closer : Scope → Punctuator
  | head | doHead | parenthesis => .rightParen
  | bracket => .rightBracket
  | _ => .rightBrace

end Scope

/-- Why the brackets of a module do not match. -/
inductive BracketFault where
  /-- A closing bracket that closes nothing, or not what is open. -/
  | unbalanced (closer : Punctuator)
  /-- A scope that is still open at the end. -/
  | unclosed (scope : Scope)
deriving DecidableEq

namespace BracketFault

def message : BracketFault → Text
  | unbalanced closer => "unbalanced " ++ closer.text.shown
  | unclosed scope => "unclosed " ++ (scope.name : Text) ++ " at end of input"

end BracketFault

/-- A bracket fault and its position. -/
structure BracketStop where
  fault : BracketFault
  position : Position
deriving DecidableEq

/-- Tokens, and the fault that ended them early, if one did. -/
structure TokenStream where
  tokens : List Token
  stop : Option BracketStop

namespace TokenStream

def precededBy (tokens : List Token) (s : TokenStream) : TokenStream :=
  ⟨tokens ++ s.tokens, s.stop⟩

end TokenStream

/-- What the tokens read so far leave to know for the next one. -/
structure Terminators where
  /-- The open scopes, innermost first. -/
  scopes : List Scope := []
  /-- Scopes that `function` and `class` announced, each for the depth it is due at. -/
  announced : List (Nat × Scope) := []
  previous : Option Terminal := none
  beforePrevious : Option Terminal := none
  /-- The scope that the previous token opened or closed. -/
  previousScope : Option Scope := none
  /-- Whether the last `async` stood at the start of a statement. -/
  asyncAtStart : Bool := false
  /-- Whether the colon of a `case` or `default` label is due. -/
  labelOpen : Bool := false
  /-- Whether the previous token is the colon of such a label. -/
  afterLabel : Bool := false
  /-- The depths of the `do` statements that wait for their `while`. -/
  dos : List Nat := []
  /-- Whether the next parenthesis holds the condition of a `do`. -/
  doConditionDue : Bool := false

namespace Terminators

open Terminal (word punctuator)

/-! ## Where statements end -/

/-- Whether terminators separate what is being read. -/
def inStatements (s : Terminators) : Bool :=
  match s.scopes with
  | [] => true
  | scope :: _ => scope.holdsStatements

/-- Tokens that a statement may end with. -/
def endsStatement : Terminal → Bool
  | .name | .number | .string | .template | .regex => true
  | word w =>
    w.isContextual ||
      [Word.kwThis, .kwSuper, .kwNull, .kwTrue, .kwFalse, .kwReturn, .kwBreak, .kwContinue].contains w
  | punctuator p => [Punctuator.increment, .decrement, .rightBracket].contains p
  | _ => false

/-- Whether a statement may end after the previous token. -/
def mayEnd (s : Terminators) : Bool :=
  match s.previous with
  | none => false
  | some (punctuator .rightParen) => s.previousScope ≠ some .head
  | some (punctuator .rightBrace) => (s.previousScope.map Scope.endsExpression).getD false
  | some t => endsStatement t

/-- Punctuators that go on with an expression on the next line. -/
def continuesLine (p : Punctuator) : Bool :=
  [Punctuator.dot, .optionalChain, .comma, .leftParen, .leftBracket, .rightParen, .rightBracket,
    .question, .colon, .arrow, .assign, .plusAssign, .minusAssign, .starAssign, .slashAssign,
    .percentAssign, .powerAssign, .shiftLeftAssign, .shiftRightAssign, .shiftRightZeroAssign,
    .andAssign, .orAssign, .xorAssign, .logicalAndAssign, .logicalOrAssign, .nullishAssign,
    .plus, .minus, .star, .slash, .percent, .power, .equal, .notEqual, .identical, .notIdentical,
    .less, .greater, .lessEqual, .greaterEqual, .shiftLeft, .shiftRight, .shiftRightZero,
    .ampersand, .bar, .caret, .logicalAnd, .logicalOr, .nullish].contains p

/-- Whether a lexeme on a new line starts a new statement, one being able to end. -/
def startsStatement (s : Terminators) (l : Lexeme) : Bool :=
  match l.kind with
  | .punctuator p =>
    if p = .leftBrace && s.previous = some (punctuator .rightParen) then false
    else !continuesLine p
  | .template => false
  | .name => l.text ≠ Word.kwIn.text && l.text ≠ Word.kwInstanceof.text
  | _ => true

/-- Whether a terminator goes before a lexeme: before a closing brace where a statement may end,
after the condition of a `do`, after `return`, `break` and `continue` on a new line, and where the
lexeme starts a statement on a new line. -/
def needsTerminator (s : Terminators) (l : Lexeme) : Bool :=
  if !s.inStatements || s.previous.isNone then false
  else if l.kind = .punctuator .rightBrace then s.mayEnd
  else if s.previous = some (punctuator .rightParen) && s.previousScope = some .doHead then
    l.kind ≠ .punctuator .semicolon
  else if !l.lineBreakBefore then false
  else if [some (word .kwReturn), some (word .kwBreak), some (word .kwContinue)].contains
      s.previous then true
  else s.mayEnd && s.startsStatement l

/-! ## What a lexeme is -/

/-- Whether the previous token is one after which a block follows. -/
def afterBlockOpener (s : Terminators) : Bool :=
  match s.previous with
  | none => true
  | some .terminator => true
  | some (word w) => [Word.kwElse, .kwTry, .kwCatch, .kwFinally, .kwDo].contains w
  | _ => false

/-- Whether the previous token is a closing brace that ends no expression. -/
def afterBlock (s : Terminators) : Bool :=
  s.previous = some (punctuator .rightBrace) &&
    !(s.previousScope.map Scope.endsExpression).getD false

def atStatementStart (s : Terminators) : Bool :=
  s.afterBlockOpener || s.afterLabel || s.previous = some (punctuator .leftBrace) || s.afterBlock ||
    s.previous = some (word .kwExport) ||
    (s.previous = some (word .kwDefault) && s.beforePrevious = some (word .kwExport))

/-- Whether the previous token may come directly before the name of a property. -/
def afterPropertyOpener (s : Terminators) : Bool :=
  [some .objectBrace, some (punctuator .comma), some (word .kwGet), some (word .kwSet),
    some (word .kwAsync), some (punctuator .star)].contains s.previous

/-- Whether the previous token may come directly before the name of a class member. -/
def afterMemberOpener (s : Terminators) : Bool :=
  [some (punctuator .leftBrace), some (punctuator .rightBrace), some .terminator,
    some (word .kwStatic), some (word .kwGet), some (word .kwSet), some (word .kwAsync),
    some (punctuator .star)].contains s.previous

/-- The word of the grammar that a name is, or nothing where it is only a name: after a dot, and
as the name of a property or of a class member. -/
def wordOf (s : Terminators) (text : Text) (next : Option Lexeme) : Option Word := do
  let w ← Word.ofText? text
  if s.previous = some (punctuator .dot) || s.previous = some (punctuator .optionalChain) then none
  else
    let follow := next.bind Lexeme.punctuator?
    let property := s.scopes.head? = some .object && s.afterPropertyOpener &&
      [some Punctuator.colon, some .leftParen, some .comma, some .rightBrace].contains follow
    let member :=
      (s.scopes.head? = some .classBody || s.scopes.head? = some .classExpressionBody) &&
        s.afterMemberOpener &&
        ((next.map Lexeme.lineBreakBefore).getD true ||
          [some Punctuator.leftParen, some .assign, some .semicolon, some .rightBrace].contains
            follow)
    if property || member then none else some w

/-- The scope of an opening brace that nothing has announced. -/
def unannouncedScope (s : Terminators) : Scope :=
  if s.previous = some (punctuator .arrow) then .expressionBlock
  else if s.afterBlockOpener || s.previous = some (punctuator .leftBrace) ||
      s.previous = some (punctuator .rightParen) || s.afterLabel || s.afterBlock then .block
  else .object

/-- The scope of an opening brace, and the announced scopes that are left. -/
def braceScope (s : Terminators) : Scope × List (Nat × Scope) :=
  match s.announced with
  | (depth, scope) :: rest =>
    if depth = s.scopes.length then (scope, rest) else (s.unannouncedScope, s.announced)
  | [] => (s.unannouncedScope, s.announced)

/-- Whether the previous token makes a parenthesis the head of a statement. -/
def afterHeadWord (s : Terminators) : Bool :=
  [some (word .kwIf), some (word .kwFor), some (word .kwWhile), some (word .kwSwitch),
    some (word .kwCatch)].contains s.previous ||
    (s.previous = some (word .kwAwait) && s.beforePrevious = some (word .kwFor))

/-- The state after a token. -/
def remember (s : Terminators) (t : Terminal) (scope : Option Scope) : Terminators :=
  { s with
    beforePrevious := s.previous
    previous := some t
    previousScope := scope
    afterLabel := false }

def tokenOf (t : Terminal) (l : Lexeme) : Token :=
  ⟨t, l.text, l.offset, l.start, l.endOffset, l.finish, false⟩

/-- A word of the grammar: its terminal, and the state after it. -/
def readWord (s : Terminators) (w : Word) : Terminal × Terminators :=
  match w with
  | .kwAsync => (word w, { s with asyncAtStart := s.atStatementStart }.remember (word w) none)
  | .kwFunction | .kwClass =>
    let declares :=
      if s.previous = some (word .kwAsync) then s.asyncAtStart else s.atStatementStart
    let (declared, scope) : Terminal × Scope :=
      if w = .kwFunction then (.functionDeclaration, if declares then .block else .expressionBlock)
      else (.classDeclaration, if declares then .classBody else .classExpressionBody)
    let s := { s with announced := (s.scopes.length, scope) :: s.announced }
    (if declares then declared else word w, s.remember (word w) none)
  | .kwCase | .kwDefault =>
    let labels := s.inStatements && s.previous ≠ some (word .kwExport)
    (word w, { s with labelOpen := s.labelOpen || labels }.remember (word w) none)
  | .kwDo => (word w, { s with dos := s.scopes.length :: s.dos }.remember (word w) none)
  | .kwWhile =>
    let closesDo := s.dos.head? = some s.scopes.length &&
      (s.previous = some (punctuator .rightBrace) || s.previous = some .terminator)
    let s := if closesDo then { s with dos := s.dos.tail, doConditionDue := true } else s
    (word w, s.remember (word w) none)
  | _ => (word w, s.remember (word w) none)

def closeScope (s : Terminators) (p : Punctuator) : Except BracketFault (Terminal × Terminators) :=
  match s.scopes with
  | [] => .error (.unbalanced p)
  | scope :: outer =>
    if scope.closer = p then
      .ok (punctuator p, { s with scopes := outer }.remember (punctuator p) (some scope))
    else .error (.unbalanced p)

/-- A punctuator: its terminal, and the state after it. -/
def readPunctuator (s : Terminators) (p : Punctuator) :
    Except BracketFault (Terminal × Terminators) :=
  match p with
  | .leftBrace =>
    let (scope, announced) := s.braceScope
    let t : Terminal := if scope = .object then .objectBrace else punctuator p
    let s := { s with scopes := scope :: s.scopes, announced := announced }
    .ok (t, s.remember t (some scope))
  | .leftParen =>
    let scope : Scope :=
      if s.afterHeadWord then if s.doConditionDue then .doHead else .head else .parenthesis
    let s := { s with scopes := scope :: s.scopes, doConditionDue := false }
    .ok (punctuator p, s.remember (punctuator p) none)
  | .leftBracket =>
    .ok (punctuator p, { s with scopes := .bracket :: s.scopes }.remember (punctuator p) none)
  | .rightBrace | .rightParen | .rightBracket => s.closeScope p
  | .semicolon =>
    if s.inStatements then .ok (.terminator, s.remember .terminator none)
    else .ok (punctuator p, s.remember (punctuator p) none)
  | .colon =>
    if s.labelOpen then
      let s := { s with labelOpen := false }.remember (punctuator p) none
      .ok (punctuator p, { s with afterLabel := true })
    else .ok (punctuator p, s.remember (punctuator p) none)
  | _ => .ok (punctuator p, s.remember (punctuator p) none)

/-- The terminal of a lexeme that `next` follows, and the state after it. -/
def read (s : Terminators) (l : Lexeme) (next : Option Lexeme) :
    Except BracketFault (Terminal × Terminators) :=
  match l.kind with
  | .number => .ok (.number, s.remember .number none)
  | .string => .ok (.string, s.remember .string none)
  | .template => .ok (.template, s.remember .template none)
  | .regex => .ok (.regex, s.remember .regex none)
  | .name =>
    match s.wordOf l.text next with
    | none => .ok (.name, s.remember .name none)
    | some w => .ok (s.readWord w)
  | .punctuator p => s.readPunctuator p

/-! ## The whole stream -/

def insertedBefore (l : Lexeme) : Token :=
  ⟨.terminator, ";", l.offset, l.start, l.endOffset, l.finish, true⟩

/-- The terminator inserted after the last lexeme. -/
def insertedAfter (l : Lexeme) : Token :=
  ⟨.terminator, [], l.endOffset, l.finish, l.endOffset, l.finish, true⟩

/-- The end of the stream, `last` being the last lexeme. -/
def finish (s : Terminators) (last : Option Lexeme) : TokenStream :=
  match last with
  | none => ⟨[], none⟩
  | some l =>
    match s.scopes with
    | scope :: _ => ⟨[], some ⟨.unclosed scope, l.finish⟩⟩
    | [] => if s.mayEnd then ⟨[insertedAfter l], none⟩ else ⟨[], none⟩

/-- The tokens of the lexemes that are left, `last` being the one before them. -/
def tokens (s : Terminators) (last : Option Lexeme) : List Lexeme → TokenStream
  | [] => s.finish last
  | l :: rest =>
    let needed := s.needsTerminator l
    let inserted := if needed then [insertedBefore l] else []
    let s := if needed then s.remember .terminator none else s
    match s.read l rest.head? with
    | .error fault => ⟨inserted, some ⟨fault, l.start⟩⟩
    | .ok (t, next) => (next.tokens (some l) rest).precededBy (inserted ++ [tokenOf t l])

end Terminators

/-- The tokens of a module's lexemes. -/
def TokenStream.ofLexemes (lexemes : List Lexeme) : TokenStream :=
  ({} : Terminators).tokens none lexemes

end ModuleLowering
