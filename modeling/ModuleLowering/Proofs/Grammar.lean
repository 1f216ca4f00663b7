import Mathlib.Computability.Language
import ModuleLowering.Token.Terminal

/-!
# The grammar of modules

The rules of the grammar as they are written down: a rule has alternatives, an alternative is a
sequence of terminals, rules, optional parts and repeated parts. Every alternative that has a name of
its own is a rule of that name. What a rule derives is a language, and the languages of the rules
satisfy the equations that the rules spell.
-/

set_option autoImplicit false

namespace ModuleLowering

/-- The rules. -/
inductive Rule where
  | start | item
  | importDecl | importBare | importClause | namespaceImport | namedImports | importSpec
  | exportDecl | exportDefault | exportDeclaration | exportNamed | exportFrom | exportAll
  | exportAllAs | defaultBody | namedExports | exportSpec | exportName
  | stmt | varStmt | exprStmt | emptyStmt | ifStmt | forStmt | forInStmt | forOfStmt | whileStmt
  | doWhileStmt | returnStmt | throwStmt | breakStmt | continueStmt | tryStmt | switchStmt
  | block | varDecl | varKind | varDeclarator | binding | forInit | forTest | forUpdate
  | catchClause | finallyClause | switchCase | caseClause | defaultClause
  | functionDecl | anonFunctionDecl | classDecl | anonClassDecl | classHeritage
  | params | param | restParam | classBody | classMember | field | method | getter | setter
  | asyncMark | starMark | staticMark | getMark | setMark | awaitMark
  | expression | assign | assignment | assignOp | arrow | asyncArrow | arrowParams | arrowBody
  | yieldExpr | yieldDelegate | conditional
  | logicalOr | logicalOrOp | logicalAnd | logicalAndOp | bitOr | bitOrOp | bitXor | bitXorOp
  | bitAnd | bitAndOp | equality | equalityOp | relational | relationalOp | shift | shiftOp
  | additive | additiveOp | multiplicative | multiplicativeOp | exponent | exponentOp
  | unary | unaryOp | update | updateOp
  | lhsExpr | newExpr | memberExpr | callExpr | importCall | arguments | argument
  | primary | importMeta | newTarget | parenthesized
  | arrayLit | elementList | arrayElement | spread | elision | objectLit | objectProp
  | propValue | propShorthand | propDefault | propSpread | propName | computedKey
  | functionExpr | classExpr | ident | propIdent | string | template
deriving DecidableEq

/-- What an alternative is made of. -/
inductive Phrase where
  | one (t : Terminal)
  | rule (r : Rule)
  | seq (ps : List Phrase)
  | choice (ps : List Phrase)
  | many (p : Phrase)

namespace Phrase

instance : Coe Terminal Phrase := ⟨one⟩

instance : Coe Word Phrase := ⟨fun w => one (.word w)⟩

instance : Coe Punctuator Phrase := ⟨fun p => one (.punctuator p)⟩

instance : Coe Rule Phrase := ⟨rule⟩

/-- A part that may be left out. -/
def optional (ps : List Phrase) : Phrase := choice [seq ps, seq []]

/-- One or more phrases between commas. -/
def commaParts (p : Phrase) : Phrase := seq [p, many (seq [Punctuator.comma, p])]

/-- Phrases between commas, perhaps none; a comma may come behind the last one. -/
def commaList (p : Phrase) : Phrase := optional [commaParts p, optional [Punctuator.comma]]

end Phrase

namespace Rule

open Phrase

/-- The alternatives of each rule. -/
@[simp] def alternatives : Rule → List Phrase
  | start => [many item]
  | item => [stmt, importDecl, exportDecl]
  -- Modules.
  | importDecl => [seq [Word.kwImport, importClause, Word.kwFrom, string, Terminal.terminator],
      importBare]
  | importBare => [seq [Word.kwImport, string, Terminal.terminator]]
  | importClause => [ident, seq [ident, Punctuator.comma, namespaceImport],
      seq [ident, Punctuator.comma, namedImports], namespaceImport, namedImports]
  | namespaceImport => [seq [Punctuator.star, Word.kwAs, ident]]
  | namedImports => [seq [Terminal.objectBrace, commaList importSpec, Punctuator.rightBrace]]
  | importSpec => [seq [exportName, optional [Word.kwAs, ident]]]
  | exportDecl => [exportDefault, exportDeclaration, exportNamed, exportFrom, exportAll,
      exportAllAs]
  | exportDefault => [seq [Word.kwExport, Word.kwDefault, defaultBody]]
  | exportDeclaration => [seq [Word.kwExport, varDecl, Terminal.terminator],
      seq [Word.kwExport, functionDecl], seq [Word.kwExport, classDecl]]
  | exportNamed => [seq [Word.kwExport, namedExports, Terminal.terminator]]
  | exportFrom => [seq [Word.kwExport, namedExports, Word.kwFrom, string, Terminal.terminator]]
  | exportAll => [seq [Word.kwExport, Punctuator.star, Word.kwFrom, string, Terminal.terminator]]
  | exportAllAs => [seq [Word.kwExport, Punctuator.star, Word.kwAs, exportName, Word.kwFrom, string,
      Terminal.terminator]]
  | defaultBody => [functionDecl, anonFunctionDecl, classDecl, anonClassDecl,
      seq [assign, Terminal.terminator]]
  | namedExports => [seq [Terminal.objectBrace, commaList exportSpec, Punctuator.rightBrace]]
  | exportSpec => [seq [exportName, optional [Word.kwAs, exportName]]]
  | exportName => [ident, string, Word.kwDefault]
  -- Statements.
  | stmt => [block, varStmt, functionDecl, classDecl, exprStmt, emptyStmt, ifStmt, forStmt,
      forInStmt, forOfStmt, whileStmt, doWhileStmt, returnStmt, throwStmt, breakStmt, continueStmt,
      tryStmt, switchStmt]
  | varStmt => [seq [varDecl, Terminal.terminator]]
  | exprStmt => [seq [expression, Terminal.terminator]]
  | emptyStmt => [Terminal.terminator]
  | ifStmt => [seq [Word.kwIf, Punctuator.leftParen, expression, Punctuator.rightParen, stmt,
      optional [Word.kwElse, stmt]]]
  | forStmt => [seq [Word.kwFor, Punctuator.leftParen, optional [forInit], Punctuator.semicolon,
      optional [forTest], Punctuator.semicolon, optional [forUpdate], Punctuator.rightParen, stmt]]
  | forInStmt => [seq [Word.kwFor, Punctuator.leftParen, varKind, binding, Word.kwIn, expression,
      Punctuator.rightParen, stmt]]
  | forOfStmt => [seq [Word.kwFor, optional [awaitMark], Punctuator.leftParen, varKind, binding,
      Word.kwOf, assign, Punctuator.rightParen, stmt]]
  | whileStmt => [seq [Word.kwWhile, Punctuator.leftParen, expression, Punctuator.rightParen, stmt]]
  | doWhileStmt => [seq [Word.kwDo, stmt, Word.kwWhile, Punctuator.leftParen, expression,
      Punctuator.rightParen, Terminal.terminator]]
  | returnStmt => [seq [Word.kwReturn, optional [expression], Terminal.terminator]]
  | throwStmt => [seq [Word.kwThrow, expression, Terminal.terminator]]
  | breakStmt => [seq [Word.kwBreak, Terminal.terminator]]
  | continueStmt => [seq [Word.kwContinue, Terminal.terminator]]
  | tryStmt => [seq [Word.kwTry, block, optional [catchClause], optional [finallyClause]]]
  | switchStmt => [seq [Word.kwSwitch, Punctuator.leftParen, expression, Punctuator.rightParen,
      Punctuator.leftBrace, many switchCase, Punctuator.rightBrace]]
  | block => [seq [Punctuator.leftBrace, many stmt, Punctuator.rightBrace]]
  | varDecl => [seq [varKind, commaParts varDeclarator]]
  | varKind => [Word.kwVar, Word.kwLet, Word.kwConst]
  | varDeclarator => [seq [binding, optional [Punctuator.assign, assign]]]
  | binding => [ident, arrayLit, objectLit]
  | forInit => [varDecl, expression]
  | forTest => [expression]
  | forUpdate => [expression]
  | catchClause => [seq [Word.kwCatch,
      optional [Punctuator.leftParen, binding, Punctuator.rightParen], block]]
  | finallyClause => [seq [Word.kwFinally, block]]
  | switchCase => [caseClause, defaultClause]
  | caseClause => [seq [Word.kwCase, expression, Punctuator.colon, many stmt]]
  | defaultClause => [seq [Word.kwDefault, Punctuator.colon, many stmt]]
  | functionDecl => [seq [optional [asyncMark], Terminal.functionDeclaration, optional [starMark],
      ident, params, block]]
  | anonFunctionDecl => [seq [optional [asyncMark], Terminal.functionDeclaration,
      optional [starMark], params, block]]
  | classDecl => [seq [Terminal.classDeclaration, ident, optional [classHeritage], classBody]]
  | anonClassDecl => [seq [Terminal.classDeclaration, optional [classHeritage], classBody]]
  | classHeritage => [seq [Word.kwExtends, lhsExpr]]
  | params => [seq [Punctuator.leftParen, commaList param, Punctuator.rightParen]]
  | param => [seq [binding, optional [Punctuator.assign, assign]], restParam]
  | restParam => [seq [Punctuator.ellipsis, binding]]
  | classBody => [seq [Punctuator.leftBrace, many classMember, Punctuator.rightBrace]]
  | classMember => [seq [optional [staticMark], method], field, Terminal.terminator]
  | field => [seq [optional [staticMark], propName, optional [Punctuator.assign, assign],
      Terminal.terminator]]
  | method => [seq [optional [asyncMark], optional [starMark], propName, params, block], getter,
      setter]
  | getter => [seq [getMark, propName, params, block]]
  | setter => [seq [setMark, propName, params, block]]
  | asyncMark => [Word.kwAsync]
  | starMark => [Punctuator.star]
  | staticMark => [Word.kwStatic]
  | getMark => [Word.kwGet]
  | setMark => [Word.kwSet]
  | awaitMark => [Word.kwAwait]
  -- Expressions.
  | expression => [assign, seq [expression, Punctuator.comma, assign]]
  | assign => [conditional, assignment, arrow, asyncArrow, yieldExpr, yieldDelegate]
  | assignment => [seq [conditional, assignOp, assign]]
  | assignOp => [Punctuator.assign, Punctuator.plusAssign, Punctuator.minusAssign,
      Punctuator.starAssign, Punctuator.slashAssign, Punctuator.percentAssign,
      Punctuator.powerAssign, Punctuator.shiftLeftAssign, Punctuator.shiftRightAssign,
      Punctuator.shiftRightZeroAssign, Punctuator.andAssign, Punctuator.orAssign,
      Punctuator.xorAssign, Punctuator.logicalAndAssign, Punctuator.logicalOrAssign,
      Punctuator.nullishAssign]
  | arrow => [seq [arrowParams, Punctuator.arrow, arrowBody]]
  | asyncArrow => [seq [asyncMark, arrowParams, Punctuator.arrow, arrowBody]]
  | arrowParams => [ident, parenthesized]
  | arrowBody => [block, assign]
  | yieldExpr => [seq [Word.kwYield, optional [assign]]]
  | yieldDelegate => [seq [Word.kwYield, Punctuator.star, assign]]
  | conditional => [logicalOr,
      seq [logicalOr, Punctuator.question, assign, Punctuator.colon, assign]]
  | logicalOr => [logicalAnd, seq [logicalOr, logicalOrOp, logicalAnd]]
  | logicalOrOp => [Punctuator.logicalOr, Punctuator.nullish]
  | logicalAnd => [bitOr, seq [logicalAnd, logicalAndOp, bitOr]]
  | logicalAndOp => [Punctuator.logicalAnd]
  | bitOr => [bitXor, seq [bitOr, bitOrOp, bitXor]]
  | bitOrOp => [Punctuator.bar]
  | bitXor => [bitAnd, seq [bitXor, bitXorOp, bitAnd]]
  | bitXorOp => [Punctuator.caret]
  | bitAnd => [equality, seq [bitAnd, bitAndOp, equality]]
  | bitAndOp => [Punctuator.ampersand]
  | equality => [relational, seq [equality, equalityOp, relational]]
  | equalityOp => [Punctuator.equal, Punctuator.notEqual, Punctuator.identical,
      Punctuator.notIdentical]
  | relational => [shift, seq [relational, relationalOp, shift]]
  | relationalOp => [Punctuator.less, Punctuator.greater, Punctuator.lessEqual,
      Punctuator.greaterEqual, Word.kwInstanceof, Word.kwIn]
  | shift => [additive, seq [shift, shiftOp, additive]]
  | shiftOp => [Punctuator.shiftLeft, Punctuator.shiftRight, Punctuator.shiftRightZero]
  | additive => [multiplicative, seq [additive, additiveOp, multiplicative]]
  | additiveOp => [Punctuator.plus, Punctuator.minus]
  | multiplicative => [exponent, seq [multiplicative, multiplicativeOp, exponent]]
  | multiplicativeOp => [Punctuator.star, Punctuator.slash, Punctuator.percent]
  | exponent => [unary, seq [update, exponentOp, exponent]]
  | exponentOp => [Punctuator.power]
  | unary => [update, seq [unaryOp, unary], seq [Word.kwAwait, unary]]
  | unaryOp => [Punctuator.bang, Punctuator.minus, Punctuator.plus, Punctuator.tilde,
      Word.kwTypeof, Word.kwVoid, Word.kwDelete]
  | update => [lhsExpr, seq [lhsExpr, updateOp], seq [updateOp, unary]]
  | updateOp => [Punctuator.increment, Punctuator.decrement]
  | lhsExpr => [newExpr, callExpr]
  | newExpr => [memberExpr, seq [Word.kwNew, newExpr]]
  | memberExpr => [primary, seq [memberExpr, Punctuator.dot, propIdent],
      seq [memberExpr, Punctuator.leftBracket, expression, Punctuator.rightBracket],
      seq [memberExpr, template], seq [Word.kwNew, memberExpr, arguments]]
  | callExpr => [seq [memberExpr, arguments], seq [callExpr, arguments],
      seq [callExpr, Punctuator.dot, propIdent],
      seq [callExpr, Punctuator.leftBracket, expression, Punctuator.rightBracket],
      seq [callExpr, template], seq [memberExpr, Punctuator.optionalChain, propIdent],
      seq [callExpr, Punctuator.optionalChain, propIdent],
      seq [memberExpr, Punctuator.optionalChain, Punctuator.leftBracket, expression,
        Punctuator.rightBracket],
      seq [callExpr, Punctuator.optionalChain, Punctuator.leftBracket, expression,
        Punctuator.rightBracket],
      seq [memberExpr, Punctuator.optionalChain, arguments],
      seq [callExpr, Punctuator.optionalChain, arguments], importCall]
  | importCall => [seq [Word.kwImport, Punctuator.leftParen, assign, Punctuator.rightParen]]
  | arguments => [seq [Punctuator.leftParen, commaList argument, Punctuator.rightParen]]
  | argument => [assign, spread]
  | primary => [ident, Terminal.number, string, template, Terminal.regex, Word.kwTrue,
      Word.kwFalse, Word.kwNull, Word.kwThis, Word.kwSuper, importMeta, newTarget, arrayLit,
      objectLit, functionExpr, classExpr, parenthesized]
  | importMeta => [seq [Word.kwImport, Punctuator.dot, propIdent]]
  | newTarget => [seq [Word.kwNew, Punctuator.dot, propIdent]]
  | parenthesized => [seq [Punctuator.leftParen, Punctuator.rightParen],
      seq [Punctuator.leftParen, expression, Punctuator.rightParen],
      seq [Punctuator.leftParen, Punctuator.ellipsis, binding, Punctuator.rightParen],
      seq [Punctuator.leftParen, expression, Punctuator.comma, Punctuator.ellipsis, binding,
        Punctuator.rightParen]]
  | arrayLit => [seq [Punctuator.leftBracket, Punctuator.rightBracket],
      seq [Punctuator.leftBracket, elision, Punctuator.rightBracket],
      seq [Punctuator.leftBracket, elementList, Punctuator.rightBracket],
      seq [Punctuator.leftBracket, elementList, Punctuator.comma, optional [elision],
        Punctuator.rightBracket]]
  | elementList => [seq [optional [elision], arrayElement],
      seq [elementList, Punctuator.comma, optional [elision], arrayElement]]
  | arrayElement => [assign, spread]
  | spread => [seq [Punctuator.ellipsis, assign]]
  | elision => [seq [Punctuator.comma, many Punctuator.comma]]
  | objectLit => [seq [Terminal.objectBrace, commaList objectProp, Punctuator.rightBrace]]
  | objectProp => [propValue, propShorthand, propDefault, propSpread, method]
  | propValue => [seq [propName, Punctuator.colon, assign]]
  | propShorthand => [ident]
  | propDefault => [seq [ident, Punctuator.assign, assign]]
  | propSpread => [seq [Punctuator.ellipsis, assign]]
  | propName => [ident, string, Terminal.number, computedKey]
  | computedKey => [seq [Punctuator.leftBracket, assign, Punctuator.rightBracket]]
  | functionExpr => [seq [optional [asyncMark], Word.kwFunction, optional [starMark],
      optional [ident], params, block]]
  | classExpr => [seq [Word.kwClass, optional [ident], optional [classHeritage], classBody]]
  | ident => [Terminal.name, Word.kwAs, Word.kwFrom, Word.kwOf, Word.kwGet, Word.kwSet,
      Word.kwStatic]
  | propIdent => [Terminal.name]
  | string => [Terminal.string]
  | template => [Terminal.template]

end Rule

/-- The terminals that a phrase derives. -/
inductive Derives : Phrase → List Terminal → Prop where
  | one (t : Terminal) : Derives (.one t) [t]
  | rule {r : Rule} {p : Phrase} {w : List Terminal} :
      p ∈ r.alternatives → Derives p w → Derives (.rule r) w
  | nil : Derives (.seq []) []
  | cons {p : Phrase} {ps : List Phrase} {u v : List Terminal} :
      Derives p u → Derives (.seq ps) v → Derives (.seq (p :: ps)) (u ++ v)
  | choice {p : Phrase} {ps : List Phrase} {w : List Terminal} :
      p ∈ ps → Derives p w → Derives (.choice ps) w
  | none {p : Phrase} : Derives (.many p) []
  | more {p : Phrase} {u v : List Terminal} :
      Derives p u → Derives (.many p) v → Derives (.many p) (u ++ v)

end ModuleLowering
