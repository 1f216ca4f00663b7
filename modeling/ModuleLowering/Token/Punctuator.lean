import ModuleLowering.Text.Basic

/-!
# Punctuators

The punctuators of a module text. Where several of them fit, the longest one is read.
-/

set_option autoImplicit false

namespace ModuleLowering

/-- A punctuator. -/
inductive Punctuator where
  | comma | star | rightBrace | leftParen | rightParen | semicolon | leftBrace | assign | colon
  | question | bar | caret | ampersand | less | greater | plus | minus | slash | percent | bang
  | tilde | dot | leftBracket | rightBracket | ellipsis | arrow | plusAssign | minusAssign
  | starAssign | slashAssign | percentAssign | powerAssign | shiftLeftAssign | shiftRightAssign
  | shiftRightZeroAssign | andAssign | orAssign | xorAssign | logicalAndAssign | logicalOrAssign
  | nullishAssign | logicalOr | nullish | logicalAnd | equal | notEqual | identical
  | notIdentical | lessEqual | greaterEqual | shiftLeft | shiftRight | shiftRightZero | power
  | increment | decrement | optionalChain
deriving DecidableEq, Inhabited

namespace Punctuator

def spelling : Punctuator → String
  | .comma => ","
  | .star => "*"
  | .rightBrace => "\x7d"
  | .leftParen => "("
  | .rightParen => ")"
  | .semicolon => ";"
  | .leftBrace => "\x7b"
  | .assign => "="
  | .colon => ":"
  | .question => "?"
  | .bar => "|"
  | .caret => "^"
  | .ampersand => "&"
  | .less => "<"
  | .greater => ">"
  | .plus => "+"
  | .minus => "-"
  | .slash => "/"
  | .percent => "%"
  | .bang => "!"
  | .tilde => "~"
  | .dot => "."
  | .leftBracket => "["
  | .rightBracket => "]"
  | .ellipsis => "..."
  | .arrow => "=>"
  | .plusAssign => "+="
  | .minusAssign => "-="
  | .starAssign => "*="
  | .slashAssign => "/="
  | .percentAssign => "%="
  | .powerAssign => "**="
  | .shiftLeftAssign => "<<="
  | .shiftRightAssign => ">>="
  | .shiftRightZeroAssign => ">>>="
  | .andAssign => "&="
  | .orAssign => "|="
  | .xorAssign => "^="
  | .logicalAndAssign => "&&="
  | .logicalOrAssign => "||="
  | .nullishAssign => "??="
  | .logicalOr => "||"
  | .nullish => "??"
  | .logicalAnd => "&&"
  | .equal => "=="
  | .notEqual => "!="
  | .identical => "==="
  | .notIdentical => "!=="
  | .lessEqual => "<="
  | .greaterEqual => ">="
  | .shiftLeft => "<<"
  | .shiftRight => ">>"
  | .shiftRightZero => ">>>"
  | .power => "**"
  | .increment => "++"
  | .decrement => "--"
  | .optionalChain => "?."

/-- The name of a punctuator in messages about the grammar. -/
def terminalName : Punctuator → String
  | .comma => "COMMA"
  | .star => "STAR"
  | .rightBrace => "RBRACE"
  | .leftParen => "LPAR"
  | .rightParen => "RPAR"
  | .semicolon => "SEMICOLON"
  | .leftBrace => "LBRACE"
  | .assign => "EQUAL"
  | .colon => "COLON"
  | .question => "QMARK"
  | .bar => "VBAR"
  | .caret => "CIRCUMFLEX"
  | .ampersand => "AMPERSAND"
  | .less => "LESSTHAN"
  | .greater => "MORETHAN"
  | .plus => "PLUS"
  | .minus => "MINUS"
  | .slash => "SLASH"
  | .percent => "PERCENT"
  | .bang => "BANG"
  | .tilde => "TILDE"
  | .dot => "DOT"
  | .leftBracket => "LSQB"
  | .rightBracket => "RSQB"
  | .ellipsis => "__ANON_0"
  | .arrow => "__ANON_1"
  | .plusAssign => "__ANON_2"
  | .minusAssign => "__ANON_3"
  | .starAssign => "__ANON_4"
  | .slashAssign => "__ANON_5"
  | .percentAssign => "__ANON_6"
  | .powerAssign => "__ANON_7"
  | .shiftLeftAssign => "__ANON_8"
  | .shiftRightAssign => "__ANON_9"
  | .shiftRightZeroAssign => "__ANON_10"
  | .andAssign => "__ANON_11"
  | .orAssign => "__ANON_12"
  | .xorAssign => "__ANON_13"
  | .logicalAndAssign => "__ANON_14"
  | .logicalOrAssign => "__ANON_15"
  | .nullishAssign => "__ANON_16"
  | .logicalOr => "__ANON_17"
  | .nullish => "__ANON_18"
  | .logicalAnd => "__ANON_19"
  | .equal => "__ANON_20"
  | .notEqual => "__ANON_21"
  | .identical => "__ANON_22"
  | .notIdentical => "__ANON_23"
  | .lessEqual => "__ANON_24"
  | .greaterEqual => "__ANON_25"
  | .shiftLeft => "__ANON_26"
  | .shiftRight => "__ANON_27"
  | .shiftRightZero => "__ANON_28"
  | .power => "__ANON_29"
  | .increment => "__ANON_30"
  | .decrement => "__ANON_31"
  | .optionalChain => "__ANON_32"

/-- Every punctuator, longer spellings before shorter ones. -/
def all : List Punctuator :=
  [.shiftRightZeroAssign, .ellipsis, .powerAssign, .shiftLeftAssign, .shiftRightAssign,
    .logicalAndAssign, .logicalOrAssign, .nullishAssign, .identical, .notIdentical,
    .shiftRightZero, .arrow, .plusAssign, .minusAssign, .starAssign, .slashAssign,
    .percentAssign, .andAssign, .orAssign, .xorAssign, .logicalOr, .nullish, .logicalAnd, .equal,
    .notEqual, .lessEqual, .greaterEqual, .shiftLeft, .shiftRight, .power, .increment,
    .decrement, .optionalChain, .comma, .star, .rightBrace, .leftParen, .rightParen, .semicolon,
    .leftBrace, .assign, .colon, .question, .bar, .caret, .ampersand, .less, .greater, .plus,
    .minus, .slash, .percent, .bang, .tilde, .dot, .leftBracket, .rightBracket]

def text (p : Punctuator) : Text := p.spelling

/-- The longest punctuator that a text begins with. -/
def longest? (t : Text) : Option Punctuator := all.find? fun p => p.text.isPrefixOf t

/-- No punctuator is missing from the list. -/
theorem mem_all (p : Punctuator) : p ∈ all := by cases p <;> decide

end Punctuator

end ModuleLowering
