import ModuleLowering.Text.Basic

/-!
# Words of the grammar

The words that the grammar of a module treats in a way of their own. Some of them are reserved,
others (`as`, `from`, `of`, `get`, `set`, `static`) are also names.
-/

set_option autoImplicit false

namespace ModuleLowering

/-- A word of the grammar. -/
inductive Word where
  | kwImport | kwFrom | kwAs | kwDefault | kwExport | kwIf | kwElse | kwFor | kwIn | kwOf
  | kwWhile | kwDo | kwReturn | kwThrow | kwBreak | kwContinue | kwTry | kwSwitch | kwVar | kwLet
  | kwConst | kwCatch | kwFinally | kwCase | kwExtends | kwAsync | kwStatic | kwGet | kwSet
  | kwAwait | kwYield | kwInstanceof | kwTypeof | kwVoid | kwDelete | kwNew | kwTrue | kwFalse
  | kwNull | kwThis | kwSuper | kwFunction | kwClass
deriving DecidableEq, Inhabited

namespace Word

def spelling : Word → String
  | .kwImport => "import"
  | .kwFrom => "from"
  | .kwAs => "as"
  | .kwDefault => "default"
  | .kwExport => "export"
  | .kwIf => "if"
  | .kwElse => "else"
  | .kwFor => "for"
  | .kwIn => "in"
  | .kwOf => "of"
  | .kwWhile => "while"
  | .kwDo => "do"
  | .kwReturn => "return"
  | .kwThrow => "throw"
  | .kwBreak => "break"
  | .kwContinue => "continue"
  | .kwTry => "try"
  | .kwSwitch => "switch"
  | .kwVar => "var"
  | .kwLet => "let"
  | .kwConst => "const"
  | .kwCatch => "catch"
  | .kwFinally => "finally"
  | .kwCase => "case"
  | .kwExtends => "extends"
  | .kwAsync => "async"
  | .kwStatic => "static"
  | .kwGet => "get"
  | .kwSet => "set"
  | .kwAwait => "await"
  | .kwYield => "yield"
  | .kwInstanceof => "instanceof"
  | .kwTypeof => "typeof"
  | .kwVoid => "void"
  | .kwDelete => "delete"
  | .kwNew => "new"
  | .kwTrue => "true"
  | .kwFalse => "false"
  | .kwNull => "null"
  | .kwThis => "this"
  | .kwSuper => "super"
  | .kwFunction => "function"
  | .kwClass => "class"

/-- Every word of the grammar. -/
def all : List Word :=
  [.kwImport, .kwFrom, .kwAs, .kwDefault, .kwExport, .kwIf, .kwElse, .kwFor, .kwIn, .kwOf,
    .kwWhile, .kwDo, .kwReturn, .kwThrow, .kwBreak, .kwContinue, .kwTry, .kwSwitch, .kwVar,
    .kwLet, .kwConst, .kwCatch, .kwFinally, .kwCase, .kwExtends, .kwAsync, .kwStatic, .kwGet,
    .kwSet, .kwAwait, .kwYield, .kwInstanceof, .kwTypeof, .kwVoid, .kwDelete, .kwNew, .kwTrue,
    .kwFalse, .kwNull, .kwThis, .kwSuper, .kwFunction, .kwClass]

def text (w : Word) : Text := w.spelling

def ofText? (t : Text) : Option Word := all.find? fun w => w.text = t

/-- The name of a word in messages about the grammar. -/
def terminalName (w : Word) : String := w.spelling.toUpper

/-- The words that may also be names. -/
def isContextual (w : Word) : Bool :=
  [kwAs, kwFrom, kwOf, kwGet, kwSet, kwStatic].contains w

/-- After these words a slash starts a regular expression. -/
def precedesRegex (w : Word) : Bool :=
  [kwReturn, kwTypeof, kwInstanceof, kwIn, kwOf, kwNew, kwDelete, kwVoid, kwThrow, kwCase, kwDo,
    kwElse, kwYield, kwAwait].contains w

/-- No word is missing from the list. -/
theorem mem_all (w : Word) : w ∈ all := by cases w <;> decide

end Word

end ModuleLowering
