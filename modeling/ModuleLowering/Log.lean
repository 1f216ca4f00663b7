import ModuleLowering.Text.Basic

/-!
# Log

What the library notes about its work. Notes are kept when the work fails.
-/

set_option autoImplicit false

namespace ModuleLowering

/-- How much a note matters. -/
inductive Level where
  | debug
  | info
  | warning
deriving DecidableEq

namespace Level

def name : Level → String
  | debug => "DEBUG"
  | info => "INFO"
  | warning => "WARNING"

/-- A number that grows with how much a note matters. -/
def rank : Level → Nat
  | debug => 0
  | info => 1
  | warning => 2

end Level

/-- The part of the library that makes a note. -/
inductive Channel where
  | config
  | commandLine
  | collector
  | resolver
  | commonJs
  | lowering
deriving DecidableEq

namespace Channel

def name : Channel → String
  | config => "globalmod.config"
  | commandLine => "globalmod.driver"
  | collector => "globalmod.transform.collector"
  | resolver => "globalmod.transform.resolver"
  | commonJs => "globalmod.transform.cjs_rewriter"
  | lowering => "globalmod.transform.pipeline"

end Channel

/-- A note. -/
structure Event where
  level : Level
  channel : Channel
  message : Text
deriving DecidableEq

namespace Event

/-- A note as a line: its level, its channel and its message. -/
def line (e : Event) : Text :=
  (e.level.name : Text) ++ " " ++ (e.channel.name : Text) ++ ": " ++ e.message

end Event

/-- Work that may fail and makes notes. -/
abbrev Logged (ε α : Type) := ExceptT ε (StateM (List Event)) α

namespace Logged

variable {ε α : Type}

def note (level : Level) (channel : Channel) (message : Text) : Logged ε Unit :=
  ExceptT.lift (modify (· ++ [⟨level, channel, message⟩]))

def notes (events : List Event) : Logged ε Unit := ExceptT.lift (modify (· ++ events))

/-- Work that makes no notes. -/
def ofExcept (r : Except ε α) : Logged ε α := ExceptT.mk (pure r)

/-- The same work with another kind of failure. -/
def mapError {δ : Type} (f : ε → δ) (work : Logged ε α) : Logged δ α := ExceptT.adapt f work

/-- Work that cannot fail: a failure is part of its result. -/
def attempt {δ : Type} (work : Logged ε α) : Logged δ (Except ε α) := ExceptT.lift work.run

/-- The result of work and the notes that it made. -/
def result (work : Logged ε α) : Except ε α × List Event := (ExceptT.run work).run []

end Logged

end ModuleLowering
