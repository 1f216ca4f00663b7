import ModuleLowering.Json.Value
import ModuleLowering.Syntax.Parse.Module

/-!
# Diagnostics

What a user is told about a module that was rejected: a message with a code, the phase that found
the fault, and where it is as far as that is known.
-/

set_option autoImplicit false

namespace ModuleLowering

/-- A file and a place in it, each as far as known. -/
structure Span where
  file : Option Text := none
  line : Option Nat := none
  column : Option Nat := none
  /-- The place that the span was made of. -/
  origin : Option Position := none
deriving DecidableEq, Inhabited

namespace Span

def ofPlace (place : Option Position) (file : Option Text) : Span :=
  ⟨file, place.map Position.line, place.map Position.column, place⟩

/-- A span with a file name, unless it has one already. -/
def inFile (s : Span) (file : Option Text) : Span :=
  if (s.file.getD []).isEmpty && !(file.getD []).isEmpty then { s with file := file } else s

/-- A span as text: the file, and line and column if the line is known. -/
def describe (s : Span) : Text :=
  let file := s.file.getD []
  let name : Text := if file.isEmpty then "<input>" else file
  match s.line with
  | none => name
  | some line => name ++ ":" ++ Text.ofNat line ++ ":" ++ (s.column.map Text.ofNat).getD "?"

end Span

/-- A message about a module. -/
structure Diagnostic where
  message : Text
  code : Option Text := none
  phase : Option Text := none
  severity : Text := "error"
  span : Span := {}
  notes : List Text := []
deriving DecidableEq, Inhabited

namespace Diagnostic

def render (d : Diagnostic) : Text := d.span.describe ++ ": " ++ d.severity ++ ": " ++ d.message

/-- The diagnostic of a complaint about the text of a module. -/
def ofComplaint (c : Complaint) (file : Option Text) : Diagnostic where
  message := c.message
  code := some "GM0100"
  phase := some "parser"
  span := .ofPlace c.place file

/-- The first text unless it is missing or empty, else the second. -/
def firstGiven (t : Option Text) (fallback : Text) : Text :=
  let t := t.getD []
  if t.isEmpty then fallback else t

/-- A diagnostic as data; `phase` and `file` stand for what it leaves open. -/
def toJson (d : Diagnostic) (phase file : Text) : Json :=
  .object
    [("phase", .text (firstGiven d.phase phase)), ("code", .ofText? d.code),
      ("message", .text d.message), ("severity", .text d.severity),
      ("file", .text (d.span.file.getD file)), ("line", .ofNat? d.span.line),
      ("column", .ofNat? d.span.column), ("notes", .array (d.notes.map .text))]

end Diagnostic

end ModuleLowering
