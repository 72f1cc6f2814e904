import ScriptKit.Source.Place
import ScriptKit.Source.Span
import ScriptKit.Text.Lines
import ScriptKit.Text.Numeral

/-! Messages about a source, shown with the line they speak of. -/

namespace ScriptKit

inductive Severity where
  | error
  | warning
  | note
deriving DecidableEq, Repr

namespace Severity

def label : Severity → String
  | error => "error"
  | warning => "warning"
  | note => "note"

def colour : Severity → String
  | error => "\x1b[1;31m"
  | warning => "\x1b[1;33m"
  | note => "\x1b[1;34m"

end Severity

def plain : String := "\x1b[0m"

/-- Where a message points. Tokens know their place; an expression knows only its bytes. -/
inductive Location where
  | bytes (span : Span)
  | place (place : Place)
  | unknown
deriving DecidableEq, Repr

structure Diagnostic where
  severity : Severity := .error
  code : String
  message : String
  location : Location
deriving DecidableEq, Repr

/-- What is left of a text behind its first `n` bytes, if they end where a character does. -/
def dropBytes? : Nat → List Char → Option (List Char)
  | 0, text => some text
  | _ + 1, [] => none
  | n + 1, c :: rest => if c.utf8Size ≤ n + 1 then dropBytes? (n + 1 - c.utf8Size) rest else none

def takeBytes? : Nat → List Char → Option (List Char)
  | 0, _ => some []
  | _ + 1, [] => none
  | n + 1, c :: rest =>
    if c.utf8Size ≤ n + 1 then (takeBytes? (n + 1 - c.utf8Size) rest).map (c :: ·) else none

/-- The text of a span, if both its ends are ends of characters. -/
def slice? (text : List Char) (span : Span) : Option (List Char) :=
  if span.start ≤ span.stop then do
    let rest ← dropBytes? span.start text
    takeBytes? (span.stop - span.start) rest
  else none

namespace Location

def place? (text : List Char) : Location → Option Place
  | bytes span => some (lineColumn text span.start)
  | place p => some p
  | unknown => none

/-- How many carets underline a location: the characters of a span on its first line, and at least
one. -/
def width (text : List Char) : Location → Nat
  | bytes span =>
    if span.start < span.stop then
      match slice? text ⟨span.start, min span.stop (byteLength text)⟩ with
      | some part => max 1 ((Text.lines part).headD []).length
      | none => 1
    else 1
  | _ => 1

end Location

namespace Diagnostic

def summary (d : Diagnostic) : String :=
  d.severity.label ++ "[" ++ d.code ++ "]: " ++ d.message

def place? (d : Diagnostic) (source : String) : Option Place :=
  d.location.place? source.toList

def coloured (d : Diagnostic) : String :=
  d.severity.colour ++ d.severity.label ++ "[" ++ d.code ++ "]" ++ plain ++ ": " ++
    d.message ++ "\n"

/-- The source line of a place with carets under it. There is none past the last line. -/
def snippet (d : Diagnostic) (text : List Char) (p : Place) : String :=
  match (Text.lines text)[p.line - 1]? with
  | none => ""
  | some line =>
    String.ofList (Text.padLeft 4 ' ' (toString p.line).toList) ++ " | " ++ String.ofList line ++
      "\n     | " ++ String.ofList (List.replicate (p.column - 1) ' ') ++ d.severity.colour ++
      String.ofList (List.replicate (d.location.width text) '^') ++ plain ++ "\n"

def render (d : Diagnostic) (source file : String) : String :=
  match d.place? source with
  | none => file ++ ": " ++ d.coloured
  | some p =>
    file ++ ":" ++ toString p.line ++ ":" ++ toString p.column ++ ": " ++ d.coloured ++
      d.snippet source.toList p

end Diagnostic

def hasErrors (ds : List Diagnostic) : Bool :=
  ds.any (·.severity = .error)

end ScriptKit
