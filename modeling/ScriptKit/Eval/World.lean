import ScriptKit.Eval.Error
import ScriptKit.Scope.Release
import ScriptKit.Stream

/-! What a program acts on: its frames, an output and an input. -/

namespace ScriptKit

structure World where
  scopes : Scopes := .initial
  out : Sink := {}
  input : List UInt8 := []

/-- A computation on the world that can fail. What it did before it failed stays done. -/
abbrev Eval := EStateM RuntimeError World

namespace Eval

def fail {α : Type} (kind : RuntimeErrorKind) (span : Span) : Eval α :=
  throw ⟨kind, some span⟩

def ofExcept {α : Type} (span : Span) : Except RuntimeErrorKind α → Eval α
  | .ok a => pure a
  | .error kind => fail kind span

def scopes : Eval Scopes :=
  return (← get).scopes

def setScopes (s : Scopes) : Eval Unit :=
  modify ({ · with scopes := s })

def write (text : String) (span : Span) : Eval Unit := do
  match (← get).out.write text with
  | .ok out => modify ({ · with out })
  | .error message => fail (.io message) span

/-- Takes a line of input without its end. There is none at the end of the input. A line that is no
text is taken all the same. -/
def readLine (span : Span) : Eval (Option String) := do
  let (line, rest) := takeLine (← get).input
  if line.isEmpty then return none
  modify ({ · with input := rest })
  match decodeText? (dropLineEnd line) with
  | some text => return some text
  | none => fail (.io notText) span

def scopeError (name : String) : ScopeError → RuntimeErrorKind
  | .alreadyDeclared => .alreadyDeclared name
  | .notFound => .undefinedVariable name
  | .constViolation => .constViolation name
  | .noFrame => .missingFrame

def declare (scope : ScopeId) (b : Binding) (span : Span) : Eval Unit := do
  match Scopes.declareIn scope b (← scopes) with
  | .ok _ s => setScopes s
  | .error e s => setScopes s; fail (scopeError b.name e) span

def assign (scope : ScopeId) (name : String) (value : Value) (span : Span) : Eval Unit := do
  match Scopes.assignFrom scope name value (← scopes) with
  | .ok _ s => setScopes s
  | .error e s => setScopes s; fail (scopeError name e) span

def closure (scope : ScopeId) (func : FuncId) : Eval Value := do
  setScopes ((← scopes).capture scope)
  return .function (.closure func scope)

/-- Opens a frame, runs `body` in it, and gives back the frames opened meanwhile. Nothing outlives a
failure. -/
def inFrame (reclaim : Nat → Value → Scopes → Scopes) (parent : ScopeId)
    (body : ScopeId → Eval Value) : Eval Value := fun w =>
  let mark := w.scopes.size
  match body mark { w with scopes := w.scopes.push parent } with
  | .ok v w => .ok v { w with scopes := reclaim mark v w.scopes }
  | .error e w => .error e { w with scopes := reclaim mark .null w.scopes }

end Eval

end ScriptKit
