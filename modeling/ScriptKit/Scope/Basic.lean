import ScriptKit.Scope.Table

/-! Frames of variables, each with a parent that its lookups fall back to.

A frame is known by its index. A parent is always an older frame, so that a chain of parents
ends. -/

namespace ScriptKit

inductive ScopeError where
  /-- The name is taken in this very frame. -/
  | alreadyDeclared
  /-- No frame of the chain has the name. -/
  | notFound
  /-- The nearest variable of the name is constant. -/
  | constViolation
  /-- There is no frame of this number. -/
  | noFrame
deriving DecidableEq, Repr

def ScopeError.message : ScopeError → String
  | alreadyDeclared => "variable already declared in this scope"
  | notFound => "variable not declared"
  | constViolation => "cannot assign to a constant"
  | noFrame => "no such frame"

structure Frame where
  table : SymbolTable fnv1a := {}
  parent : Option ScopeId := none
  captured : Bool := false

structure Scopes where
  frames : Array Frame

namespace Scopes

def globalId : ScopeId := 0

def initial : Scopes :=
  ⟨#[{ captured := true }]⟩

def size (s : Scopes) : Nat :=
  s.frames.size

/-- Opens a frame. Its number is the old size. -/
def push (s : Scopes) (parent : ScopeId) : Scopes :=
  ⟨s.frames.push { parent := some parent }⟩

def capture (s : Scopes) (id : ScopeId) : Scopes :=
  ⟨s.frames.modify id ({ · with captured := true })⟩

def owner? (s : Scopes) (name : String) (id : ScopeId) : Option ScopeId :=
  match s.frames[id]? with
  | none => none
  | some frame =>
    if frame.table.contains name then some id
    else
      match frame.parent with
      | none => none
      | some parent => if parent < id then owner? s name parent else none
termination_by id

def lookup? (s : Scopes) (id : ScopeId) (name : String) : Option Binding := do
  let owner ← s.owner? name id
  let frame ← s.frames[owner]?
  frame.table.get? name

def resolve? (s : Scopes) (id : ScopeId) (name : String) : Option Value :=
  (s.lookup? id name).map (·.value)

/-- A change to the frames. If it fails, it leaves the frames as they are then. -/
abbrev Change := EStateM ScopeError Scopes Unit

def declareIn (id : ScopeId) (b : Binding) : Change := fun s =>
  match s.frames[id]? with
  | none => .error .noFrame s
  | some frame =>
    match frame.table.insert b with
    | .ok _ table => .ok () ⟨s.frames.setIfInBounds id { frame with table }⟩
    | .error _ table => .error .alreadyDeclared ⟨s.frames.setIfInBounds id { frame with table }⟩

/-- Gives the nearest variable of the name a new value, in whichever frame it was made. -/
def assignFrom (id : ScopeId) (name : String) (value : Value) : Change := fun s =>
  match s.owner? name id with
  | none => .error .notFound s
  | some owner =>
    match (s.frames[owner]?).bind (·.table.get? name) with
    | none => .error .notFound s
    | some b =>
      if b.isConst then .error .constViolation s
      else .ok () ⟨s.frames.modify owner fun f => { f with table := f.table.set name value }⟩

def apply (s : Scopes) (change : Change) : Except ScopeError Scopes :=
  match change s with
  | .ok _ t => .ok t
  | .error e _ => .error e

def declare (s : Scopes) (id : ScopeId) (b : Binding) : Except ScopeError Scopes :=
  s.apply (declareIn id b)

def assign (s : Scopes) (id : ScopeId) (name : String) (value : Value) : Except ScopeError Scopes :=
  s.apply (assignFrom id name value)

end Scopes

end ScriptKit
