import ScriptKit.Scope.Basic

/-! Tables and frames stay as they are where a variable cannot be made or given a value.

So a change is told by its failure or by what it has changed. -/

namespace ScriptKit

namespace SymbolTable

variable {hash : String → UInt64}

theorem insert?_eq (t : SymbolTable hash) (b : Binding) :
    t.insert? b =
      if t.contains b.name then none
      else
        let t := if t.capacity * 4 < (t.size + 1) * 5 then t.grow else t
        some ⟨put hash t.slots b, t.size + 1⟩ := by
  unfold insert? insert
  cases t.contains b.name <;> rfl

theorem insert_eq (t : SymbolTable hash) (b : Binding) :
    t.insert b =
      match t.insert? b with
      | some grown => .ok () grown
      | none => .error b t := by
  unfold insert? insert
  cases t.contains b.name <;> rfl

end SymbolTable

namespace Scopes

theorem setIfInBounds_self {s : Scopes} {id : ScopeId} {frame : Frame}
    (here : s.frames[id]? = some frame) : s.frames.setIfInBounds id frame = s.frames := by
  apply Array.ext_getElem?
  intro i
  rw [Array.getElem?_setIfInBounds]
  split
  · rename_i same
    subst same
    rw [here, if_pos (Array.getElem?_eq_some_iff.mp here).1]
  · rfl

theorem declare_eq (s : Scopes) (id : ScopeId) (b : Binding) :
    s.declare id b =
      match s.frames[id]? with
      | none => .error .noFrame
      | some frame =>
        match frame.table.insert? b with
        | none => .error .alreadyDeclared
        | some table => .ok ⟨s.frames.setIfInBounds id { frame with table }⟩ := by
  unfold declare apply declareIn
  cases s.frames[id]? with
  | none => rfl
  | some frame =>
    dsimp only
    rw [SymbolTable.insert_eq]
    cases frame.table.insert? b <;> rfl

theorem declareIn_eq (s : Scopes) (id : ScopeId) (b : Binding) :
    declareIn id b s =
      match s.declare id b with
      | .ok t => .ok () t
      | .error e => .error e s := by
  rw [declare_eq]
  unfold declareIn
  cases here : s.frames[id]? with
  | none => rfl
  | some frame =>
    -- A table that hands the variable back is put where it was.
    dsimp only
    rw [SymbolTable.insert_eq]
    cases frame.table.insert? b with
    | none =>
      dsimp only
      rw [setIfInBounds_self here]
    | some table => rfl

theorem assign_eq (s : Scopes) (id : ScopeId) (name : String) (value : Value) :
    s.assign id name value =
      match s.owner? name id with
      | none => .error .notFound
      | some owner =>
        match (s.frames[owner]?).bind (·.table.get? name) with
        | none => .error .notFound
        | some b =>
          if b.isConst then .error .constViolation
          else .ok ⟨s.frames.modify owner fun f => { f with table := f.table.set name value }⟩ := by
  unfold assign apply assignFrom
  cases s.owner? name id with
  | none => rfl
  | some owner =>
    dsimp only
    cases (s.frames[owner]?).bind (·.table.get? name) with
    | none => rfl
    | some b => cases constant : b.isConst <;> simp only [constant] <;> rfl

theorem assignFrom_eq (s : Scopes) (id : ScopeId) (name : String) (value : Value) :
    assignFrom id name value s =
      match s.assign id name value with
      | .ok t => .ok () t
      | .error e => .error e s := by
  rw [assign_eq]
  unfold assignFrom
  cases s.owner? name id with
  | none => rfl
  | some owner =>
    dsimp only
    cases (s.frames[owner]?).bind (·.table.get? name) with
    | none => rfl
    | some b => cases constant : b.isConst <;> simp only [constant] <;> rfl

end Scopes

end ScriptKit
