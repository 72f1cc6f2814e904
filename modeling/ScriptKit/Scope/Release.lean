import ScriptKit.Scope.Basic

/-! Giving frames back when a block or a call ends.

A frame opened since the mark is needed if a closure in the result or in an older frame was made
there, or if a needed frame has it as parent or holds a closure made there. Numbers are indices, so
frames are cut off above the last needed one, and an unneeded frame below that is emptied. -/

namespace ScriptKit.Scopes

def successors (s : Scopes) (id : ScopeId) : List ScopeId :=
  match s.frames[id]? with
  | none => []
  | some frame => frame.parent.toList ++ frame.table.envs

theorem count_false_set {seen : Array Bool} {i : Nat} (unseen : seen[i]? = some false) :
    (seen.setIfInBounds i true).count false < seen.count false := by
  obtain ⟨inside, value⟩ := Array.getElem?_eq_some_iff.mp unseen
  have member : false ∈ seen := value ▸ Array.getElem_mem inside
  have positive : 0 < seen.count false := Array.count_pos_iff.mpr member
  rw [Array.setIfInBounds, dif_pos inside, Array.count_set]
  simp [value]
  omega

/-- Adds to `seen` every frame that can be reached from the pending ones. `seen` speaks of the
frames from `mark` on; others are passed over. -/
def reach (s : Scopes) (mark : Nat) (seen : Array Bool) (pending : List ScopeId) : Array Bool :=
  match pending with
  | [] => seen
  | id :: rest =>
    if _ : mark ≤ id ∧ seen[id - mark]? = some false then
      reach s mark (seen.setIfInBounds (id - mark) true) (s.successors id ++ rest)
    else reach s mark seen rest
termination_by (seen.count false, pending.length)
decreasing_by
  · exact Prod.Lex.left _ _ (count_false_set (And.right ‹_›))
  · exact Prod.Lex.right _ (by simp)

def roots (s : Scopes) (mark : Nat) (result : Value) : List ScopeId :=
  result.envs ++ (s.frames.take mark).toList.flatMap (·.table.envs)

def keepEnd (mark : Nat) (seen : Array Bool) : Nat :=
  (List.range seen.size).foldl
    (fun keep i => if seen[i]? = some true then mark + i + 1 else keep) mark

/-- Gives back the frames opened since there were `mark` of them. `result` is the value that
outlives them. The global frame stays. -/
def release (mark : Nat) (result : Value) (s : Scopes) : Scopes :=
  if s.frames.size ≤ mark then s
  else if !s.frames.any (·.captured) mark then ⟨s.frames.shrink (max mark 1)⟩
  else
    let seen := s.reach mark (Array.replicate (s.frames.size - mark) false) (s.roots mark result)
    let keep := keepEnd mark seen
    ⟨(s.frames.shrink (max keep 1)).mapIdx fun i frame =>
      if i < mark ∨ keep ≤ i ∨ seen[i - mark]? = some true then frame
      else { parent := frame.parent }⟩

end ScriptKit.Scopes
