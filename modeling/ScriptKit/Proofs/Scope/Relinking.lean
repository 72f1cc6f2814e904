import ScriptKit.Proofs.Scope.Mapping
import ScriptKit.Proofs.Value.Recasting
import ScriptKit.Scope.Release

/-! Closures of functions under other numbers.

Frames know closures by the frames these were made in, so that frames are opened, kept and given
back as before. -/

namespace ScriptKit

variable (f : FuncId → FuncId)

def Callable.relink (g : Callable) : Callable :=
  g.recast fun c => (f c.1, c.2)

def Value.relink (v : Value) : Value :=
  v.recast fun c => (f c.1, c.2)

def Binding.relink (b : Binding) : Binding :=
  b.mapValue (Value.relink f)

def Frame.relink (frame : Frame) : Frame :=
  { frame with table := frame.table.mapValues (Value.relink f) }

def Scopes.relink (s : Scopes) : Scopes :=
  ⟨s.frames.map (Frame.relink f)⟩

namespace Value

@[simp] theorem relink_array (items : List Value) :
    (array items).relink f = array (items.map (relink f)) :=
  recast_array _ items

@[simp] theorem relink_function (g : Callable) : (function g).relink f = function (g.relink f) :=
  rfl

theorem relink_eq {v : Value} (fixed : ∀ c ∈ v.closures, f c.1 = c.1) : v.relink f = v := by
  rw [relink, recast_congr v (h := fun c => c), recast_id]
  intro c member
  rw [fixed c member]

theorem envs_relink (v : Value) : (v.relink f).envs = v.envs := by
  rw [envs_eq_map, envs_eq_map, relink, closures_recast, List.map_map]
  rfl

end Value

theorem SymbolTable.envs_relink {hash : String → UInt64} (t : SymbolTable hash) :
    (t.mapValues (Value.relink f)).envs = t.envs := by
  rw [envs, toList_mapValues, List.flatMap_map]
  simp only [Binding.mapValue, Value.envs_relink]
  rfl

namespace Scopes

theorem relink_eq {s : Scopes}
    (fixed : ∀ frame ∈ s.frames, ∀ b ∈ frame.table.toList, ∀ c ∈ b.value.closures, f c.1 = c.1) :
    s.relink f = s := by
  have each : ∀ frame ∈ s.frames, frame.relink f = id frame := by
    intro frame member
    have table : frame.table.mapValues (Value.relink f) = frame.table.mapValues fun v => v :=
      SymbolTable.mapValues_congr fun b held => Value.relink_eq f (fixed frame member b held)
    rw [Frame.relink, table, SymbolTable.mapValues_id]
    rfl
  rw [relink, Array.map_congr_left each, Array.map_id]

@[simp] theorem size_relink (s : Scopes) : (s.relink f).size = s.size := Array.size_map

@[simp] theorem getElem?_relink (s : Scopes) (i : ScopeId) :
    (s.relink f).frames[i]? = s.frames[i]?.map (Frame.relink f) := Array.getElem?_map

theorem push_relink (s : Scopes) (parent : ScopeId) :
    (s.relink f).push parent = (s.push parent).relink f := by
  simp only [push, relink, Array.map_push, Frame.relink, SymbolTable.mapValues_empty]

theorem capture_relink (s : Scopes) (id : ScopeId) :
    (s.relink f).capture id = (s.capture id).relink f := by
  simp only [capture, relink]
  congr 1
  apply Array.ext_getElem?
  intro i
  simp only [Array.getElem?_modify, Array.getElem?_map]
  split
  · simp only [Option.map_map]
    rfl
  · rfl

theorem update_relink (s : Scopes) (id : ScopeId) (frame : Frame) :
    (⟨(s.relink f).frames.setIfInBounds id (frame.relink f)⟩ : Scopes) =
      (⟨s.frames.setIfInBounds id frame⟩ : Scopes).relink f := by
  simp only [relink, Array.map_setIfInBounds]

theorem successors_relink (s : Scopes) (id : ScopeId) :
    (s.relink f).successors id = s.successors id := by
  simp only [successors, getElem?_relink]
  cases s.frames[id]? with
  | none => rfl
  | some frame => simp only [Option.map_some, Frame.relink, SymbolTable.envs_relink]

theorem reach_relink (s : Scopes) (mark : Nat) (seen : Array Bool) (pending : List ScopeId) :
    (s.relink f).reach mark seen pending = s.reach mark seen pending := by
  fun_induction reach s mark seen pending with
  | case1 => rw [reach]
  | case2 seen id rest fresh ih => rw [reach, dif_pos fresh, successors_relink, ih]
  | case3 seen id rest known ih => rw [reach, dif_neg known, ih]

theorem roots_relink (s : Scopes) (mark : Nat) (result : Value) :
    (s.relink f).roots mark (result.relink f) = s.roots mark result := by
  simp only [roots, relink, Value.envs_relink, Array.take, ← Array.map_extract, Array.toList_map,
    List.flatMap_map]
  simp only [Frame.relink, SymbolTable.envs_relink]

theorem any_captured_relink (s : Scopes) (mark : Nat) :
    (s.relink f).frames.any (·.captured) mark = s.frames.any (·.captured) mark := by
  rw [Bool.eq_iff_iff, Array.any_iff_exists, Array.any_iff_exists]
  simp only [relink, Array.size_map, Array.getElem_map]
  rfl

theorem release_relink (s : Scopes) (mark : Nat) (result : Value) :
    (s.relink f).release mark (result.relink f) = (s.release mark result).relink f := by
  have size : (s.relink f).frames.size = s.frames.size := size_relink f s
  simp only [release, any_captured_relink]
  simp only [size, reach_relink, roots_relink]
  split
  · rfl
  · split
    · simp only [relink, Array.shrink_eq_take, Array.take, Array.map_extract]
    · simp only [relink]
      congr 1
      apply Array.ext_getElem?
      intro i
      simp only [Array.getElem?_mapIdx, Array.getElem?_map, Array.shrink_eq_take, Array.take,
        ← Array.map_extract, Option.map_map]
      congr 1
      funext frame
      simp only [Function.comp_apply]
      split
      · rfl
      · simp only [Frame.relink, SymbolTable.mapValues_empty]

end Scopes

end ScriptKit
