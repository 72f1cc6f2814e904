import ScriptKit.Proofs.Value.Recasting

/-! Renaming the frames that closures were made in.

No function changes, so a renamed value prints as before. It compares as before too, if no two
frames of the values become one. -/

namespace ScriptKit

def Callable.rename (f : ScopeId → ScopeId) : Callable → Callable
  | .builtin b => .builtin b
  | .closure func env => .closure func (f env)

namespace Value

mutual

def rename (f : ScopeId → ScopeId) : Value → Value
  | .integer n => .integer n
  | .float x => .float x
  | .text s => .text s
  | .boolean b => .boolean b
  | .null => .null
  | .array items => .array (renameAll f items)
  | .function g => .function (g.rename f)

def renameAll (f : ScopeId → ScopeId) : List Value → List Value
  | [] => []
  | v :: vs => rename f v :: renameAll f vs

end

theorem renameAll_eq_map (f : ScopeId → ScopeId) (vs : List Value) :
    renameAll f vs = vs.map (rename f) := by
  induction vs with
  | nil => rfl
  | cons v vs ih => simp only [renameAll, List.map_cons, ih]

@[simp] theorem rename_array (f : ScopeId → ScopeId) (items : List Value) :
    (array items).rename f = array (items.map (rename f)) := by
  simp only [rename, renameAll_eq_map]

theorem rename_eq_recast (f : ScopeId → ScopeId) (v : Value) :
    v.rename f = v.recast fun c => (c.1, f c.2) := by
  induction v using itemwise with
  | array items ih => rw [rename_array, recast_array, List.map_congr_left ih]
  | function g => cases g <;> rfl
  | _ => rfl

theorem mem_envs_of_closures {v : Value} {c : FuncId × ScopeId} (member : c ∈ v.closures) :
    c.2 ∈ v.envs := by
  rw [envs_eq_map]
  exact List.mem_map_of_mem member

theorem rename_congr {f g : ScopeId → ScopeId} (v : Value) (same : ∀ e ∈ v.envs, f e = g e) :
    v.rename f = v.rename g := by
  rw [rename_eq_recast, rename_eq_recast]
  apply recast_congr
  intro c member
  rw [same c.2 (mem_envs_of_closures member)]

theorem rename_of_no_envs {f : ScopeId → ScopeId} {v : Value} (plain : v.envs = []) :
    v.rename f = v := by
  rw [envs_eq_map, List.map_eq_nil_iff] at plain
  rw [rename_eq_recast, recast_of_no_closures plain]

theorem rename_id (v : Value) : v.rename id = v := by
  rw [rename_eq_recast]
  exact recast_id v

section Observers

variable (f : ScopeId → ScopeId)

@[simp] theorem isTruthy_rename (v : Value) : (v.rename f).isTruthy = v.isTruthy := by
  rw [rename_eq_recast, isTruthy_recast]

@[simp] theorem toText_rename (v : Value) : (v.rename f).toText = v.toText := by
  rw [rename_eq_recast]
  exact toText_recast v fun _ _ => rfl

end Observers

/-- No two frames of the one value and the other become one. -/
def Separates (f : ScopeId → ScopeId) (v w : Value) : Prop :=
  ∀ a ∈ v.envs, ∀ b ∈ w.envs, f a = f b → a = b

theorem Separates.closures {f : ScopeId → ScopeId} {v w : Value} (apart : Separates f v w) :
    ∀ c ∈ v.closures, ∀ d ∈ w.closures, (c.1, f c.2) = (d.1, f d.2) → c = d := by
  intro c hc d hd same
  obtain ⟨func, env⟩ := Prod.mk.inj same
  exact Prod.ext func (apart _ (mem_envs_of_closures hc) _ (mem_envs_of_closures hd) env)

theorem equals_rename {f : ScopeId → ScopeId} (v w : Value) (apart : Separates f v w) :
    (v.rename f).equals (w.rename f) = v.equals w := by
  rw [rename_eq_recast, rename_eq_recast]
  exact equals_recast v w apart.closures

end Value

namespace Operators
open Value

theorem binary_no_envs {op : BinaryOp} {a b v : Value} (done : binary op a b = .ok v) :
    v.envs = [] := by
  rw [envs_eq_map, binary_no_closures done, List.map_nil]

theorem binary_rename {f : ScopeId → ScopeId} (op : BinaryOp) (a b : Value)
    (apart : Separates f a b) : binary op (a.rename f) (b.rename f) = binary op a b := by
  rw [rename_eq_recast, rename_eq_recast]
  exact binary_recast op a b apart.closures

theorem unary_no_envs {op : UnaryOp} {a v : Value} (done : unary op a = .ok v) : v.envs = [] := by
  rw [envs_eq_map, unary_no_closures done, List.map_nil]

theorem unary_rename (f : ScopeId → ScopeId) (op : UnaryOp) (a : Value) :
    unary op (a.rename f) = unary op a := by
  rw [rename_eq_recast, unary_recast]

theorem index_envs {target i v : Value} (done : index target i = .ok v) :
    ∀ e ∈ v.envs, e ∈ target.envs := by
  intro e member
  rw [envs_eq_map] at member
  obtain ⟨c, inside, rfl⟩ := List.mem_map.mp member
  exact mem_envs_of_closures (index_closures done c inside)

theorem index_rename (f : ScopeId → ScopeId) (target i : Value) :
    index (target.rename f) (i.rename f) = (index target i).map (rename f) := by
  have all : rename f = recast fun c => (c.1, f c.2) := funext (rename_eq_recast f)
  rw [all]
  exact index_recast target i

end Operators

end ScriptKit
