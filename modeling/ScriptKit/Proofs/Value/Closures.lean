import ScriptKit.Eval.Operators

/-! The closures in a value, and where operators take theirs from. -/

namespace ScriptKit

namespace Value

/-! The generated induction speaks of lists of values apart. Here an array has what all its items
have. -/
mutual

theorem itemwise {P : Value → Prop} (integer : ∀ n, P (.integer n)) (float : ∀ x, P (.float x))
    (text : ∀ s, P (.text s)) (boolean : ∀ b, P (.boolean b)) (null : P .null)
    (function : ∀ g, P (.function g))
    (array : ∀ items, (∀ v ∈ items, P v) → P (.array items)) : (v : Value) → P v
  | .integer n => integer n
  | .float x => float x
  | .text s => text s
  | .boolean b => boolean b
  | .null => null
  | .function g => function g
  | .array items =>
    array items (itemwise_all integer float text boolean null function array items)

theorem itemwise_all {P : Value → Prop} (integer : ∀ n, P (.integer n)) (float : ∀ x, P (.float x))
    (text : ∀ s, P (.text s)) (boolean : ∀ b, P (.boolean b)) (null : P .null)
    (function : ∀ g, P (.function g))
    (array : ∀ items, (∀ v ∈ items, P v) → P (.array items)) :
    (vs : List Value) → ∀ v ∈ vs, P v
  | [] => fun _ member => nomatch member
  | v :: vs => List.forall_mem_cons.mpr
    ⟨itemwise integer float text boolean null function array v,
      itemwise_all integer float text boolean null function array vs⟩

end

mutual

/-- All closures in a value, in order: the function and the frame it was made in. -/
def closures : Value → List (FuncId × ScopeId)
  | .function (.closure func env) => [(func, env)]
  | .array items => closuresOf items
  | _ => []

def closuresOf : List Value → List (FuncId × ScopeId)
  | [] => []
  | v :: vs => closures v ++ closuresOf vs

end

theorem closuresOf_eq_flatMap (vs : List Value) : closuresOf vs = vs.flatMap closures := by
  induction vs with
  | nil => rfl
  | cons v vs ih => simp only [closuresOf, List.flatMap_cons, ih]

@[simp] theorem closures_array (items : List Value) :
    (array items).closures = items.flatMap closures := by
  simp only [closures, closuresOf_eq_flatMap]

@[simp] theorem closures_closure (func : FuncId) (env : ScopeId) :
    (function (.closure func env)).closures = [(func, env)] := by
  simp only [closures]

theorem envsOf_eq_flatMap (vs : List Value) : envsOf vs = vs.flatMap envs := by
  induction vs with
  | nil => rfl
  | cons v vs ih => simp only [envsOf, List.flatMap_cons, ih]

@[simp] theorem envs_array (items : List Value) : (array items).envs = items.flatMap envs := by
  simp only [envs, envsOf_eq_flatMap]

theorem envs_eq_map (v : Value) : v.envs = v.closures.map (·.2) := by
  induction v using itemwise with
  | array items ih =>
    rw [envs_array, closures_array, List.map_flatMap]
    rw [List.flatMap_def, List.flatMap_def, List.map_congr_left ih]
  | function g => cases g <;> rfl
  | _ => rfl

end Value

namespace Operators

theorem integers_no_closures {op : BinaryOp} {a b : Int64} {v : Value}
    (done : integers op a b = .ok v) : v.closures = [] := by
  cases op <;> simp only [integers] at done
  case div | mod =>
    split at done
    · cases done
    · cases done; rfl
  all_goals cases done; rfl

theorem floats_no_closures {op : BinaryOp} {a b : Float} {v : Value}
    (done : floats op a b = .ok v) : v.closures = [] := by
  cases op <;> simp only [floats] at done
  case div | mod =>
    split at done
    · cases done
    · cases done; rfl
  all_goals cases done; rfl

theorem texts_no_closures {op : BinaryOp} {a b : String} {v : Value}
    (done : texts op a b = .ok v) : v.closures = [] := by
  cases op <;> simp only [texts] at done <;> cases done <;> rfl

theorem binary_no_closures {op : BinaryOp} {a b v : Value} (done : binary op a b = .ok v) :
    v.closures = [] := by
  unfold binary at done
  split at done
  · cases done; rfl
  · cases done; rfl
  · exact integers_no_closures done
  · exact texts_no_closures done
  · split at done
    · exact floats_no_closures done
    · cases done

theorem unary_no_closures {op : UnaryOp} {a v : Value} (done : unary op a = .ok v) :
    v.closures = [] := by
  unfold unary at done
  split at done <;> cases done <;> rfl

theorem mem_of_item? {α : Type} {items : List α} {i : Int64} {a : α}
    (found : item? items i = some a) :
    a ∈ items := by
  unfold item? at found
  split at found
  · exact List.mem_of_getElem? found
  · cases found

theorem index_closures {target i v : Value} (done : index target i = .ok v) :
    ∀ c ∈ v.closures, c ∈ target.closures := by
  unfold index at done
  split at done
  · split at done
    · rename_i items n item found
      cases done
      intro c member
      rw [Value.closures_array]
      exact List.mem_flatMap_of_mem (mem_of_item? found) member
    · cases done
  · split at done
    · cases done
      simp [Value.closures]
    · cases done
  · cases done

end Operators

end ScriptKit
