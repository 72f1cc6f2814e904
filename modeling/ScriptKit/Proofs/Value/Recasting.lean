import ScriptKit.Proofs.Value.Closures
import ScriptKit.Value.Printer

/-! Values with other closures in them.

A value shows its closures only by comparing them and by printing the numbers of their functions, so
every other operation on values gives the same answer before and after. -/

namespace ScriptKit

variable (g : FuncId × ScopeId → FuncId × ScopeId)

def Callable.recast : Callable → Callable
  | .builtin b => .builtin b
  | .closure func env => .closure (g (func, env)).1 (g (func, env)).2

namespace Value

mutual

def recast : Value → Value
  | .integer n => .integer n
  | .float x => .float x
  | .text s => .text s
  | .boolean b => .boolean b
  | .null => .null
  | .array items => .array (recastAll items)
  | .function h => .function (h.recast g)

def recastAll : List Value → List Value
  | [] => []
  | v :: vs => recast v :: recastAll vs

end

theorem recastAll_eq_map (vs : List Value) : recastAll g vs = vs.map (recast g) := by
  induction vs with
  | nil => rfl
  | cons v vs ih => simp only [recastAll, List.map_cons, ih]

@[simp] theorem recast_array (items : List Value) :
    (array items).recast g = array (items.map (recast g)) := by
  simp only [recast, recastAll_eq_map]

theorem closures_recast (v : Value) : (v.recast g).closures = v.closures.map g := by
  induction v using itemwise with
  | array items ih =>
    rw [recast_array, closures_array, closures_array, List.map_flatMap, List.flatMap_map]
    rw [List.flatMap_def, List.flatMap_def, List.map_congr_left ih]
  | function h => cases h <;> rfl
  | _ => rfl

variable {g} in
theorem recast_congr {h : FuncId × ScopeId → FuncId × ScopeId} (v : Value)
    (same : ∀ c ∈ v.closures, g c = h c) : v.recast g = v.recast h := by
  induction v using itemwise with
  | array items ih =>
    simp only [recast_array]
    congr 1
    apply List.map_congr_left
    intro v member
    apply ih v member
    intro c inside
    apply same
    rw [closures_array]
    exact List.mem_flatMap_of_mem member inside
  | function f =>
    cases f with
    | builtin b => rfl
    | closure func env =>
      have here : g (func, env) = h (func, env) := same _ (by simp)
      simp only [recast, Callable.recast, here]
  | _ => rfl

theorem recast_id (v : Value) : v.recast (fun c => c) = v := by
  induction v using itemwise with
  | array items ih =>
    rw [recast_array, List.map_congr_left ih, List.map_id']
  | function h => cases h <;> rfl
  | _ => rfl

variable {g} in
theorem recast_of_no_closures {v : Value} (plain : v.closures = []) : v.recast g = v := by
  rw [recast_congr v (h := fun c => c), recast_id]
  intro c member
  rw [plain] at member
  cases member

@[simp] theorem isTruthy_recast (v : Value) : (v.recast g).isTruthy = v.isTruthy := by
  cases v with
  | array items => cases items <;> rfl
  | _ => rfl

theorem reprs_eq_map (vs : List Value) : reprs vs = vs.map toRepr := by
  induction vs with
  | nil => rfl
  | cons v vs ih => cases v <;> simp only [reprs, List.map_cons, toRepr, ih]

variable {g} in
theorem toText_recast (v : Value) (funcs : ∀ c ∈ v.closures, (g c).1 = c.1) :
    (v.recast g).toText = v.toText := by
  induction v using itemwise with
  | array items ih =>
    have items_same : (items.map (recast g)).map toRepr = items.map toRepr := by
      rw [List.map_map]
      apply List.map_congr_left
      intro v member
      have inside : ∀ c ∈ v.closures, (g c).1 = c.1 := by
        intro c closure
        apply funcs
        rw [closures_array]
        exact List.mem_flatMap_of_mem member closure
      cases v with
      | text s => rfl
      | _ => exact ih _ member inside
    simp only [recast_array, toText, reprs_eq_map, items_same]
  | function h =>
    cases h with
    | builtin b => rfl
    | closure func env =>
      have number : (g (func, env)).1 = func := funcs _ (by simp)
      simp only [recast, Callable.recast, toText, number]
  | _ => rfl

variable {g}

theorem equalLists_recast {vs ws : List Value}
    (each : ∀ v ∈ vs, ∀ w ∈ ws, (v.recast g).equals (w.recast g) = v.equals w) :
    equalLists (vs.map (recast g)) (ws.map (recast g)) = equalLists vs ws := by
  induction vs generalizing ws with
  | nil => cases ws <;> rfl
  | cons v vs ih =>
    cases ws with
    | nil => rfl
    | cons w ws =>
      have first := each v (by simp) w (by simp)
      have rest := ih fun v hv w hw =>
        each v (List.mem_cons_of_mem _ hv) w (List.mem_cons_of_mem _ hw)
      simp only [List.map_cons, equalLists, first, rest]

theorem equals_recast (v w : Value)
    (apart : ∀ c ∈ v.closures, ∀ d ∈ w.closures, g c = g d → c = d) :
    (v.recast g).equals (w.recast g) = v.equals w := by
  induction v using itemwise generalizing w with
  | array items ih =>
    cases w with
    | array others =>
      simp only [recast_array, equals]
      apply equalLists_recast
      intro v hv w hw
      apply ih v hv
      intro c hc d hd same
      apply apart c _ d _ same
      · rw [closures_array]
        exact List.mem_flatMap_of_mem hv hc
      · rw [closures_array]
        exact List.mem_flatMap_of_mem hw hd
    | _ => simp [recast, equals, toFloat?]
  | function f =>
    cases w with
    | function h =>
      cases f with
      | builtin b => cases h <;> simp [recast, Callable.recast, equals]
      | closure func env =>
        cases h with
        | builtin b => simp [recast, Callable.recast, equals]
        | closure func' env' =>
          have same : g (func, env) = g (func', env') ↔ func = func' ∧ env = env' :=
            ⟨fun same => Prod.mk.inj (apart _ (by simp) _ (by simp) same),
              fun same => by rw [same.1, same.2]⟩
          simp [recast, Callable.recast, equals, ← same, Prod.ext_iff]
    | _ => simp [recast, equals, toFloat?]
  | _ => cases w <;> simp [recast, equals, toFloat?]

end Value

namespace Operators
open Value

variable {g}

theorem binary_recast (op : BinaryOp) (a b : Value)
    (apart : ∀ c ∈ a.closures, ∀ d ∈ b.closures, g c = g d → c = d) :
    binary op (a.recast g) (b.recast g) = binary op a b := by
  cases op with
  | eq => simp only [binary, equals_recast a b apart]
  | ne => simp only [binary, equals_recast a b apart]
  | _ => cases a <;> cases b <;> rfl

theorem unary_recast (op : UnaryOp) (a : Value) : unary op (a.recast g) = unary op a := by
  cases op with
  | neg => cases a <;> rfl
  | not => simp only [unary, isTruthy_recast]

theorem item?_map {α β : Type} (h : α → β) (items : List α) (i : Int64) :
    item? (items.map h) i = (item? items i).map h := by
  unfold item?
  split
  · exact List.getElem?_map
  · rfl

theorem index_recast (target i : Value) :
    index (target.recast g) (i.recast g) = (index target i).map (recast g) := by
  cases target with
  | array items =>
    cases i with
    | integer n =>
      simp only [recast, recastAll_eq_map, index, item?_map, List.length_map]
      cases item? items n <;> rfl
    | _ => rfl
  | text s =>
    cases i with
    | integer n =>
      simp only [recast, index]
      cases item? s.toList n <;> rfl
    | _ => rfl
  | _ => cases i <;> rfl

end Operators

end ScriptKit
