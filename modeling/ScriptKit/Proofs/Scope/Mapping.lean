import ScriptKit.Proofs.Scope.Failures

/-! Changing the values in a table of variables.

Slots are found by names alone, so a table behaves alike before and after. -/

namespace ScriptKit

def Binding.mapValue (g : Value → Value) (b : Binding) : Binding :=
  { b with value := g b.value }

@[simp] theorem Binding.name_mapValue (g : Value → Value) (b : Binding) :
    (b.mapValue g).name = b.name := rfl

namespace SymbolTable

variable {hash : String → UInt64} (g : Value → Value)

def mapSlots (slots : Array (Option Binding)) : Array (Option Binding) :=
  slots.map (Option.map (Binding.mapValue g))

def mapValues (t : SymbolTable hash) : SymbolTable hash :=
  { t with slots := mapSlots g t.slots }

theorem mapValues_empty : ({} : SymbolTable hash).mapValues g = {} := by
  simp only [mapValues, mapSlots, Array.map_empty]

theorem size_mapSlots (slots : Array (Option Binding)) :
    (mapSlots g slots).size = slots.size := Array.size_map

theorem getElem?_mapSlots (slots : Array (Option Binding)) (i : Nat) :
    (mapSlots g slots)[i]? = slots[i]?.map (Option.map (Binding.mapValue g)) :=
  Array.getElem?_map

theorem walk_mapValues (slots : Array (Option Binding)) (name : String) (n i : Nat) :
    Probe.walk (mapSlots g slots) name n i = Probe.walk slots name n i := by
  induction n generalizing i with
  | zero => rfl
  | succ n ih =>
    simp only [Probe.walk, getElem?_mapSlots, size_mapSlots]
    cases slots[i]? with
    | none => rfl
    | some slot =>
      cases slot with
      | none => rfl
      | some b => simp only [Option.map_some, Binding.name_mapValue, ih]

@[simp] theorem probe_mapValues (slots : Array (Option Binding)) (name : String) :
    probe hash (mapSlots g slots) name = probe hash slots name := by
  simp only [probe, size_mapSlots, walk_mapValues]

theorem get?_mapValues (t : SymbolTable hash) (name : String) :
    (t.mapValues g).get? name = (t.get? name).map (Binding.mapValue g) := by
  simp only [get?, mapValues, probe_mapValues, getElem?_mapSlots]
  cases probe hash t.slots name with
  | found i =>
    dsimp only
    cases t.slots[i]? with
    | none => rfl
    | some slot => cases slot <;> rfl
  | vacant _ | full => rfl

theorem contains_mapValues (t : SymbolTable hash) (name : String) :
    (t.mapValues g).contains name = t.contains name := by
  simp only [contains, mapValues, probe_mapValues]

theorem put_mapValues (slots : Array (Option Binding)) (b : Binding) :
    put hash (mapSlots g slots) (b.mapValue g) = mapSlots g (put hash slots b) := by
  simp only [put, probe_mapValues, Binding.name_mapValue]
  cases probe hash slots b.name with
  | vacant i =>
    simp only [mapSlots, Array.map_setIfInBounds, Option.map_some]
  | found _ | full => rfl

theorem foldl_put_mapValues (slots : Array (Option Binding)) (bs : List Binding) :
    (bs.map (Binding.mapValue g)).foldl (put hash) (mapSlots g slots) =
      mapSlots g (bs.foldl (put hash) slots) := by
  induction bs generalizing slots with
  | nil => rfl
  | cons b bs ih => simp only [List.map_cons, List.foldl_cons, put_mapValues, ih]

theorem toList_mapValues (t : SymbolTable hash) :
    (t.mapValues g).toList = t.toList.map (Binding.mapValue g) := by
  simp only [toList, mapValues, mapSlots, Array.toList_map, List.filterMap_map, List.map_filterMap]
  congr 1

theorem grow_mapValues (t : SymbolTable hash) : (t.mapValues g).grow = t.grow.mapValues g := by
  have empty : ∀ n, Array.replicate n (none : Option Binding) =
      mapSlots g (Array.replicate n none) := by
    intro n
    simp only [mapSlots, Array.map_replicate, Option.map_none]
  simp only [grow, toList_mapValues, capacity]
  rw [empty, foldl_put_mapValues]
  simp only [mapValues, size_mapSlots]

theorem insert?_mapValues (t : SymbolTable hash) (b : Binding) :
    (t.mapValues g).insert? (b.mapValue g) = (t.insert? b).map (mapValues g) := by
  simp only [insert?_eq, contains_mapValues, Binding.name_mapValue]
  have grown : (t.mapValues g).capacity * 4 < ((t.mapValues g).size + 1) * 5 ↔
      t.capacity * 4 < (t.size + 1) * 5 := by
    simp only [capacity, mapValues, size_mapSlots]
  split
  · rfl
  · simp only [grown]
    split
    · simp only [grow_mapValues, Option.map_some]
      simp only [mapValues, put_mapValues]
    · simp only [mapValues, put_mapValues, Option.map_some]

theorem set_mapValues (t : SymbolTable hash) (name : String) (value : Value) :
    (t.mapValues g).set name (g value) = (t.set name value).mapValues g := by
  simp only [set, mapValues, probe_mapValues]
  cases probe hash t.slots name with
  | found i =>
    simp only [mapSlots]
    congr 1
    apply Array.ext_getElem?
    intro j
    simp only [Array.getElem?_modify, Array.getElem?_map]
    split
    · cases t.slots[j]? with
      | none => rfl
      | some slot => cases slot <;> rfl
    · rfl
  | vacant _ | full => rfl

theorem mem_toList {t : SymbolTable hash} {b : Binding} : b ∈ t.toList ↔ some b ∈ t.slots := by
  simp [toList]

variable {g} in
theorem mapValues_congr {h : Value → Value} {t : SymbolTable hash}
    (same : ∀ b ∈ t.toList, g b.value = h b.value) : t.mapValues g = t.mapValues h := by
  simp only [mapValues, mapSlots]
  congr 1
  apply Array.map_congr_left
  intro slot member
  cases slot with
  | none => rfl
  | some b => simp only [Option.map_some, Binding.mapValue, same b (mem_toList.mpr member)]

theorem mapValues_id (t : SymbolTable hash) : t.mapValues (fun v => v) = t := by
  have bindings : Binding.mapValue (fun v => v) = id := rfl
  simp only [mapValues, mapSlots, bindings, Option.map_id, Array.map_id]

end SymbolTable

end ScriptKit
