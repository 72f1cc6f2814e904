import ScriptKit.Proofs.Scope.Mapping
import ScriptKit.Proofs.Value.Renaming

/-! Renaming the frames inside a table of variables. -/

namespace ScriptKit

def Binding.rename (f : ScopeId → ScopeId) (b : Binding) : Binding :=
  { b with value := b.value.rename f }

theorem Binding.rename_congr {f g : ScopeId → ScopeId} (b : Binding)
    (same : ∀ e ∈ b.value.envs, f e = g e) : b.rename f = b.rename g := by
  simp only [Binding.rename, Value.rename_congr b.value same]

namespace SymbolTable

variable {hash : String → UInt64}

def renameSlots (f : ScopeId → ScopeId) (slots : Array (Option Binding)) : Array (Option Binding) :=
  slots.map (Option.map (Binding.rename f))

def rename (f : ScopeId → ScopeId) (t : SymbolTable hash) : SymbolTable hash :=
  { t with slots := renameSlots f t.slots }

/- A renaming is a change of values, and what holds of all of these holds of it. -/
section Commutes

variable (f : ScopeId → ScopeId)

theorem rename_empty : ({} : SymbolTable hash).rename f = {} :=
  mapValues_empty (Value.rename f)

theorem get?_rename (t : SymbolTable hash) (name : String) :
    (t.rename f).get? name = (t.get? name).map (Binding.rename f) :=
  get?_mapValues (Value.rename f) t name

theorem contains_rename (t : SymbolTable hash) (name : String) :
    (t.rename f).contains name = t.contains name :=
  contains_mapValues (Value.rename f) t name

theorem insert?_rename (t : SymbolTable hash) (b : Binding) :
    (t.rename f).insert? (b.rename f) = (t.insert? b).map (rename f) :=
  insert?_mapValues (Value.rename f) t b

theorem set_rename (t : SymbolTable hash) (name : String) (value : Value) :
    (t.rename f).set name (value.rename f) = (t.set name value).rename f :=
  set_mapValues (Value.rename f) t name value

end Commutes

section Environments

theorem mem_envs {t : SymbolTable hash} {e : ScopeId} :
    e ∈ t.envs ↔ ∃ b, some b ∈ t.slots ∧ e ∈ b.value.envs := by
  simp only [envs, List.mem_flatMap, mem_toList]

theorem rename_congr {f g : ScopeId → ScopeId} (t : SymbolTable hash)
    (same : ∀ e ∈ t.envs, f e = g e) : t.rename f = t.rename g :=
  mapValues_congr fun b member => Value.rename_congr b.value fun e inside =>
    same e (List.mem_flatMap_of_mem member inside)

theorem get?_envs {t : SymbolTable hash} {name : String} {b : Binding}
    (found : t.get? name = some b) : ∀ e ∈ b.value.envs, e ∈ t.envs := by
  intro e he
  unfold get? at found
  split at found
  · rename_i i _
    cases slot : t.slots[i]? with
    | none => simp [slot] at found
    | some s =>
      rw [slot] at found
      cases found
      exact mem_envs.mpr ⟨b, Array.mem_of_getElem? slot, he⟩
  · cases found

theorem mem_put {slots : Array (Option Binding)} {b c : Binding}
    (member : some c ∈ put hash slots b) : c = b ∨ some c ∈ slots := by
  unfold put at member
  split at member
  · rcases Array.mem_or_eq_of_mem_setIfInBounds member with old | new
    · exact .inr old
    · exact .inl (Option.some.inj new)
  · exact .inr member

theorem mem_foldl_put {slots : Array (Option Binding)} {bs : List Binding} {c : Binding}
    (member : some c ∈ bs.foldl (put hash) slots) : c ∈ bs ∨ some c ∈ slots := by
  induction bs generalizing slots with
  | nil => exact .inr member
  | cons b bs ih =>
    rcases ih member with old | new
    · exact .inl (List.mem_cons_of_mem _ old)
    · rcases mem_put new with rfl | old
      · exact .inl (by simp)
      · exact .inr old

theorem mem_grow {t : SymbolTable hash} {c : Binding} (member : some c ∈ t.grow.slots) :
    some c ∈ t.slots := by
  rcases mem_foldl_put member with old | new
  · exact mem_toList.mp old
  · simp at new

theorem insert?_envs {t grown : SymbolTable hash} {b : Binding} (done : t.insert? b = some grown) :
    ∀ e ∈ grown.envs, e ∈ b.value.envs ∨ e ∈ t.envs := by
  intro e he
  obtain ⟨c, member, inside⟩ := mem_envs.mp he
  rw [insert?_eq] at done
  split at done
  · cases done
  · cases done
    rcases mem_put member with rfl | old
    · exact .inl inside
    · right
      apply mem_envs.mpr
      refine ⟨c, ?_, inside⟩
      split at old
      · exact mem_grow old
      · exact old

theorem set_envs {t : SymbolTable hash} {name : String} {value : Value} :
    ∀ e ∈ (t.set name value).envs, e ∈ value.envs ∨ e ∈ t.envs := by
  intro e he
  unfold set at he
  split at he
  · rename_i i _
    obtain ⟨c, member, inside⟩ := mem_envs.mp he
    obtain ⟨j, bound, slot⟩ := Array.getElem_of_mem member
    simp only [Array.size_modify] at bound
    rw [Array.getElem_modify] at slot
    split at slot
    · cases old : t.slots[j] with
      | none => simp [old] at slot
      | some b =>
        rw [old] at slot
        cases slot
        exact .inl inside
    · exact .inr (mem_envs.mpr ⟨c, slot ▸ Array.getElem_mem bound, inside⟩)
  · exact .inr he

end Environments

end SymbolTable

end ScriptKit
