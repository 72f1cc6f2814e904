import Mathlib.Data.List.Nodup
import ScriptKit.Proofs.Scope.Correspondence
import ScriptKit.Proofs.Scope.Reaching
import ScriptKit.Proofs.Scope.Sound
import ScriptKit.Proofs.Tree.Spelling

/-! Frames with other names in them.

A name decides on the slot of its variable, so under other names the slots of a table are others,
and so is the order in which its variables are gone through. What a frame answers is the same up to
the spelling, as a table is a map and as it does not matter in which order frames are come to. -/

namespace ScriptKit

variable {spell : String → String}

namespace SymbolTable

variable {hash : String → UInt64} {t t' : SymbolTable hash}

/-- Two tables in order, with the same variables up to the spelling of names, in whatever slots. -/
structure Respelled (spell : String → String) (t t' : SymbolTable hash) : Prop where
  proper : t.Proper
  proper' : t'.Proper
  bindings : t'.toList.Perm (t.toList.map (Binding.respell spell))

theorem respelled_empty : Respelled spell ({} : SymbolTable hash) {} :=
  ⟨proper_empty, proper_empty, .nil⟩

theorem Respelled.mem_envs (same : Respelled spell t t') (e : ScopeId) :
    e ∈ t'.envs ↔ e ∈ t.envs := by
  simp only [envs, List.mem_flatMap, same.bindings.mem_iff, List.mem_map]
  constructor
  · rintro ⟨_, ⟨b, member, rfl⟩, inside⟩
    exact ⟨b, member, inside⟩
  · rintro ⟨b, member, inside⟩
    exact ⟨b.respell spell, ⟨b, member, rfl⟩, inside⟩

section Injective

variable (injective : Function.Injective spell)
include injective

theorem Respelled.get? (same : Respelled spell t t') (x : String) :
    t'.get? (spell x) = (t.get? x).map (Binding.respell spell) := by
  ext c
  rw [get?_eq_some_iff same.proper', same.bindings.mem_iff, List.mem_map, Option.map_eq_some_iff]
  simp only [get?_eq_some_iff same.proper]
  constructor
  · rintro ⟨⟨b, member, rfl⟩, name⟩
    exact ⟨b, ⟨member, injective name⟩, rfl⟩
  · rintro ⟨b, ⟨member, rfl⟩, rfl⟩
    exact ⟨⟨b, member, rfl⟩, rfl⟩

theorem Respelled.insert? (same : Respelled spell t t') (b : Binding) :
    Option.Rel (Respelled spell) (t.insert? b) (t'.insert? (b.respell spell)) := by
  have taken : (t'.get? (spell b.name)).isSome = (t.get? b.name).isSome := by
    rw [same.get? injective, Option.isSome_map]
  have refused : t'.insert? (b.respell spell) = none ↔ t.insert? b = none := by
    rw [insert?_eq_none_iff, insert?_eq_none_iff, ← taken]
    rfl
  cases done : t.insert? b with
  | none =>
    rw [refused.mpr done]
    exact .none
  | some grown =>
    cases done' : t'.insert? (b.respell spell) with
    | none => exact absurd (refused.mp done') (by simp [done])
    | some grown' =>
      obtain ⟨proper, perm⟩ := insert?_eq_some same.proper done
      obtain ⟨proper', perm'⟩ := insert?_eq_some same.proper' done'
      refine .some ⟨proper, proper', ?_⟩
      calc grown'.toList
        _ |>.Perm (b.respell spell :: t'.toList) := perm'
        _ |>.Perm ((b :: t.toList).map (Binding.respell spell)) := same.bindings.cons _
        _ |>.Perm (grown.toList.map (Binding.respell spell)) := (perm.map _).symm

theorem Respelled.set (same : Respelled spell t t') (x : String) (v : Value) :
    Respelled spell (t.set x v) (t'.set (spell x) v) where
  proper := set_proper same.proper x v
  proper' := set_proper same.proper' (spell x) v
  bindings := by
    have each : Binding.assigned (spell x) v ∘ Binding.respell spell =
        Binding.respell spell ∘ Binding.assigned x v := by
      funext b
      simp only [Function.comp, Binding.assigned, Binding.respell, injective.eq_iff]
      split <;> rfl
    rw [toList_set same.proper, toList_set same.proper', List.map_map, ← each, ← List.map_map]
    exact same.bindings.map _

end Injective

/-- The variables by their other names, put anew into as many slots. -/
def respell (spell : String → String) (t : SymbolTable hash) : SymbolTable hash :=
  { t with
    slots := (t.toList.map (Binding.respell spell)).foldl (put hash) (.replicate t.capacity none) }

theorem respelled_respell (injective : Function.Injective spell) (proper : t.Proper) :
    Respelled spell t (t.respell spell) := by
  have load := proper.load
  have count := proper.size
  have empty : occupants (Array.replicate t.capacity none) = [] := by simp [occupants]
  have room : (occupants (Array.replicate t.capacity none)).length +
      (t.toList.map (Binding.respell spell)).length <
        (Array.replicate t.capacity (none : Option Binding)).size + 1 := by
    rw [empty, List.length_map, Array.size_replicate, List.length_nil]
    omega
  have distinct : ((t.toList.map (Binding.respell spell) ++
      occupants (Array.replicate t.capacity none)).map (·.name)).Nodup := by
    have names := proper.settled.distinct.map injective
    rw [List.map_map] at names
    rw [empty, List.append_nil, List.map_map]
    exact names
  have power : (Array.replicate t.capacity (none : Option Binding)).size ≠ 0 →
      (Array.replicate t.capacity (none : Option Binding)).size.isPowerOfTwo := by
    rw [Array.size_replicate]
    exact fun some_slots => (proper.capacity.resolve_left some_slots).2
  obtain ⟨settled, perm, size⟩ := foldl_put (t.toList.map (Binding.respell spell))
    (settled_replicate hash t.capacity) power room distinct
  rw [empty, List.append_nil] at perm
  have capacity : (t.respell spell).capacity = t.capacity := size.trans Array.size_replicate
  refine ⟨proper, ⟨settled, ?_, ?_, ?_⟩, perm⟩
  · rw [toList_eq, show (t.respell spell).size = t.size from rfl, count]
    exact (List.length_map ..).symm.trans perm.length_eq.symm
  · rw [capacity]
    exact load
  · rw [capacity]
    exact proper.capacity

end SymbolTable

structure Frame.Respelled (spell : String → String) (f f' : Frame) : Prop where
  parent : f'.parent = f.parent
  captured : f'.captured = f.captured
  table : f.table.Respelled spell f'.table

namespace Scopes

variable {s s' : Scopes}

def Respelled (spell : String → String) (s s' : Scopes) : Prop :=
  ∀ i : ScopeId, Option.Rel (Frame.Respelled spell) s.frames[i]? s'.frames[i]?

theorem Respelled.at (same : Respelled spell s s') (i : ScopeId) :
    s.frames[i]? = none ∧ s'.frames[i]? = none ∨
      ∃ f f', s.frames[i]? = some f ∧ s'.frames[i]? = some f' ∧ f.Respelled spell f' := by
  have here := same i
  generalize s.frames[i]? = a at here ⊢
  generalize s'.frames[i]? = b at here ⊢
  cases here with
  | none => exact .inl ⟨rfl, rfl⟩
  | some frame => exact .inr ⟨_, _, rfl, rfl, frame⟩

theorem Respelled.size (same : Respelled spell s s') : s'.size = s.size := by
  have ends : ∀ i : ScopeId, s.size ≤ i ↔ s'.size ≤ i := by
    intro i
    rw [Scopes.size, Scopes.size, ← Array.getElem?_eq_none_iff, ← Array.getElem?_eq_none_iff]
    rcases same.at i with ⟨here, there⟩ | ⟨f, f', here, there, -⟩
    · rw [here, there]
    · rw [here, there]
      simp
  exact Nat.le_antisymm ((ends s.size).mp (Nat.le_refl _)) ((ends s'.size).mpr (Nat.le_refl _))

theorem Respelled.update (same : Respelled spell s s') (id : ScopeId) {f f' : Frame}
    (frame : f.Respelled spell f') :
    Respelled spell ⟨s.frames.setIfInBounds id f⟩ ⟨s'.frames.setIfInBounds id f'⟩ := by
  have size : s'.frames.size = s.frames.size := same.size
  intro i
  simp only [Array.getElem?_setIfInBounds, size]
  split
  · split
    · exact .some frame
    · exact .none
  · exact same i

section Lookup

variable (injective : Function.Injective spell)
include injective

theorem Respelled.owner? (same : Respelled spell s s') (x : String) (id : ScopeId) :
    s'.owner? (spell x) id = s.owner? x id := by
  induction id using Nat.strongRecOn with
  | ind id ih =>
    rw [Scopes.owner?, Scopes.owner?]
    rcases same.at id with ⟨here, there⟩ | ⟨f, f', here, there, frame⟩
    · rw [here, there]
    · simp only [here, there, SymbolTable.contains_eq, frame.table.get? injective,
        Option.isSome_map, frame.parent]
      cases f.parent with
      | none => rfl
      | some p =>
        by_cases older : p < id
        · simp only [older, if_true, ih p older]
        · simp only [older, if_false]

theorem Respelled.lookup? (same : Respelled spell s s') (id : ScopeId) (x : String) :
    s'.lookup? id (spell x) = (s.lookup? id x).map (Binding.respell spell) := by
  simp only [Scopes.lookup?, same.owner? injective]
  cases s.owner? x id with
  | none => rfl
  | some owner =>
    rcases same.at owner with ⟨here, there⟩ | ⟨f, f', here, there, frame⟩
    · simp [here, there]
    · simp [here, there, frame.table.get? injective]

theorem Respelled.resolve? (same : Respelled spell s s') (id : ScopeId) (x : String) :
    s'.resolve? id (spell x) = s.resolve? id x := by
  rw [Scopes.resolve?, Scopes.resolve?, same.lookup? injective, Option.map_map]
  rfl

def SameChange (spell : String → String) :
    Except ScopeError Scopes → Except ScopeError Scopes → Prop
  | .ok s, .ok s' => Respelled spell s s'
  | .error e, .error e' => e = e'
  | _, _ => False

theorem Respelled.declare (same : Respelled spell s s') (id : ScopeId) (b : Binding) :
    SameChange spell (s.declare id b) (s'.declare id (b.respell spell)) := by
  rw [Scopes.declare_eq, Scopes.declare_eq]
  rcases same.at id with ⟨here, there⟩ | ⟨f, f', here, there, frame⟩
  · rw [here, there]
    rfl
  · simp only [here, there]
    have inserted := frame.table.insert? injective b
    generalize f.table.insert? b = grown at inserted
    generalize f'.table.insert? (b.respell spell) = grown' at inserted
    cases inserted with
    | none => rfl
    | some table => exact same.update id ⟨frame.parent, frame.captured, table⟩

theorem Respelled.assign (same : Respelled spell s s') (id : ScopeId) (x : String) (v : Value) :
    SameChange spell (s.assign id x v) (s'.assign id (spell x) v) := by
  rw [Scopes.assign_eq, Scopes.assign_eq]
  rw [same.owner? injective]
  cases s.owner? x id with
  | none => rfl
  | some owner =>
    rcases same.at owner with ⟨here, there⟩ | ⟨f, f', here, there, frame⟩
    · simp only [here, there]
      rfl
    · simp only [here, there, Option.bind_some, frame.table.get? injective]
      cases f.table.get? x with
      | none => rfl
      | some b =>
        simp only [Option.map_some, Binding.respell]
        split
        · rfl
        · rw [Correspondence.modify_eq_set _ here, Correspondence.modify_eq_set _ there]
          exact same.update owner ⟨frame.parent, frame.captured, frame.table.set injective x v⟩

end Lookup

theorem Respelled.capture (same : Respelled spell s s') (id : ScopeId) :
    Respelled spell (s.capture id) (s'.capture id) := by
  intro i
  rw [getElem?_capture, getElem?_capture]
  rcases same.at i with ⟨here, there⟩ | ⟨f, f', here, there, frame⟩
  · rw [here, there]
    exact .none
  · rw [here, there]
    exact .some ⟨frame.parent, by simp only [frame.captured], frame.table⟩

theorem Respelled.push (same : Respelled spell s s') (parent : ScopeId) :
    Respelled spell (s.push parent) (s'.push parent) := by
  intro i
  rw [getElem?_push, getElem?_push, same.size]
  split
  · exact .some ⟨rfl, rfl, SymbolTable.respelled_empty⟩
  · exact same i

def respell (spell : String → String) (s : Scopes) : Scopes :=
  ⟨s.frames.map fun f => { f with table := f.table.respell spell }⟩

theorem respelled_respell (injective : Function.Injective spell)
    (proper : ∀ (i : ScopeId) (f : Frame), s.frames[i]? = some f → f.table.Proper) :
    Respelled spell s (s.respell spell) := by
  intro i
  rw [respell, Array.getElem?_map]
  cases found : s.frames[i]? with
  | none => exact .none
  | some f => exact .some ⟨rfl, rfl, SymbolTable.respelled_respell injective (proper i f found)⟩

section Release

theorem Respelled.shrink (same : Respelled spell s s') (n : Nat) :
    Respelled spell ⟨s.frames.shrink n⟩ ⟨s'.frames.shrink n⟩ := by
  intro i
  simp only [getElem?_shrink]
  split
  · exact same i
  · exact .none

theorem Respelled.emptying (same : Respelled spell s s') (keep : Nat → Prop) [DecidablePred keep] :
    Respelled spell ⟨s.frames.mapIdx fun i frame => if keep i
      then frame else { parent := frame.parent }⟩
      ⟨s'.frames.mapIdx fun i frame => if keep i then frame else { parent := frame.parent }⟩ := by
  intro i
  simp only [Array.getElem?_mapIdx]
  rcases same.at i with ⟨here, there⟩ | ⟨f, f', here, there, frame⟩
  · rw [here, there]
    exact .none
  · rw [here, there]
    apply Option.Rel.some
    split
    · exact frame
    · exact ⟨frame.parent, rfl, SymbolTable.respelled_empty⟩

theorem any_captured_iff (s : Scopes) (mark : Nat) :
    s.frames.any (·.captured) mark = true ↔ ∃ i : ScopeId, mark ≤ i ∧ s.IsHome i := by
  simp only [Array.any_iff_exists, IsHome, Array.getElem?_eq_some_iff]
  constructor
  · rintro ⟨i, inside, above, -, noted⟩
    exact ⟨i, above, _, ⟨inside, rfl⟩, noted⟩
  · rintro ⟨i, above, _, ⟨inside, rfl⟩, noted⟩
    exact ⟨i, inside, above, inside, noted⟩

theorem Respelled.isHome (same : Respelled spell s s') (i : ScopeId) :
    s'.IsHome i ↔ s.IsHome i := by
  rcases same.at i with ⟨here, there⟩ | ⟨f, f', here, there, frame⟩
  · simp [IsHome, here, there]
  · simp [IsHome, here, there, frame.captured]

theorem Respelled.mem_successors (same : Respelled spell s s') (id e : ScopeId) :
    e ∈ s'.successors id ↔ e ∈ s.successors id := by
  unfold successors
  rcases same.at id with ⟨here, there⟩ | ⟨f, f', here, there, frame⟩
  · rw [here, there]
  · simp only [here, there, List.mem_append, frame.parent, frame.table.mem_envs]

theorem Respelled.mem_roots (same : Respelled spell s s') (mark : Nat) (result : Value)
    (e : ScopeId) :
    e ∈ s'.roots mark result ↔ e ∈ s.roots mark result := by
  rw [mem_roots_iff, mem_roots_iff]
  apply or_congr_right
  apply exists_congr
  intro i
  apply and_congr_right
  intro _
  rcases same.at i with ⟨here, there⟩ | ⟨f, f', here, there, frame⟩
  · simp [here, there]
  · simp [here, there, frame.table.mem_envs]

/-- The slots of the tables decide in which order frames are come to, and not which ones are. -/
theorem Respelled.release (same : Respelled spell s s') (mark : Nat) (result : Value) :
    Respelled spell (s.release mark result) (s'.release mark result) := by
  have size : s'.frames.size = s.frames.size := same.size
  have noted : s'.frames.any (·.captured) mark = s.frames.any (·.captured) mark := by
    rw [Bool.eq_iff_iff, any_captured_iff, any_captured_iff]
    simp only [same.isHome]
  have seen : s'.reach mark (Array.replicate (s'.frames.size - mark) false) (s'.roots mark result) =
      s.reach mark (Array.replicate (s.frames.size - mark) false) (s.roots mark result) :=
    reach_congr same.size same.mem_successors (same.mem_roots mark result)
  unfold Scopes.release
  rw [noted, seen, size]
  split
  · exact same
  · split
    · exact same.shrink _
    · exact (same.shrink _).emptying _

end Release

end Scopes

end ScriptKit
