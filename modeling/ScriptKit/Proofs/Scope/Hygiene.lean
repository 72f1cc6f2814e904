import ScriptKit.Proofs.Scope.Correspondence
import ScriptKit.Proofs.Scope.Sound

/-! What becomes of frames that are there.

A variable stays in its frame, constant or not as it was made, and a constant keeps its value. Only
the frame that a declaration names has a new variable afterwards. -/

namespace ScriptKit

namespace Frame

structure Kept (f g : Frame) : Prop where
  parent : g.parent = f.parent
  flags : ∀ x, (g.table.get? x).map (·.isConst) = (f.table.get? x).map (·.isConst)
  consts : ∀ x b, f.table.get? x = some b → b.isConst = true → g.table.get? x = some b

structure Gains (b : Binding) (f g : Frame) : Prop where
  parent : g.parent = f.parent
  new : f.table.get? b.name = none
  added : g.table.get? b.name = some b
  flags : ∀ x, x ≠ b.name → (g.table.get? x).map (·.isConst) = (f.table.get? x).map (·.isConst)
  consts : ∀ x c, f.table.get? x = some c → c.isConst = true → g.table.get? x = some c

/-- Perhaps more names, and otherwise the same as before. -/
def Grows (f g : Frame) : Prop :=
  ∀ x b, f.table.get? x = some b → ∃ b', g.table.get? x = some b' ∧ b'.isConst = b.isConst ∧
    (b.isConst = true → b' = b)

variable {f g h : Frame}

theorem Kept.refl (f : Frame) : f.Kept f :=
  ⟨rfl, fun _ => rfl, fun _ _ got _ => got⟩

theorem Kept.trans (first : f.Kept g) (second : g.Kept h) : f.Kept h where
  parent := second.parent.trans first.parent
  flags := fun x => (second.flags x).trans (first.flags x)
  consts := fun x b got constant => second.consts x b (first.consts x b got constant) constant

theorem Kept.gains {b : Binding} (first : f.Kept g) (second : g.Gains b h) : f.Gains b h where
  parent := second.parent.trans first.parent
  new := by
    have same := first.flags b.name
    rw [second.new, Option.map_none] at same
    exact Option.map_eq_none_iff.mp same.symm
  added := second.added
  flags := fun x other => (second.flags x other).trans (first.flags x)
  consts := fun x c got constant => second.consts x c (first.consts x c got constant) constant

theorem exists_of_flag {x : String} {b : Binding} (got : f.table.get? x = some b)
    (flag : (g.table.get? x).map (·.isConst) = (f.table.get? x).map (·.isConst))
    (const : b.isConst = true → g.table.get? x = some b) :
    ∃ b', g.table.get? x = some b' ∧ b'.isConst = b.isConst ∧ (b.isConst = true → b' = b) := by
  rw [got, Option.map_some] at flag
  obtain ⟨b', got', same⟩ := Option.map_eq_some_iff.mp flag
  refine ⟨b', got', same, fun constant => ?_⟩
  have still := const constant
  rw [got'] at still
  exact Option.some.inj still

theorem Kept.grows (kept : f.Kept g) : f.Grows g :=
  fun x b got => exists_of_flag got (kept.flags x) (kept.consts x b got)

theorem Gains.grows {c : Binding} (gains : f.Gains c g) : f.Grows g := by
  intro x b got
  have other : x ≠ c.name := by
    rintro rfl
    rw [gains.new] at got
    cases got
  exact exists_of_flag got (gains.flags x other) (gains.consts x b got)

theorem Grows.trans (first : f.Grows g) (second : g.Grows h) : f.Grows h := by
  intro x b got
  obtain ⟨b', got', flag, value⟩ := first x b got
  obtain ⟨b'', got'', flag', value'⟩ := second x b' got'
  refine ⟨b'', got'', flag'.trans flag, fun constant => ?_⟩
  rw [value' (flag.trans constant), value constant]

theorem kept_set (proper : f.table.Proper) {x : String} {b : Binding}
    (got : f.table.get? x = some b) (changeable : b.isConst = false) (v : Value) :
    f.Kept { f with table := f.table.set x v } where
  parent := rfl
  flags := by
    intro y
    rw [SymbolTable.get?_set proper, Option.map_map]
    apply congrArg (fun flag => (f.table.get? y).map flag)
    funext c
    simp only [Function.comp, Binding.assigned]
    split <;> rfl
  consts := by
    -- The variable that has a new value is none of the constants.
    intro y c got' constant
    rw [SymbolTable.get?_set proper, got', Option.map_some, Binding.assigned]
    split
    · rename_i same
      rw [SymbolTable.get?_name proper got'] at same
      rw [same, got] at got'
      cases got'
      rw [changeable] at constant
      cases constant
    · rfl

theorem gains_insert (proper : f.table.Proper) {b : Binding} {table : SymbolTable fnv1a}
    (inserted : f.table.insert? b = some table) : f.Gains b { f with table } := by
  have after := SymbolTable.get?_insert? proper inserted
  have new : f.table.get? b.name = none := by
    rw [← Option.not_isSome_iff_eq_none, ← SymbolTable.insert?_eq_none_iff, inserted]
    simp
  constructor
  case parent => rfl
  case new => exact new
  case added => rw [after, if_pos rfl]
  case flags =>
    intro x other
    rw [after, if_neg other]
  case consts =>
    intro x c got _
    have other : x ≠ b.name := by
      rintro rfl
      rw [new] at got
      cases got
    rw [after, if_neg other, got]

end Frame

namespace Scopes

variable {s t u : Scopes} {free : Option ScopeId}

def Tidy (s : Scopes) : Prop :=
  ∀ (i : ScopeId) (f : Frame), s.frames[i]? = some f → f.table.Proper

def Kept (free : Option ScopeId) (s t : Scopes) : Prop :=
  ∀ (i : ScopeId) (f : Frame), free ≠ some i → s.frames[i]? = some f →
    ∃ g, t.frames[i]? = some g ∧ f.Kept g

def Gains (scope : ScopeId) (b : Binding) (s t : Scopes) : Prop :=
  Kept (some scope) s t ∧ ∀ f, s.frames[scope]? = some f →
    ∃ g, t.frames[scope]? = some g ∧ f.Gains b g

def Grows (s t : Scopes) : Prop :=
  ∀ (i : ScopeId) (f : Frame), s.frames[i]? = some f → ∃ g, t.frames[i]? = some g ∧ f.Grows g

theorem Sound.tidy {funcs : Nat} (sound : s.Sound funcs) : s.Tidy :=
  fun i f found => (sound.frames i f found).proper

theorem Kept.refl (free : Option ScopeId) (s : Scopes) : Kept free s s :=
  fun _ f _ found => ⟨f, found, .refl f⟩

theorem Kept.trans (first : Kept free s t) (second : Kept free t u) : Kept free s u := by
  intro i f other found
  obtain ⟨g, found', kept⟩ := first i f other found
  obtain ⟨h, found'', kept'⟩ := second i g other found'
  exact ⟨h, found'', kept.trans kept'⟩

theorem Kept.weaken (kept : Kept none s t) (free : Option ScopeId) : Kept free s t :=
  fun i f _ found => kept i f (by simp) found

theorem Kept.gains {scope : ScopeId} {b : Binding} (first : Kept none s t)
    (second : Gains scope b t u) : Gains scope b s u := by
  refine ⟨(first.weaken _).trans second.1, fun f found => ?_⟩
  obtain ⟨g, found', kept⟩ := first scope f (by simp) found
  obtain ⟨h, found'', gains⟩ := second.2 g found'
  exact ⟨h, found'', kept.gains gains⟩

theorem Grows.refl (s : Scopes) : s.Grows s :=
  fun _ f found => ⟨f, found, (Frame.Kept.refl f).grows⟩

theorem Grows.trans (first : s.Grows t) (second : t.Grows u) : s.Grows u := by
  intro i f found
  obtain ⟨g, found', grows⟩ := first i f found
  obtain ⟨h, found'', grows'⟩ := second i g found'
  exact ⟨h, found'', grows.trans grows'⟩

theorem Kept.grows (kept : Kept none s t) : s.Grows t := by
  intro i f found
  obtain ⟨g, found', same⟩ := kept i f (by simp) found
  exact ⟨g, found', same.grows⟩

theorem Gains.grows {scope : ScopeId} {b : Binding} (gains : Gains scope b s t) : s.Grows t := by
  intro i f found
  by_cases same : scope = i
  · subst same
    obtain ⟨g, found', more⟩ := gains.2 f found
    exact ⟨g, found', more.grows⟩
  · obtain ⟨g, found', kept⟩ := gains.1 i f (fun other => same (Option.some.inj other)) found
    exact ⟨g, found', kept.grows⟩

theorem Sound.lookup?_global {funcs : Nat} (sound : s.Sound funcs) (x : String) :
    s.lookup? globalId x = s.frames[globalId]?.bind (·.table.get? x) := by
  obtain ⟨frame, here⟩ : ∃ frame, s.frames[0]? = some frame :=
    ⟨_, Array.getElem?_eq_getElem sound.positive⟩
  -- No frame is older than the global one, so it has no parent.
  have top : frame.parent = none := by
    rw [Option.eq_none_iff_forall_ne_some]
    intro p up
    exact absurd ((sound.frames 0 frame here).older p up) (Nat.not_lt_zero p)
  unfold globalId
  rw [here, Option.bind_some]
  cases got : frame.table.get? x with
  | some b => exact lookup?_here here got
  | none => exact lookup?_outermost here got top

section Update

variable {id : ScopeId} {frame : Frame} {table : SymbolTable fnv1a}

theorem Tidy.update (tidy : s.Tidy) (found : s.frames[id]? = some frame) (proper : table.Proper) :
    Tidy ⟨s.frames.setIfInBounds id { frame with table }⟩ := by
  intro i f here
  rw [getElem?_update found] at here
  split at here
  · cases here
    exact proper
  · exact tidy i f here

theorem kept_update (found : s.frames[id]? = some frame)
    (kept : free ≠ some id → frame.Kept { frame with table }) :
    Kept free s ⟨s.frames.setIfInBounds id { frame with table }⟩ := by
  intro i f other here
  rw [getElem?_update found]
  split
  · rename_i same
    subst same
    rw [found] at here
    cases here
    exact ⟨_, rfl, kept other⟩
  · exact ⟨f, here, .refl f⟩

theorem assign_eq_ok {x : String} {v : Value} (done : s.assign id x v = .ok t) :
    ∃ owner frame b, s.frames[owner]? = some frame ∧ frame.table.get? x = some b ∧
      b.isConst = false ∧
      t = ⟨s.frames.setIfInBounds owner { frame with table := frame.table.set x v }⟩ := by
  rw [assign_eq] at done
  split at done
  · cases done
  · rename_i owner _
    split at done
    · cases done
    · rename_i b got
      obtain ⟨frame, here, got⟩ := Option.bind_eq_some_iff.mp got
      split at done
      · cases done
      · rename_i changeable
        cases done
        refine ⟨owner, frame, b, here, got, Bool.eq_false_iff.mpr changeable, ?_⟩
        rw [Correspondence.modify_eq_set _ here]

theorem declare_eq_ok {b : Binding} (done : s.declare id b = .ok t) :
    ∃ frame table, s.frames[id]? = some frame ∧ frame.table.insert? b = some table ∧
      t = ⟨s.frames.setIfInBounds id { frame with table }⟩ := by
  rw [declare_eq] at done
  split at done
  · cases done
  · rename_i frame here
    split at done
    · cases done
    · rename_i table inserted
      cases done
      exact ⟨frame, table, here, inserted, rfl⟩

theorem Tidy.assign (tidy : s.Tidy) {x : String} {v : Value} (done : s.assign id x v = .ok t) :
    t.Tidy ∧ Kept none s t := by
  obtain ⟨owner, frame, b, here, got, changeable, rfl⟩ := assign_eq_ok done
  have proper := tidy owner frame here
  exact ⟨tidy.update here (SymbolTable.set_proper proper x v),
    kept_update here fun _ => Frame.kept_set proper got changeable v⟩

theorem Tidy.declare (tidy : s.Tidy) {b : Binding} (done : s.declare id b = .ok t) :
    t.Tidy ∧ Gains id b s t := by
  obtain ⟨frame, table, here, inserted, rfl⟩ := declare_eq_ok done
  have proper := tidy id frame here
  refine ⟨tidy.update here (SymbolTable.insert?_eq_some proper inserted).1,
    kept_update here fun other => absurd rfl other, fun f found => ?_⟩
  rw [here] at found
  cases found
  exact ⟨_, by rw [getElem?_update here, if_pos rfl], Frame.gains_insert proper inserted⟩

end Update

theorem Tidy.capture (tidy : s.Tidy) (id : ScopeId) :
    (s.capture id).Tidy ∧ Kept none s (s.capture id) := by
  constructor
  · intro i f here
    rw [getElem?_capture] at here
    obtain ⟨g, present, rfl⟩ := Option.map_eq_some_iff.mp here
    exact tidy i g present
  · intro i f _ here
    refine ⟨_, by rw [getElem?_capture, here]; rfl, ?_⟩
    exact ⟨rfl, fun _ => rfl, fun _ _ got _ => got⟩

theorem Tidy.push (tidy : s.Tidy) (parent : ScopeId) : (s.push parent).Tidy := by
  intro i f here
  rw [getElem?_push] at here
  split at here
  · cases here
    exact SymbolTable.proper_empty
  · exact tidy i f here

section Release

variable {mark : Nat} {v : Value}

theorem getElem?_release_of_lt {i : Nat} (below : i < mark) :
    (s.release mark v).frames[i]? = s.frames[i]? := by
  unfold release
  split
  · rfl
  · split
    · exact getElem?_shrink_of_lt (by omega)
    · have low := (keepEnd_bounds mark (s.reach mark (Array.replicate (s.frames.size - mark) false)
        (s.roots mark v))).1
      dsimp only
      rw [Array.getElem?_mapIdx, getElem?_shrink_of_lt (by omega)]
      simp [below]

theorem Tidy.release (tidy : s.Tidy) : (s.release mark v).Tidy := by
  intro i f here
  obtain ⟨old, present, rfl | rfl⟩ := getElem?_release here
  · exact tidy i f present
  · exact SymbolTable.proper_empty

end Release

end Scopes

end ScriptKit
