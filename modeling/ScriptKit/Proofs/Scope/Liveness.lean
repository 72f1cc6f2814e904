import Mathlib.Data.Set.Basic
import Mathlib.Order.Bounds.Defs
import Mathlib.Order.Interval.Set.Defs
import ScriptKit.Proofs.Scope.Chain
import ScriptKit.Proofs.Scope.Reaching
import ScriptKit.Proofs.Value.Closures

/-! Which frames are left when frames are given back, exactly.

A frame opened since the mark is live if it belongs to every set of such frames that has the frames
of the closures at hand and is closed under parents and under the closures that its members bind.
Live frames and those below the mark stay as they are. Above the last live frame all is cut off, and
the rest is emptied. -/

namespace ScriptKit

/-- A closure in the value, in arrays at any depth, was made in the frame. -/
inductive Value.Holds : Value → ScopeId → Prop where
  | closure {func : FuncId} {env : ScopeId} : Holds (.function (.closure func env)) env
  | item {items : List Value} {v : Value} {env : ScopeId} : v ∈ items → Holds v env →
      Holds (.array items) env

theorem Value.mem_envs_iff {v : Value} {e : ScopeId} : e ∈ v.envs ↔ v.Holds e := by
  constructor
  · intro member
    induction v using itemwise with
    | array items ih =>
      rw [envs_array] at member
      obtain ⟨item, inside, member⟩ := List.mem_flatMap.mp member
      exact .item inside (ih item inside member)
    | function g =>
      cases g with
      | builtin b => cases member
      | closure func env =>
        cases List.mem_singleton.mp member
        exact .closure
    | _ => cases member
  · intro holds
    induction holds with
    | closure => exact List.mem_singleton.mpr rfl
    | item inside _ ih =>
      rw [envs_array]
      exact List.mem_flatMap_of_mem inside ih

namespace Scopes

/-- A variable of the frame `id` holds a closure that was made in the frame `e`. -/
def Binds (s : Scopes) (id e : ScopeId) : Prop :=
  ∃ b ∈ s.bindings id, b.value.Holds e

def HasParent (s : Scopes) (id parent : ScopeId) : Prop :=
  ∃ f, s.frames[id]? = some f ∧ f.parent = some parent

/-- A set of frames from `mark` on that has what the result and the frames below `mark` lead to, and
what its members lead to. -/
structure Closed (s : Scopes) (mark : Nat) (result : Value) (live : Set ScopeId) : Prop where
  new : live ⊆ Set.Ico mark s.size
  result : ∀ e ∈ Set.Ico mark s.size, result.Holds e → e ∈ live
  older : ∀ id < mark, ∀ e ∈ Set.Ico mark s.size, s.Binds id e → e ∈ live
  parent : ∀ id ∈ live, ∀ p ∈ Set.Ico mark s.size, s.HasParent id p → p ∈ live
  binds : ∀ id ∈ live, ∀ e ∈ Set.Ico mark s.size, s.Binds id e → e ∈ live

structure Leaves (s : Scopes) (mark : Nat) (live : Set ScopeId) (after : Scopes) : Prop where
  size : live = ∅ ∧ after.size = mark ∨ ∃ top, IsGreatest live top ∧ after.size = top + 1
  same : ∀ id, id < mark ∨ id ∈ live → after.frames[id]? = s.frames[id]?
  emptied : ∀ id f, mark ≤ id → id ∉ live → after.frames[id]? = some f →
    ∃ old, s.frames[id]? = some old ∧ f = { table := {}, parent := old.parent, captured := false }

/-- Every closure at hand whose frame is not older than `mark` was noted in that frame. -/
def Noted (s : Scopes) (mark : Nat) (result : Value) : Prop :=
  ∀ e ∈ Set.Ico mark s.size, result.Holds e ∨ (∃ id, s.Binds id e) →
    ∃ f, s.frames[e]? = some f ∧ f.captured = true

variable {s : Scopes} {mark id e : Nat} {result : Value}

theorem binds_iff : s.Binds id e ↔ ∃ f, s.frames[id]? = some f ∧ e ∈ f.table.envs := by
  unfold Binds bindings SymbolTable.envs
  cases s.frames[id]? with
  | none => simp
  | some f => simp [List.mem_flatMap, Value.mem_envs_iff]

theorem mem_successors_iff : e ∈ s.successors id ↔ s.HasParent id e ∨ s.Binds id e := by
  unfold HasParent
  rw [binds_iff, successors]
  cases s.frames[id]? with
  | none => simp
  | some f => simp

theorem mem_roots : e ∈ s.roots mark result ↔ result.Holds e ∨ ∃ id < mark, s.Binds id e := by
  simp only [mem_roots_iff, Value.mem_envs_iff, binds_iff]

/-- A look at all closures tells whether they were noted. -/
theorem noted_iff :
    s.Noted mark result ↔ ∀ e ∈ result.envs ++ s.frames.toList.flatMap (·.table.envs),
    mark ≤ e → ∀ f ∈ s.frames[e]?, f.captured = true := by
  have held : ∀ e, e ∈ result.envs ++ s.frames.toList.flatMap (·.table.envs) ↔
      result.Holds e ∨ ∃ id, s.Binds id e := by
    intro e
    simp only [List.mem_append, Value.mem_envs_iff, List.mem_flatMap, Array.mem_toList_iff,
      Array.mem_iff_getElem?, binds_iff]
    exact or_congr_right ⟨fun ⟨f, ⟨id, found⟩, member⟩ => ⟨id, f, found, member⟩,
      fun ⟨id, f, found, member⟩ => ⟨f, ⟨id, found⟩, member⟩⟩
  simp only [held]
  constructor
  · intro noted e reached above f found
    have inside : e < s.size := (Array.getElem?_eq_some_iff.mp found).1
    obtain ⟨g, found', captured⟩ := noted e ⟨above, inside⟩ reached
    rwa [Option.some.inj (found'.symm.trans found)] at captured
  · intro each e range reached
    have inside : e < s.frames.size := range.2
    exact ⟨_, Array.getElem?_eq_getElem inside,
      each e reached range.1 _ (Array.getElem?_eq_getElem inside)⟩

instance : Decidable (s.Noted mark result) :=
  decidable_of_iff _ noted_iff.symm

section Live

def live (s : Scopes) (mark : Nat) (result : Value) : Set ScopeId :=
  {id | s.Reached mark (s.roots mark result) id}

theorem closed_live (s : Scopes) (mark : Nat) (result : Value) :
    s.Closed mark result (s.live mark result) where
  new := by
    intro id reached
    cases reached with
    | root _ above inside => exact ⟨above, inside⟩
    | next _ _ above inside => exact ⟨above, inside⟩
  result := fun e range holds => .root (mem_roots.mpr (.inl holds)) range.1 range.2
  older :=
    fun id below e range binds => .root (mem_roots.mpr (.inr ⟨id, below, binds⟩)) range.1 range.2
  parent :=
    fun id reached p range up => .next reached (mem_successors_iff.mpr (.inl up)) range.1 range.2
  binds :=
    fun id reached e range binds =>
      .next reached (mem_successors_iff.mpr (.inr binds)) range.1 range.2

/-- All frames from the mark up to some number, if nothing leads beyond it. -/
theorem closed_Ico {stop : Nat} (inside : stop ≤ s.size) (roots : ∀ e ∈ s.roots mark result, e < stop)
    (successors : ∀ id < stop, ∀ e ∈ s.successors id, e < stop) :
    s.Closed mark result (Set.Ico mark stop) where
  new := fun _ range => ⟨range.1, range.2.trans_le inside⟩
  result := fun e range holds => ⟨range.1, roots e (mem_roots.mpr (.inl holds))⟩
  older := fun id below e range binds => ⟨range.1, roots e (mem_roots.mpr (.inr ⟨id, below, binds⟩))⟩
  parent := fun id member p range up =>
    ⟨range.1, successors id member.2 p (mem_successors_iff.mpr (.inl up))⟩
  binds := fun id member e range binds =>
    ⟨range.1, successors id member.2 e (mem_successors_iff.mpr (.inr binds))⟩

theorem live_subset {other : Set ScopeId} (closed : s.Closed mark result other) :
    s.live mark result ⊆ other := by
  intro id reached
  induction reached with
  | root member above inside =>
    rcases mem_roots.mp member with holds | ⟨id, below, binds⟩
    · exact closed.result _ ⟨above, inside⟩ holds
    · exact closed.older id below _ ⟨above, inside⟩ binds
  | next _ follows above inside ih =>
    rcases mem_successors_iff.mp follows with up | binds
    · exact closed.parent _ ih _ ⟨above, inside⟩ up
    · exact closed.binds _ ih _ ⟨above, inside⟩ binds

theorem isLeast_live (s : Scopes) (mark : Nat) (result : Value) :
    IsLeast {live | s.Closed mark result live} (s.live mark result) :=
  ⟨closed_live s mark result, fun _ closed => live_subset closed⟩

end Live

section Walk

def walked (s : Scopes) (mark : Nat) (result : Value) : Array Bool :=
  s.reach mark (Array.replicate (s.size - mark) false) (s.roots mark result)

/-- Giving frames back by the walk alone, whether or not a closure was noted in any of them. -/
def releaseWalking (mark : Nat) (result : Value) (s : Scopes) : Scopes :=
  if s.size ≤ mark then s
  else
    let keep := keepEnd mark (s.walked mark result)
    ⟨(s.frames.shrink (max keep 1)).mapIdx fun i frame =>
      if i < mark ∨ keep ≤ i ∨ (s.walked mark result)[i - mark]? = some true then frame
      else { parent := frame.parent }⟩

theorem marked_walked_iff : Marked mark (s.walked mark result) id ↔ id ∈ s.live mark result :=
  marked_reach_iff

theorem keepEnd_last (mark : Nat) (seen : Array Bool) :
    keepEnd mark seen = mark ∨ ∃ last, Marked mark seen last ∧ keepEnd mark seen = last + 1 := by
  unfold keepEnd
  induction seen.size with
  | zero => exact .inl rfl
  | succ n ih =>
    rw [List.range_succ, List.foldl_append, List.foldl_cons, List.foldl_nil]
    split
    · rename_i flag
      exact .inr ⟨mark + n, ⟨Nat.le_add_right _ _, by rwa [Nat.add_sub_cancel_left]⟩, rfl⟩
    · exact ih

/-- The frames are cut off behind the last live one. -/
theorem keepEnd_live (s : Scopes) (mark : Nat) (result : Value) :
    s.live mark result = ∅ ∧ keepEnd mark (s.walked mark result) = mark ∨
      ∃ top, IsGreatest (s.live mark result) top ∧
        keepEnd mark (s.walked mark result) = top + 1 := by
  rcases keepEnd_last mark (s.walked mark result) with none | ⟨last, marked, ends⟩
  · refine .inl ⟨Set.eq_empty_iff_forall_notMem.mpr fun id reached => ?_, none⟩
    have marked : Marked mark (s.walked mark result) id := marked_walked_iff.mpr reached
    have below := marked.lt_keepEnd
    rw [none] at below
    exact absurd marked.1 (Nat.not_le.mpr below)
  · refine .inr ⟨last, ⟨marked_walked_iff.mp marked, fun id reached => ?_⟩, ends⟩
    have below := (marked_walked_iff.mpr reached).lt_keepEnd
    rw [ends] at below
    exact Nat.le_of_lt_succ below

theorem keepEnd_walked_le (below : mark ≤ s.size) :
    keepEnd mark (s.walked mark result) ≤ s.size := by
  have bound := (keepEnd_bounds mark (s.walked mark result)).2.1
  rw [walked, size_reach, Array.size_replicate] at bound
  exact bound.trans (Nat.add_sub_cancel' below).le

theorem releaseWalking_leaves (positive : 1 ≤ mark) (fewer : mark < s.size) :
    s.Leaves mark (s.live mark result) (s.releaseWalking mark result) := by
  have limit : keepEnd mark (s.walked mark result) ≤ s.size := keepEnd_walked_le fewer.le
  have low := (keepEnd_bounds mark (s.walked mark result)).1
  unfold releaseWalking
  rw [if_neg (Nat.not_le.mpr fewer)]
  dsimp only
  rw [Nat.max_eq_left (positive.trans low)]
  change s.Leaves mark (s.live mark result) (s.sweep mark (s.walked mark result))
  constructor
  case size =>
    rw [size_sweep limit]
    exact keepEnd_live s mark result
  case same =>
    intro id stays
    exact getElem?_sweep_of_stays (stays.imp_right marked_walked_iff.mpr)
  case emptied =>
    intro id f above dead found
    refine emptied_of_sweep ?_ found
    rintro (below | marked)
    · exact absurd below (Nat.not_lt.mpr above)
    · exact dead (marked_walked_iff.mp marked)

theorem live_eq_empty (noted : s.Noted mark result)
    (unnoted : s.frames.any (·.captured) mark = false) :
    s.live mark result = ∅ := by
  have outside : ∀ e ∈ Set.Ico mark s.size, ¬ (result.Holds e ∨ ∃ id, s.Binds id e) := by
    intro e range held
    obtain ⟨f, found, captured⟩ := noted e range held
    obtain ⟨inside, value⟩ := Array.getElem?_eq_some_iff.mp found
    have some_noted : s.frames.any (·.captured) mark = true :=
      Array.any_iff_exists.mpr ⟨e, inside, range.1, inside, by rw [value]; exact captured⟩
    rw [some_noted] at unnoted
    cases unnoted
  have closed : s.Closed mark result ∅ :=
    ⟨Set.empty_subset _, fun e range holds => outside e range (.inl holds),
      fun id _ e range binds => outside e range (.inr ⟨id, binds⟩), fun _ none => none.elim,
      fun _ none => none.elim⟩
  exact Set.subset_empty_iff.mp (live_subset closed)

/-- Where no closure was noted nothing is live, so that the walk cuts off the same frames. -/
theorem release_eq_releaseWalking (noted : s.Noted mark result) :
    s.release mark result = s.releaseWalking mark result := by
  unfold release releaseWalking
  refine if_congr Iff.rfl rfl ?_
  split
  · rename_i unnoted
    have dead := live_eq_empty noted (by simpa using unnoted)
    have ends : keepEnd mark (s.walked mark result) = mark := by
      rcases keepEnd_live s mark result with ⟨-, ends⟩ | ⟨top, greatest, -⟩
      · exact ends
      · rw [dead] at greatest
        exact absurd greatest.1 (Set.notMem_empty top)
    have whole : ∀ i (frame : Frame),
        (if i < mark ∨ mark ≤ i ∨ (s.walked mark result)[i - mark]? = some true
        then frame else { parent := frame.parent }) = frame :=
      fun i _ => if_pos ((Nat.lt_or_ge i mark).imp_right .inl)
    dsimp only
    rw [ends]
    congr 1
    apply Array.ext_getElem?
    intro i
    simp only [Array.getElem?_mapIdx, whole, Option.map_id']
  · rfl

end Walk

/-- Giving frames back leaves the live frames and no others, if every closure at hand was noted
where it was made. The short way, which looks only at whether any was noted, gives what the walk
gives. -/
theorem release_exact (s : Scopes) (mark : Nat) (result : Value) (positive : 1 ≤ mark)
    (noted : s.Noted mark result) :
    (s.size ≤ mark → s.release mark result = s) ∧
    (mark < s.size → ∃ live, IsLeast {live | s.Closed mark result live} live ∧
      s.Leaves mark live (s.release mark result)) ∧
    s.release mark result = s.releaseWalking mark result := by
  have same := release_eq_releaseWalking noted
  refine ⟨fun none => if_pos none,
    fun fewer => ⟨s.live mark result, isLeast_live s mark result, ?_⟩, same⟩
  rw [same]
  exact releaseWalking_leaves positive fewer

/-- A variable of the global frame reaches the frame 2 and by it its parent 1, the result reaches
the frame 4. The frame 3 is emptied, and the frame 5 is cut off. -/
theorem release_exact_gap :
    let s := build [.declare 0 ⟨"keep", .null, false⟩, .push 0, .push 1, .capture 2,
      .assign 2 "keep" (.array [.function (.closure 0 2)]), .push 0,
      .declare 3 ⟨"big", .integer 1, false⟩, .push 0, .capture 4,
      .declare 4 ⟨"self", .function (.closure 0 4), false⟩, .push 4]
    let result := Value.function (.closure 0 4)
    s.Noted 1 result ∧ 1 < s.size ∧ (s.release 1 result).size = 5 ∧
      (∃ live, IsLeast {live | s.Closed 1 result live} live ∧
        s.Leaves 1 live (s.release 1 result)) ∧
      s.release 1 result = s.releaseWalking 1 result := by
  intro s result
  have noted : s.Noted 1 result := by decide +kernel
  have fewer : 1 < s.size := by decide +kernel
  have closed : s.Closed 1 result (Set.Ico 1 5) :=
    closed_Ico (by decide +kernel) (by decide +kernel) (by decide +kernel)
  obtain ⟨-, exact, same⟩ := release_exact s 1 result (by decide) noted
  obtain ⟨live, least, leaves⟩ := exact fewer
  have fourth : 4 ∈ live := least.1.result 4 ⟨by decide, by decide +kernel⟩ .closure
  have size : (s.release 1 result).size = 5 := by
    rcases leaves.size with ⟨none, -⟩ | ⟨top, greatest, size⟩
    · rw [none] at fourth
      exact absurd fourth (Set.notMem_empty 4)
    · have low : 4 ≤ top := greatest.2 fourth
      have high : top < 5 := (least.2 closed greatest.1).2
      rw [size, Nat.le_antisymm (Nat.le_of_lt_succ high) low]
  exact ⟨noted, fewer, size, ⟨live, least, leaves⟩, same⟩

end Scopes

end ScriptKit
