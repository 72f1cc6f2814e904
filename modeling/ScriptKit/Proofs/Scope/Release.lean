import ScriptKit.Scope.Release

/-! What stays when frames are given back.

The walk from the roots ends in a set that contains the roots and whatever its members refer to. So
nothing that can still be come to is lost, in the short way as in the long one. -/

namespace ScriptKit.Scopes

def Marked (mark : Nat) (seen : Array Bool) (id : ScopeId) : Prop :=
  mark ≤ id ∧ seen[id - mark]? = some true

theorem Marked.set {mark : Nat} {seen : Array Bool} {id : ScopeId} (i : Nat)
    (marked : Marked mark seen id) : Marked mark (seen.setIfInBounds i true) id := by
  refine ⟨marked.1, ?_⟩
  have inside := (Array.getElem?_eq_some_iff.mp marked.2).1
  rw [Array.getElem?_setIfInBounds]
  split
  · rename_i same
    rw [if_pos (same ▸ inside)]
  · exact marked.2

theorem marked_set_self {mark : Nat} {seen : Array Bool} {id : ScopeId} (above : mark ≤ id)
    (inside : id - mark < seen.size) : Marked mark (seen.setIfInBounds (id - mark) true) id := by
  refine ⟨above, ?_⟩
  rw [Array.getElem?_setIfInBounds_self, if_pos inside]

theorem marked_of_set {mark : Nat} {seen : Array Bool} {id other : ScopeId} (above : mark ≤ id)
    (marked : Marked mark (seen.setIfInBounds (id - mark) true) other) :
    other = id ∨ Marked mark seen other := by
  obtain ⟨above', value⟩ := marked
  by_cases same : id - mark = other - mark
  · left
    rw [← Nat.sub_add_cancel above', ← same, Nat.sub_add_cancel above]
  · rw [Array.getElem?_setIfInBounds_ne same] at value
    exact .inr ⟨above', value⟩

theorem marked_of_known {mark : Nat} {seen : Array Bool} {id : ScopeId} (above : mark ≤ id)
    (inside : id - mark < seen.size) (known : ¬ (mark ≤ id ∧ seen[id - mark]? = some false)) :
    Marked mark seen id := by
  refine ⟨above, ?_⟩
  rw [Array.getElem?_eq_getElem inside] at known ⊢
  cases flag : seen[id - mark] with
  | true => rfl
  | false => exact absurd ⟨above, by rw [flag]⟩ known

theorem not_marked_replicate {mark n : Nat} {id : ScopeId} :
    ¬ Marked mark (Array.replicate n false) id := by
  rintro ⟨-, flag⟩
  rw [Array.getElem?_replicate] at flag
  split at flag <;> cases flag

theorem size_reach (s : Scopes) (mark : Nat) (seen : Array Bool) (pending : List ScopeId) :
    (s.reach mark seen pending).size = seen.size := by
  fun_induction reach s mark seen pending with
  | case1 => rfl
  | case2 seen id rest _ ih => rw [ih, Array.size_setIfInBounds]
  | case3 seen id rest _ ih => exact ih

theorem Marked.reach {s : Scopes} {mark : Nat} {seen : Array Bool} {pending : List ScopeId}
    {id : ScopeId} (marked : Marked mark seen id) : Marked mark (s.reach mark seen pending) id := by
  fun_induction Scopes.reach s mark seen pending with
  | case1 => exact marked
  | case2 seen next rest _ ih => exact ih (marked.set _)
  | case3 seen next rest _ ih => exact ih marked

theorem reach_pending {s : Scopes} {mark : Nat} {seen : Array Bool} {pending : List ScopeId}
    {id : ScopeId} (waits : id ∈ pending) (above : mark ≤ id) (inside : id - mark < seen.size) :
    Marked mark (s.reach mark seen pending) id := by
  fun_induction reach s mark seen pending with
  | case1 => cases waits
  | case2 seen next rest fresh ih =>
    rcases List.mem_cons.mp waits with rfl | later
    · exact (marked_set_self above inside).reach
    · exact ih (List.mem_append_right _ later) (by rw [Array.size_setIfInBounds]; exact inside)
  | case3 seen next rest known ih =>
    rcases List.mem_cons.mp waits with rfl | later
    · exact (marked_of_known above inside known).reach
    · exact ih later inside

/-- Whatever a marked frame refers to is marked too or waits to be looked at. -/
def Covered (s : Scopes) (mark : Nat) (seen : Array Bool) (pending : List ScopeId) : Prop :=
  ∀ id, Marked mark seen id → ∀ next ∈ s.successors id, mark ≤ next → next - mark < seen.size →
    Marked mark seen next ∨ next ∈ pending

theorem reach_covered {s : Scopes} {mark : Nat} {seen : Array Bool} {pending : List ScopeId}
    (covered : Covered s mark seen pending) : Covered s mark (s.reach mark seen pending) [] := by
  -- A frame that gets marked puts its successors on the list, so none is forgotten.
  fun_induction reach s mark seen pending with
  | case1 => exact covered
  | case2 seen id rest fresh ih =>
    apply ih
    intro other marked next follows above inside
    rw [Array.size_setIfInBounds] at inside
    rcases marked_of_set fresh.1 marked with rfl | old
    · exact .inr (List.mem_append_left _ follows)
    · rcases covered other old next follows above inside with known | waits
      · exact .inl (known.set _)
      · rcases List.mem_cons.mp waits with rfl | later
        · exact .inl (marked_set_self above inside)
        · exact .inr (List.mem_append_right _ later)
  | case3 seen id rest known ih =>
    apply ih
    intro other marked next follows above inside
    rcases covered other marked next follows above inside with known' | waits
    · exact .inl known'
    · rcases List.mem_cons.mp waits with rfl | later
      · exact .inl (marked_of_known above inside known)
      · exact .inr later

theorem keepEnd_bounds (mark : Nat) (seen : Array Bool) :
    mark ≤ keepEnd mark seen ∧ keepEnd mark seen ≤ mark + seen.size ∧
      ∀ i < seen.size, seen[i]? = some true → mark + i < keepEnd mark seen := by
  unfold keepEnd
  induction seen.size with
  | zero => exact ⟨Nat.le_refl _, Nat.le_refl _, fun i inside => absurd inside (Nat.not_lt_zero i)⟩
  | succ n ih =>
    rw [List.range_succ, List.foldl_append, List.foldl_cons, List.foldl_nil]
    split
    · exact ⟨by omega, by omega, fun i inside _ => by omega⟩
    · rename_i unseen
      refine ⟨ih.1, by omega, fun i inside flag => ?_⟩
      have earlier : i < n := by
        rcases Nat.lt_succ_iff_lt_or_eq.mp inside with earlier | rfl
        · exact earlier
        · exact absurd flag unseen
      exact ih.2.2 i earlier flag

theorem getElem?_shrink {α : Type} (xs : Array α) (n i : Nat) :
    (xs.shrink n)[i]? = if i < n then xs[i]? else none := by
  rw [← Array.getElem?_toList, Array.toList_shrink, List.getElem?_take, Array.getElem?_toList]

theorem getElem?_shrink_of_lt {α : Type} {xs : Array α} {n i : Nat} (inside : i < n) :
    (xs.shrink n)[i]? = xs[i]? := by
  rw [getElem?_shrink, if_pos inside]

/-- A frame that is left was there before, and is as it was or has lost its variables. -/
theorem getElem?_release {s : Scopes} {mark i : Nat} {result : Value} {f : Frame}
    (left : (s.release mark result).frames[i]? = some f) :
    ∃ old, s.frames[i]? = some old ∧ (f = old ∨ f = { parent := old.parent }) := by
  have shrunk : ∀ n g, (s.frames.shrink n)[i]? = some g → s.frames[i]? = some g := by
    intro n g here
    rw [getElem?_shrink] at here
    split at here
    · exact here
    · cases here
  unfold release at left
  split at left
  · exact ⟨f, left, .inl rfl⟩
  · split at left
    · exact ⟨f, shrunk _ f left, .inl rfl⟩
    · dsimp only at left
      rw [Array.getElem?_mapIdx] at left
      obtain ⟨old, present, rfl⟩ := Option.map_eq_some_iff.mp left
      refine ⟨old, shrunk _ old present, ?_⟩
      split
      · exact .inl rfl
      · exact .inr rfl

theorem mem_roots_iff (s : Scopes) (mark : Nat) (result : Value) (e : ScopeId) :
    e ∈ s.roots mark result ↔ e ∈ result.envs ∨
      ∃ i < mark, ∃ frame, s.frames[i]? = some frame ∧ e ∈ frame.table.envs := by
  rw [roots, List.mem_append, List.mem_flatMap, ← Array.shrink_eq_take]
  apply or_congr_right
  simp only [Array.mem_toList_iff, Array.mem_iff_getElem?, getElem?_shrink]
  constructor
  · rintro ⟨frame, ⟨i, found⟩, member⟩
    split at found
    · rename_i early
      exact ⟨i, early, frame, found, member⟩
    · cases found
  · rintro ⟨i, early, frame, found, member⟩
    exact ⟨frame, ⟨i, by rw [if_pos early, found]⟩, member⟩

theorem mem_roots_of_below {s : Scopes} {mark : Nat} {result : Value} {id e : ScopeId}
    {frame : Frame} (below : id < mark) (found : s.frames[id]? = some frame)
    (member : e ∈ frame.table.envs) :
    e ∈ s.roots mark result :=
  (mem_roots_iff s mark result e).mpr (.inr ⟨id, below, frame, found, member⟩)

/-- What is left as it was when frames are given back. `kept` holds of the frames below the mark,
and of every frame that the result or a kept frame refers to. All other frames are gone or empty. -/
structure Keeps (s after : Scopes) (mark : Nat) (result : Value) (kept : ScopeId → Prop) :
    Prop where
  below : ∀ id < mark, kept id
  size_ge : mark ≤ after.size
  size_le : after.size ≤ s.size
  same : ∀ id, kept id → after.frames[id]? = s.frames[id]?
  emptied : ∀ id frame, ¬ kept id → after.frames[id]? = some frame →
    ∃ old, s.frames[id]? = some old ∧ frame = { parent := old.parent }
  result : ∀ e ∈ result.envs, kept e
  envs : ∀ id frame, kept id → s.frames[id]? = some frame →
    ∀ e ∈ frame.table.envs, e < s.size → kept e
  parent : ∀ id frame, mark ≤ id → kept id → s.frames[id]? = some frame →
    ∀ p ∈ frame.parent, p < s.size → kept p

/-- Frames opened since the mark are all cut off. -/
theorem keeps_cut {s : Scopes} {mark : Nat} {result : Value} (below : mark ≤ s.size)
    (old : ∀ e ∈ s.roots mark result, e < mark) :
    Keeps s ⟨s.frames.shrink mark⟩ mark result (· < mark) where
  below := fun _ h => h
  size_ge := by
    simp only [size, Array.size_shrink]
    exact Nat.le_min.mpr ⟨Nat.le_refl _, below⟩
  size_le := by
    simp only [size, Array.size_shrink]
    exact Nat.min_le_right _ _
  same := fun id inside => getElem?_shrink_of_lt inside
  emptied := by
    intro id frame outside found
    have inside := (Array.getElem?_eq_some_iff.mp found).1
    rw [Array.size_shrink] at inside
    exact absurd (Nat.lt_of_lt_of_le inside (Nat.min_le_left _ _)) outside
  result := fun e member => old e (List.mem_append_left _ member)
  envs := fun id frame inside found e member _ => old e (mem_roots_of_below inside found member)
  parent := fun id _ above inside => absurd inside (Nat.not_lt.mpr above)

section Sweep

variable {s : Scopes} {mark : Nat} {seen : Array Bool} {id : ScopeId}

/-- A frame that is needed: one below the mark, or one that the walk came to. -/
def Stays (mark : Nat) (seen : Array Bool) (id : ScopeId) : Prop :=
  id < mark ∨ Marked mark seen id

theorem stays_of_marked (walk : mark ≤ id → Marked mark seen id) : Stays mark seen id := by
  rcases Nat.lt_or_ge id mark with old | new
  · exact .inl old
  · exact .inr (walk new)

theorem Marked.lt_keepEnd (marked : Marked mark seen id) : id < keepEnd mark seen := by
  have inside := (Array.getElem?_eq_some_iff.mp marked.2).1
  have before := (keepEnd_bounds mark seen).2.2 (id - mark) inside marked.2
  rwa [Nat.add_sub_cancel' marked.1] at before

theorem Stays.lt_keepEnd (stays : Stays mark seen id) : id < keepEnd mark seen := by
  rcases stays with old | marked
  · exact Nat.lt_of_lt_of_le old (keepEnd_bounds mark seen).1
  · exact marked.lt_keepEnd

theorem Covered.stays (covered : Covered s mark seen []) (length : seen.size = s.size - mark)
    (marked : Marked mark seen id) {e : ScopeId} (follows : e ∈ s.successors id)
    (inside : e < s.size) :
    Stays mark seen e := by
  apply stays_of_marked
  intro new
  have range : e - mark < seen.size := length ▸ Nat.sub_lt_sub_right new inside
  rcases covered id marked e follows new range with known | waits
  · exact known
  · cases waits

/-- The frames when those that are not needed are cut off or emptied. -/
def sweep (s : Scopes) (mark : Nat) (seen : Array Bool) : Scopes :=
  ⟨(s.frames.shrink (keepEnd mark seen)).mapIdx fun i frame =>
    if i < mark ∨ keepEnd mark seen ≤ i ∨ seen[i - mark]? = some true then frame
    else { parent := frame.parent }⟩

theorem size_sweep (limit : keepEnd mark seen ≤ s.size) :
    (s.sweep mark seen).size = keepEnd mark seen := by
  simp only [size, sweep, Array.size_mapIdx, Array.size_shrink]
  exact Nat.min_eq_left limit

theorem getElem?_sweep_of_stays (stays : Stays mark seen id) :
    (s.sweep mark seen).frames[id]? = s.frames[id]? := by
  have whole : id < mark ∨ keepEnd mark seen ≤ id ∨ seen[id - mark]? = some true :=
    stays.imp_right fun marked => .inr marked.2
  simp only [sweep, Array.getElem?_mapIdx, getElem?_shrink_of_lt stays.lt_keepEnd, if_pos whole,
    Option.map_id']

theorem emptied_of_sweep {frame : Frame} (lost : ¬ Stays mark seen id)
    (found : (s.sweep mark seen).frames[id]? = some frame) :
    ∃ old, s.frames[id]? = some old ∧ frame = { parent := old.parent } := by
  have inside : id < keepEnd mark seen := by
    have present := (Array.getElem?_eq_some_iff.mp found).1
    simp only [sweep, Array.size_mapIdx, Array.size_shrink] at present
    exact Nat.lt_of_lt_of_le present (Nat.min_le_left _ _)
  simp only [sweep] at found
  rw [Array.getElem?_mapIdx, getElem?_shrink_of_lt inside] at found
  obtain ⟨old, present, rfl⟩ := Option.map_eq_some_iff.mp found
  refine ⟨old, present, if_neg ?_⟩
  rintro (early | late | flag)
  · exact lost (.inl early)
  · exact absurd inside (Nat.not_lt.mpr late)
  · exact lost (stays_of_marked fun above => ⟨above, flag⟩)

/-- The frames that the walk came to stay, and the rest is cut off or emptied. -/
theorem keeps_sweep {result : Value} (below : mark ≤ s.size) (length : seen.size = s.size - mark)
    (rooted : ∀ e ∈ s.roots mark result, mark ≤ e → Marked mark seen e)
    (covered : Covered s mark seen []) :
    Keeps s (s.sweep mark seen) mark result (Stays mark seen) := by
  obtain ⟨low, high, -⟩ := keepEnd_bounds mark seen
  have size := size_sweep (show keepEnd mark seen ≤ s.size by omega)
  constructor
  case below => exact fun id old => .inl old
  case size_ge => omega
  case size_le => omega
  case same => exact fun id stays => getElem?_sweep_of_stays stays
  case emptied => exact fun id frame lost found => emptied_of_sweep lost found
  case result => exact fun e member => stays_of_marked (rooted e (List.mem_append_left _ member))
  case envs =>
    rintro id frame (old | marked) found e member inside
    · exact stays_of_marked (rooted e (mem_roots_of_below old found member))
    · apply covered.stays length marked _ inside
      simpa only [successors, found] using List.mem_append_right _ member
  case parent =>
    rintro id frame above (old | marked) found p member inside
    · exact absurd old (Nat.not_lt.mpr above)
    · apply covered.stays length marked _ inside
      simpa only [successors, found] using List.mem_append_left _ (Option.mem_toList.mpr member)

end Sweep

/-- Giving frames back keeps all that the result and the older frames can come to, provided that
every closure among them was noted in its frame. -/
theorem release_keeps {s : Scopes} {mark : Nat} {result : Value} (positive : 0 < mark)
    (below : mark ≤ s.size)
    (captured : ∀ e ∈ s.roots mark result, ∃ frame, s.frames[e]? = some frame ∧
      frame.captured = true) :
    ∃ kept, Keeps s (s.release mark result) mark result kept := by
  have present : ∀ e ∈ s.roots mark result, e < s.size := by
    intro e member
    obtain ⟨frame, found, _⟩ := captured e member
    exact (Array.getElem?_eq_some_iff.mp found).1
  unfold release
  split
  · rename_i small
    have equal : s.frames.size = mark := Nat.le_antisymm small below
    have cut := keeps_cut below fun e member => equal ▸ present e member
    have whole : s.frames.shrink mark = s.frames := by
      rw [← equal, Array.shrink_eq_take, Array.take_eq_extract, Array.extract_size]
    rw [whole] at cut
    exact ⟨_, cut⟩
  · split
    · rename_i unnoted
      rw [Nat.max_eq_left positive]
      refine ⟨_, keeps_cut below ?_⟩
      intro e member
      obtain ⟨frame, found, noted⟩ := captured e member
      obtain ⟨inside, value⟩ := Array.getElem?_eq_some_iff.mp found
      apply Nat.lt_of_not_le
      intro new
      have some_noted : s.frames.any (·.captured) mark = true :=
        Array.any_iff_exists.mpr ⟨e, inside, new, inside, by rw [value]; exact noted⟩
      rw [some_noted] at unnoted
      cases unnoted
    · have length : (s.reach mark (Array.replicate (s.frames.size - mark) false)
          (s.roots mark result)).size = s.size - mark := by
        rw [size_reach, Array.size_replicate]
        rfl
      have start : Covered s mark (Array.replicate (s.frames.size - mark) false)
          (s.roots mark result) := fun _ marked => absurd marked not_marked_replicate
      have low := (keepEnd_bounds mark (s.reach mark (Array.replicate (s.frames.size - mark) false)
        (s.roots mark result))).1
      dsimp only
      rw [Nat.max_eq_left (show 1 ≤ _ from Nat.le_trans positive low)]
      refine ⟨_, keeps_sweep below length ?_ (reach_covered start)⟩
      intro e member new
      apply reach_pending member new
      rw [Array.size_replicate]
      exact Nat.sub_lt_sub_right new (present e member)

end ScriptKit.Scopes
