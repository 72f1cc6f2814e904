import ScriptKit.Proofs.Scope.Release

/-! Which frames the walk through the frames comes to.

They are the least set that has the roots and what its members refer to. The order in which frames
wait to be looked at, and how often one waits, makes no difference. -/

namespace ScriptKit.Scopes

/-- A frame from `mark` on that is among the roots, or that such a frame refers to, and so on. -/
inductive Reached (s : Scopes) (mark : Nat) (roots : List ScopeId) : ScopeId → Prop where
  | root {id : ScopeId} : id ∈ roots → mark ≤ id → id < s.size → Reached s mark roots id
  | next {id next : ScopeId} : Reached s mark roots id → next ∈ s.successors id → mark ≤ next →
      next < s.size →
      Reached s mark roots next

variable {s t : Scopes} {mark : Nat} {roots roots' : List ScopeId}

/-- A walk marks nothing outside a set that has what is marked already and what waits, and that is
closed under the successors in range. -/
theorem reach_least {P : ScopeId → Prop} {n : Nat}
    (closed : ∀ id next, P id → next ∈ s.successors id → mark ≤ next → next - mark < n → P next)
    {seen : Array Bool} {pending : List ScopeId} (length : seen.size = n)
    (known : ∀ id, Marked mark seen id → P id)
    (waits : ∀ id ∈ pending, mark ≤ id → id - mark < n → P id) {id : ScopeId}
    (marked : Marked mark (s.reach mark seen pending) id) : P id := by
  fun_induction reach s mark seen pending with
  | case1 => exact known id marked
  | case2 seen first rest fresh ih =>
    have inside : first - mark < n := length ▸ (Array.getElem?_eq_some_iff.mp fresh.2).1
    have here : P first := waits first List.mem_cons_self fresh.1 inside
    refine ih (by rw [Array.size_setIfInBounds, length]) ?_ ?_ marked
    · intro other noted
      rcases marked_of_set fresh.1 noted with rfl | old
      · exact here
      · exact known other old
    · intro other member above range
      rcases List.mem_append.mp member with follows | later
      · exact closed first other here follows above range
      · exact waits other (List.mem_cons_of_mem _ later) above range
  | case3 seen first rest _ ih =>
    exact ih length known (fun other later => waits other (List.mem_cons_of_mem _ later)) marked

theorem marked_reach_iff {id : ScopeId} :
    Marked mark (s.reach mark (Array.replicate (s.size - mark) false) roots) id ↔
      s.Reached mark roots id := by
  constructor
  · apply reach_least
    · intro _ next reached follows above inside
      exact .next reached follows above ((Nat.sub_lt_sub_iff_right above).mp inside)
    · exact Array.size_replicate
    · exact fun _ marked => absurd marked not_marked_replicate
    · intro _ member above inside
      exact .root member above ((Nat.sub_lt_sub_iff_right above).mp inside)
  · intro reached
    have length : (s.reach mark (Array.replicate (s.size - mark) false) roots).size =
        s.size - mark := by
      rw [size_reach, Array.size_replicate]
    induction reached with
    | root member above inside =>
      apply reach_pending member above
      rw [Array.size_replicate]
      exact Nat.sub_lt_sub_right above inside
    | next _ follows above inside ih =>
      have covered : Covered s mark
          (s.reach mark (Array.replicate (s.size - mark) false) roots) [] :=
        reach_covered fun _ marked => absurd marked not_marked_replicate
      rcases covered _ ih _ follows above
        (by rw [length]; exact Nat.sub_lt_sub_right above inside) with
        marked | waits
      · exact marked
      · cases waits

/-- A walk is known by the frames it marks. -/
theorem eq_of_marked_iff {seen seen' : Array Bool} (length : seen.size = seen'.size)
    (same : ∀ id, Marked mark seen id ↔ Marked mark seen' id) : seen = seen' := by
  apply Array.ext length
  intro i here there
  have flags := same (mark + i)
  simp only [Marked, Nat.le_add_right, true_and, Nat.add_sub_cancel_left,
    Array.getElem?_eq_getElem here, Array.getElem?_eq_getElem there, Option.some.injEq] at flags
  exact Bool.eq_iff_iff.mpr flags

theorem Reached.congr (size : s.size = t.size)
    (successors : ∀ id e, e ∈ s.successors id → e ∈ t.successors id)
    (rooted : ∀ e ∈ roots, e ∈ roots') {id : ScopeId} (reached : s.Reached mark roots id) :
    t.Reached mark roots' id := by
  induction reached with
  | root member above inside => exact .root (rooted _ member) above (size ▸ inside)
  | next _ follows above inside ih => exact .next ih (successors _ _ follows) above (size ▸ inside)

/-- Frames that refer to the same frames are walked through alike, in whatever order they do so. -/
theorem reach_congr (size : s.size = t.size)
    (successors : ∀ id e, e ∈ s.successors id ↔ e ∈ t.successors id)
    (rooted : ∀ e, e ∈ roots ↔ e ∈ roots') :
    s.reach mark (Array.replicate (s.size - mark) false) roots =
      t.reach mark (Array.replicate (t.size - mark) false) roots' := by
  apply eq_of_marked_iff
  · rw [size_reach, size_reach, size]
  · intro id
    rw [marked_reach_iff, marked_reach_iff]
    constructor
    · exact Reached.congr size (fun i e => (successors i e).mp) fun e => (rooted e).mp
    · exact Reached.congr size.symm (fun i e => (successors i e).mpr) fun e => (rooted e).mpr

end ScriptKit.Scopes
