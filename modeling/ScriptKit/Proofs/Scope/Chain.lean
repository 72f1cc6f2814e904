import ScriptKit.Proofs.Scope.Hygiene

/-! Frames as a chain of maps.

The parent of a frame is older than the frame itself, whatever was done before, so a walk outward
comes to an end. What a name stands for is then told by the lists of variables along the walk: the
tables and their slots do not matter. -/

namespace ScriptKit

theorem SymbolTable.get?_eq_find? {hash : String → UInt64} {t : SymbolTable hash}
    (proper : t.Proper) (x : String) : t.get? x = t.toList.find? (·.name = x) := by
  cases listed : t.toList.find? (·.name = x) with
  | none =>
    rw [get?_eq_none_iff proper]
    intro b member
    simpa using List.find?_eq_none.mp listed b member
  | some b =>
    rw [get?_eq_some_iff proper]
    exact ⟨List.mem_of_find?_eq_some listed, by simpa using List.find?_some listed⟩

/-- No two variables have the same name, so that a new value goes to one variable alone. -/
theorem Binding.map_assigned {b : Binding} {front back : List Binding}
    (distinct : ((front ++ b :: back).map (·.name)).Nodup) (v : Value) :
    (front ++ b :: back).map (assigned b.name v) = front ++ { b with value := v } :: back := by
  have others : ∀ c ∈ front ++ back, c.assigned b.name v = c := by
    intro c member
    have apart : c.name ≠ b.name := by
      intro same
      have moved : (front ++ b :: back).Perm (b :: (front ++ back)) := List.perm_middle
      rw [(moved.map _).nodup_iff, List.map_cons, List.nodup_cons] at distinct
      exact distinct.1 (List.mem_map.mpr ⟨c, member, same⟩)
    rw [assigned, if_neg apart]
  have unmoved : ∀ bs : List Binding, bs ⊆ front ++ back → bs.map (assigned b.name v) = bs := by
    intro bs inside
    conv => rhs; rw [← List.map_id bs]
    exact List.map_congr_left fun c member => others c (inside member)
  rw [List.map_append, List.map_cons, unmoved front (List.subset_append_left _ _),
    unmoved back (List.subset_append_right _ _), assigned, if_pos rfl]

namespace Scopes

inductive Op where
  | push (parent : ScopeId)
  | declare (id : ScopeId) (b : Binding)
  | assign (id : ScopeId) (name : String) (value : Value)
  | capture (id : ScopeId)
  | release (mark : Nat) (result : Value)

def outcome : EStateM.Result ScopeError Scopes Unit → Option ScopeError × Scopes
  | .ok _ s => (none, s)
  | .error e s => (some e, s)

/-- Does it, or says why it cannot be done. A frame is only opened in one that is there. -/
def perform (s : Scopes) : Op → Option ScopeError × Scopes
  | .push parent => if parent < s.size then (none, s.push parent) else (some .noFrame, s)
  | .declare id b => outcome (declareIn id b s)
  | .assign id x v => outcome (assignFrom id x v s)
  | .capture id => (none, s.capture id)
  | .release mark result => (none, s.release mark result)

def build (ops : List Op) : Scopes :=
  ops.foldl (fun s op => (s.perform op).2) initial

/-- The frames from one outward, up to one that has no parent. -/
inductive Chain (s : Scopes) : ScopeId → List ScopeId → Prop where
  | top {id : ScopeId} {f : Frame} (here : s.frames[id]? = some f) (last : f.parent = none) :
    Chain s id [id]
  | up {id p : ScopeId} {f : Frame} {ids : List ScopeId} (here : s.frames[id]? = some f)
    (parent : f.parent = some p) (further : Chain s p ids) : Chain s id (id :: ids)

def bindings (s : Scopes) (id : ScopeId) : List Binding :=
  (s.frames[id]?).elim [] (·.table.toList)

def own? (s : Scopes) (x : String) (id : ScopeId) : Option Binding :=
  (s.bindings id).find? (·.name = x)

def nearest? (s : Scopes) (x : String) (ids : List ScopeId) : Option (ScopeId × Binding) :=
  ids.findSome? fun id => (s.own? x id).map fun b => (id, b)

structure Changes (s t : Scopes) (id : ScopeId) (change : List Binding → List Binding → Prop) :
    Prop where
  size : t.size = s.size
  others : ∀ i : ScopeId, i ≠ id → t.frames[i]? = s.frames[i]?
  here : ∃ f g, s.frames[id]? = some f ∧ t.frames[id]? = some g ∧ g.parent = f.parent ∧
    g.captured = f.captured ∧ change f.table.toList g.table.toList

def Adds (b : Binding) (old new : List Binding) : Prop :=
  new.Perm (b :: old)

def Sets (b : Binding) (v : Value) (old new : List Binding) : Prop :=
  ∃ front back, old = front ++ b :: back ∧ new = front ++ { b with value := v } :: back

structure ChainOfMaps (s : Scopes) : Prop where
  older : ∀ (id : ScopeId) (f : Frame) (p : ScopeId), s.frames[id]? = some f → f.parent = some p →
      p < id
  ends : ∀ id < s.size, ∃ ids, s.Chain id ids
  lookup : ∀ id ids x, s.Chain id ids → s.lookup? id x = (s.nearest? x ids).map (·.2)
  resolve : ∀ id ids x, s.Chain id ids → s.resolve? id x = (s.nearest? x ids).map (·.2.value)
  declare : ∀ id < s.size, ∀ b, (s.perform (.declare id b)).1 =
    if (s.own? b.name id).isSome then some .alreadyDeclared else none
  declared : ∀ id < s.size, ∀ b, (s.perform (.declare id b)).1 = none →
    s.Changes (s.perform (.declare id b)).2 id (Adds b)
  assign : ∀ id ids x v, s.Chain id ids → (s.perform (.assign id x v)).1 =
    match s.nearest? x ids with
    | none => some .notFound
    | some (_, b) => if b.isConst then some .constViolation else none
  assigned : ∀ id ids x v, s.Chain id ids → (s.perform (.assign id x v)).1 = none →
    ∃ owner b, s.nearest? x ids = some (owner, b) ∧
      s.Changes (s.perform (.assign id x v)).2 owner (Sets b v)
  failed : ∀ op e, (s.perform op).1 = some e → (s.perform op).2 = s

structure Ordered (s : Scopes) : Prop where
  tidy : s.Tidy
  older : ∀ (id : ScopeId) (f : Frame) (p : ScopeId), s.frames[id]? = some f → f.parent = some p →
      p < id

variable {s t : Scopes}

section Outcomes

/-- What is done, or why it cannot be done and that nothing is changed. -/
def settled (s : Scopes) : Except ScopeError Scopes → Option ScopeError × Scopes
  | .ok t => (none, t)
  | .error e => (some e, s)

theorem perform_declare (s : Scopes) (id : ScopeId) (b : Binding) :
    s.perform (.declare id b) = s.settled (s.declare id b) := by
  rw [perform, declareIn_eq]
  cases s.declare id b <;> rfl

theorem perform_assign (s : Scopes) (id : ScopeId) (x : String) (v : Value) :
    s.perform (.assign id x v) = s.settled (s.assign id x v) := by
  rw [perform, assignFrom_eq]
  cases s.assign id x v <;> rfl

end Outcomes

section Reachable

theorem ordered_initial : initial.Ordered := by
  have only : ∀ (id : ScopeId) (f : Frame), initial.frames[id]? = some f →
      f = { captured := true } := by
    intro id f here
    cases id with
    | zero => exact (Option.some.inj here).symm
    | succ id => cases here
  constructor
  · intro id f here
    rw [only id f here]
    exact SymbolTable.proper_empty
  · intro id f p here up
    rw [only id f here] at up
    cases up

theorem Ordered.of_parents (ordered : s.Ordered) (tidy : t.Tidy)
    (parents : ∀ (i : ScopeId) (g : Frame), t.frames[i]? = some g →
      ∃ f, s.frames[i]? = some f ∧ g.parent = f.parent) : t.Ordered := by
  refine ⟨tidy, fun id g p here up => ?_⟩
  obtain ⟨f, old, same⟩ := parents id g here
  exact ordered.older id f p old (same ▸ up)

theorem Ordered.push (ordered : s.Ordered) {parent : ScopeId} (inside : parent < s.size) :
    (s.push parent).Ordered := by
  refine ⟨ordered.tidy.push parent, fun id f p here up => ?_⟩
  rw [getElem?_push] at here
  split at here
  · rename_i last
    cases here
    cases up
    rwa [last]
  · exact ordered.older id f p here up

theorem parents_update {id : ScopeId} {frame : Frame} (found : s.frames[id]? = some frame)
    (table : SymbolTable fnv1a) (i : ScopeId) (g : Frame)
    (here : (s.frames.setIfInBounds id { frame with table })[i]? = some g) :
    ∃ f, s.frames[i]? = some f ∧ g.parent = f.parent := by
  rw [getElem?_update found] at here
  split at here
  · rename_i same
    cases here
    exact ⟨frame, same ▸ found, rfl⟩
  · exact ⟨g, here, rfl⟩

theorem Ordered.perform (ordered : s.Ordered) (op : Op) : (s.perform op).2.Ordered := by
  cases op with
  | push parent =>
    simp only [Scopes.perform]
    split
    · exact ordered.push ‹_›
    · exact ordered
  | declare id b =>
    rw [perform_declare]
    cases done : s.declare id b with
    | error e => exact ordered
    | ok t =>
      have tidy := (ordered.tidy.declare done).1
      obtain ⟨frame, table, here, _, rfl⟩ := declare_eq_ok done
      exact ordered.of_parents tidy (parents_update here table)
  | assign id x v =>
    rw [perform_assign]
    cases done : s.assign id x v with
    | error e => exact ordered
    | ok t =>
      have tidy := (ordered.tidy.assign done).1
      obtain ⟨owner, frame, b, here, _, _, rfl⟩ := assign_eq_ok done
      exact ordered.of_parents tidy (parents_update here _)
  | capture id =>
    apply ordered.of_parents (ordered.tidy.capture id).1
    intro i g here
    rw [getElem?_capture] at here
    obtain ⟨f, present, rfl⟩ := Option.map_eq_some_iff.mp here
    exact ⟨f, present, rfl⟩
  | release mark result =>
    apply ordered.of_parents ordered.tidy.release
    intro i g here
    obtain ⟨f, present, rfl | rfl⟩ := getElem?_release here
    · exact ⟨g, present, rfl⟩
    · exact ⟨f, present, rfl⟩

theorem ordered_build (ops : List Op) : (build ops).Ordered := by
  suffices ∀ s : Scopes, s.Ordered → (ops.foldl (fun s op => (s.perform op).2) s).Ordered from
    this initial ordered_initial
  induction ops with
  | nil => exact fun s ordered => ordered
  | cons op ops ih => exact fun s ordered => ih _ (ordered.perform op)

end Reachable

section Walking

variable {id : ScopeId} {ids : List ScopeId} {f : Frame} {x : String}

theorem Ordered.exists_chain (ordered : s.Ordered) (inside : id < s.size) :
    ∃ ids, s.Chain id ids := by
  -- The parent may be any of the older frames, so all of them are in the hypothesis.
  induction id using Nat.strongRecOn with
  | ind id ih =>
    have here : s.frames[id]? = some s.frames[id] := Array.getElem?_eq_getElem inside
    cases up : s.frames[id].parent with
    | none => exact ⟨_, .top here up⟩
    | some p =>
      have before := ordered.older id _ p here up
      obtain ⟨ids, further⟩ := ih p before (Nat.lt_trans before inside)
      exact ⟨_, .up here up further⟩

theorem own?_eq (tidy : s.Tidy) (here : s.frames[id]? = some f) : s.own? x id = f.table.get? x := by
  rw [SymbolTable.get?_eq_find? (tidy id f here), own?, bindings, here]
  rfl

theorem nearest?_cons (s : Scopes) (x : String) (id : ScopeId) (ids : List ScopeId) :
    s.nearest? x (id :: ids) = ((s.own? x id).map fun b => (id, b)).or (s.nearest? x ids) := by
  rw [nearest?, List.findSome?_cons]
  cases s.own? x id <;> rfl

theorem Ordered.owner?_eq (ordered : s.Ordered) (chain : s.Chain id ids) :
    s.owner? x id = (s.nearest? x ids).map (·.1) := by
  induction chain with
  | top here last =>
    rw [nearest?_cons, own?_eq ordered.tidy here]
    cases got : SymbolTable.get? _ x with
    | none => exact owner?_outermost here got last
    | some b => exact owner?_here here got
  | up here parent _ ih =>
    rw [nearest?_cons, own?_eq ordered.tidy here]
    cases got : SymbolTable.get? _ x with
    | none => exact (owner?_parent here got parent (ordered.older _ _ _ here parent)).trans ih
    | some b => exact owner?_here here got

theorem own?_of_nearest? {owner : ScopeId} {b : Binding}
    (near : s.nearest? x ids = some (owner, b)) :
    s.own? x owner = some b := by
  obtain ⟨i, _, found⟩ := List.exists_of_findSome?_eq_some near
  obtain ⟨c, own, same⟩ := Option.map_eq_some_iff.mp found
  cases same
  exact own

theorem Ordered.nearest_frame (ordered : s.Ordered) {owner : ScopeId} {b : Binding}
    (near : s.nearest? x ids = some (owner, b)) :
    ∃ f, s.frames[owner]? = some f ∧ f.table.get? x = some b := by
  have own := own?_of_nearest? near
  cases here : s.frames[owner]? with
  | none =>
    rw [own?, bindings, here] at own
    cases own
  | some f => exact ⟨f, rfl, own?_eq ordered.tidy here ▸ own⟩

theorem Ordered.lookup?_eq (ordered : s.Ordered) (chain : s.Chain id ids) :
    s.lookup? id x = (s.nearest? x ids).map (·.2) := by
  rw [lookup?, ordered.owner?_eq chain]
  cases near : s.nearest? x ids with
  | none => rfl
  | some found =>
    obtain ⟨f, here, got⟩ := ordered.nearest_frame near
    simp only [Option.map_some, Option.bind_eq_bind, Option.bind_some, here, got]

end Walking

section Changing

variable {id : ScopeId} {ids : List ScopeId} {x : String}

theorem changes_update {frame : Frame} (found : s.frames[id]? = some frame)
    {table : SymbolTable fnv1a} {change : List Binding → List Binding → Prop}
    (changed : change frame.table.toList table.toList) :
    s.Changes ⟨s.frames.setIfInBounds id { frame with table }⟩ id change where
  size := size_update _
  others := fun i other => by rw [getElem?_update found, if_neg other]
  here := ⟨frame, { frame with table }, found, by rw [getElem?_update found, if_pos rfl], rfl, rfl,
    changed⟩

theorem sets_of_get? {table : SymbolTable fnv1a} (proper : table.Proper) {b : Binding}
    (got : table.get? x = some b) (v : Value) : Sets b v table.toList (table.set x v).toList := by
  obtain ⟨member, rfl⟩ := (SymbolTable.get?_eq_some_iff proper).mp got
  obtain ⟨front, back, parts⟩ := List.append_of_mem member
  have distinct := proper.settled.distinct
  rw [← SymbolTable.toList_eq, parts] at distinct
  refine ⟨front, back, parts, ?_⟩
  rw [SymbolTable.toList_set proper, parts]
  exact Binding.map_assigned distinct v

theorem Ordered.declare_eq (ordered : s.Ordered) (inside : id < s.size) (b : Binding) :
    (s.perform (.declare id b)).1 =
      if (s.own? b.name id).isSome then some .alreadyDeclared else none := by
  have here : s.frames[id]? = some s.frames[id] := Array.getElem?_eq_getElem inside
  rw [own?_eq ordered.tidy here]
  simp only [perform_declare, Scopes.declare_eq, here]
  cases inserted : s.frames[id].table.insert? b with
  | none => rw [if_pos (SymbolTable.insert?_eq_none_iff.mp inserted)]; rfl
  | some table =>
    have free : ¬ (s.frames[id].table.get? b.name).isSome := by
      rw [← SymbolTable.insert?_eq_none_iff, inserted]
      simp
    rw [if_neg free]
    rfl

theorem Ordered.declare_changes (ordered : s.Ordered) {b : Binding}
    (done : s.declare id b = .ok t) :
    s.Changes t id (Adds b) := by
  obtain ⟨frame, table, here, inserted, rfl⟩ := declare_eq_ok done
  exact changes_update here (SymbolTable.insert?_eq_some (ordered.tidy id frame here) inserted).2

theorem Ordered.assign_eq (ordered : s.Ordered) (chain : s.Chain id ids) (x : String) (v : Value) :
    ((s.perform (.assign id x v)).1 =
      match s.nearest? x ids with
      | none => some .notFound
      | some (_, b) => if b.isConst then some .constViolation else none) ∧
    ((s.perform (.assign id x v)).1 = none →
      ∃ owner b, s.nearest? x ids = some (owner, b) ∧
        s.Changes (s.perform (.assign id x v)).2 owner (Sets b v)) := by
  simp only [perform_assign, Scopes.assign_eq, ordered.owner?_eq chain]
  cases near : s.nearest? x ids with
  | none => exact ⟨rfl, fun done => by cases done⟩
  | some found =>
    obtain ⟨owner, b⟩ := found
    obtain ⟨f, here, got⟩ := ordered.nearest_frame near
    simp only [Option.map_some, here, Option.bind_some, got]
    by_cases const : b.isConst = true
    · rw [if_pos const, if_pos const]
      exact ⟨rfl, fun done => by cases done⟩
    · rw [if_neg const, if_neg const]
      refine ⟨rfl, fun _ => ⟨owner, b, rfl, ?_⟩⟩
      rw [Correspondence.modify_eq_set _ here]
      exact changes_update here (sets_of_get? (ordered.tidy owner f here) got v)

end Changing

theorem perform_failed (s : Scopes) {op : Op} {e : ScopeError}
    (failed : (s.perform op).1 = some e) :
    (s.perform op).2 = s := by
  have kept : ∀ result, (s.settled result).1 = some e → (s.settled result).2 = s := by
    intro result
    cases result with
    | ok t => exact fun impossible => by cases impossible
    | error e => exact fun _ => rfl
  cases op with
  | push parent =>
    simp only [perform] at failed ⊢
    split at failed
    · cases failed
    · rw [if_neg ‹_›]
  | declare id b =>
    rw [perform_declare] at failed ⊢
    exact kept _ failed
  | assign id x v =>
    rw [perform_assign] at failed ⊢
    exact kept _ failed
  | capture id => cases failed
  | release mark result => cases failed

/-- Whatever was done to the frames, they are a chain of maps: a name stands for the variable of the
nearest frame that has it, a declaration adds one variable or finds the name taken, an assignment
gives the nearest variable a new value or finds none that may have one, and what fails changes
nothing. -/
theorem chain_of_maps (ops : List Op) : (build ops).ChainOfMaps := by
  have ordered := ordered_build ops
  constructor
  case older => exact ordered.older
  case ends => exact fun id inside => ordered.exists_chain inside
  case lookup => exact fun id ids x chain => ordered.lookup?_eq chain
  case resolve =>
    intro id ids x chain
    rw [resolve?, ordered.lookup?_eq chain, Option.map_map]
    rfl
  case declare => exact fun id inside b => ordered.declare_eq inside b
  case declared =>
    intro id inside b done
    rw [perform_declare] at done ⊢
    cases answer : (build ops).declare id b with
    | error e => rw [answer] at done; cases done
    | ok t => exact ordered.declare_changes answer
  case assign => exact fun id ids x v chain => (ordered.assign_eq chain x v).1
  case assigned => exact fun id ids x v chain => (ordered.assign_eq chain x v).2
  case failed => exact fun op e failed => perform_failed _ failed

/-- A constant hides an outer variable that may have new values. -/
example :
    let ops := [.declare 0 ⟨"x", .null, false⟩, .push 0, .declare 1 ⟨"x", .null, true⟩]
    ((build ops).perform (.assign 1 "x" (.boolean true))).1 = some .constViolation ∧
      ((build ops).perform (.assign 0 "x" (.boolean true))).1 = none := by
  cbv

end Scopes

end ScriptKit
