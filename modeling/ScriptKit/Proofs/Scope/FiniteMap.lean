import ScriptKit.Proofs.Scope.Table

/-! The history of a table tells what each name stands for. -/

namespace ScriptKit.SymbolTable

variable {hash : String → UInt64}

inductive Op where
  | insert (b : Binding)
  | update (name : String) (value : Value)

inductive Answer where
  | inserted
  | rejected (b : Binding)
  | updated (b : Binding)
  | missing

def perform (t : SymbolTable hash) : Op → Answer × SymbolTable hash
  | .insert b =>
    match t.insert b with
    | .ok _ grown => (.inserted, grown)
    | .error b left => (.rejected b, left)
  | .update x value =>
    match t.get? x with
    | some b => (.updated { b with value }, t.set x value)
    | none => (.missing, t)

def build (hash : String → UInt64) (ops : List Op) : SymbolTable hash :=
  ops.foldl (fun t op => (t.perform op).2) {}

/-- What a name stands for, as the operations alone tell. The first variable of a name stays, with
its constancy, and takes every later value. -/
def remember (known : String → Option Binding) : Op → String → Option Binding
  | .insert b => fun x => (known x).or (if x = b.name then some b else none)
  | .update y value => fun x => (known x).map (Binding.assigned y value)

def recollect (ops : List Op) : String → Option Binding :=
  ops.foldl remember fun _ => none

section History

theorem set_absent {t : SymbolTable hash} {x : String} (absent : t.get? x = none) (value : Value) :
    t.set x value = t := by
  unfold set
  split
  · rename_i i ended
    obtain ⟨b, here, _⟩ := probe_eq_found ended
    simp [get?, ended, here] at absent
  · rfl

/-- A refused variable is handed back, and the table stays as it is. -/
theorem perform_insert (t : SymbolTable hash) (b : Binding) :
    t.perform (.insert b) =
      match t.insert? b with
      | some grown => (.inserted, grown)
      | none => (.rejected b, t) := by
  simp only [perform, insert_eq]
  cases t.insert? b <;> rfl

theorem perform_update (t : SymbolTable hash) (x : String) (value : Value) :
    (t.perform (.update x value)).2 = t.set x value := by
  simp only [perform]
  cases got : t.get? x with
  | none => exact (set_absent got value).symm
  | some b => rfl

theorem perform_proper {t : SymbolTable hash} (proper : t.Proper) (op : Op) :
    (t.perform op).2.Proper := by
  cases op with
  | insert b =>
    rw [perform_insert]
    cases done : t.insert? b with
    | none => exact proper
    | some grown => exact (insert?_eq_some proper done).1
  | update x value =>
    rw [perform_update]
    exact set_proper proper x value

theorem get?_perform {t : SymbolTable hash} (proper : t.Proper) (op : Op) (x : String) :
    (t.perform op).2.get? x = remember t.get? op x := by
  cases op with
  | insert b =>
    rw [perform_insert]
    simp only [remember]
    cases done : t.insert? b with
    | none =>
      have taken := insert?_eq_none_iff.mp done
      dsimp only
      split
      · rename_i same
        subst same
        cases got : t.get? b.name with
        | none => simp [got] at taken
        | some c => rfl
      · simp
    | some grown =>
      have free : ¬ (t.get? b.name).isSome := by
        rw [← insert?_eq_none_iff, done]
        simp
      rw [get?_insert? proper done]
      split
      · rename_i same
        subst same
        cases got : t.get? b.name with
        | none => rfl
        | some c => simp [got] at free
      · simp
  | update y value =>
    rw [perform_update, get?_set proper]
    rfl

theorem foldl_perform {t : SymbolTable hash} (proper : t.Proper) (ops : List Op) :
    (ops.foldl (fun t op => (t.perform op).2) t).Proper ∧
      (ops.foldl (fun t op => (t.perform op).2) t).get? = ops.foldl remember t.get? := by
  induction ops generalizing t with
  | nil => exact ⟨proper, rfl⟩
  | cons op ops ih =>
    obtain ⟨after, same⟩ := ih (perform_proper proper op)
    refine ⟨after, ?_⟩
    rw [List.foldl_cons, List.foldl_cons, same]
    congr 1
    exact funext (get?_perform proper op)

theorem build_proper (ops : List Op) : (build hash ops).Proper :=
  (foldl_perform proper_empty ops).1

theorem get?_build (ops : List Op) (x : String) : (build hash ops).get? x = recollect ops x :=
  congrFun (foldl_perform proper_empty ops).2 x

theorem answer_insert (t : SymbolTable hash) (b : Binding) :
    if (t.get? b.name).isSome then t.perform (.insert b) = (.rejected b, t)
    else (t.perform (.insert b)).1 = .inserted := by
  rw [perform_insert]
  split
  · rename_i taken
    rw [insert?_eq_none_iff.mpr taken]
  · rename_i free
    rw [← insert?_eq_none_iff] at free
    cases done : t.insert? b with
    | none => exact absurd done free
    | some grown => rfl

theorem isSome_perform {t : SymbolTable hash} (proper : t.Proper) (op : Op) (x : String) :
    ((t.perform op).2.get? x).isSome ↔ (t.get? x).isSome ∨
      ∃ b, op = .insert b ∧ b.name = x ∧ (t.perform (.insert b)).1 = .inserted := by
  rw [get?_perform proper]
  cases op with
  | update y value => simp [remember]
  | insert b =>
    have answer := answer_insert t b
    simp only [remember, Op.insert.injEq]
    cases got : t.get? x with
    | some c => simp
    | none =>
      by_cases same : x = b.name
      · subst same
        rw [got] at answer
        simpa using answer
      · simp [same, Ne.symm same]

theorem isSome_foldl {t : SymbolTable hash} (proper : t.Proper) (ops : List Op) (x : String) :
    ((ops.foldl (fun t op => (t.perform op).2) t).get? x).isSome ↔ (t.get? x).isSome ∨
      ∃ before b after, ops = before ++ .insert b :: after ∧ b.name = x ∧
        ((before.foldl (fun t op => (t.perform op).2) t).perform (.insert b)).1 = .inserted := by
  -- A name is known from the start, or from the first operation, or from a later one.
  induction ops generalizing t with
  | nil => simp
  | cons op ops ih =>
    rw [List.foldl_cons, ih (perform_proper proper op), isSome_perform proper, or_assoc]
    apply or_congr Iff.rfl
    constructor
    · rintro (⟨b, rfl, name, accepted⟩ | ⟨before, b, after, rfl, name, accepted⟩)
      · exact ⟨[], b, ops, rfl, name, accepted⟩
      · exact ⟨op :: before, b, after, rfl, name, accepted⟩
    · rintro ⟨before, b, after, parts, name, accepted⟩
      cases before with
      | nil =>
        cases parts
        exact .inl ⟨b, rfl, name, accepted⟩
      | cons first before =>
        cases parts
        exact .inr ⟨before, b, after, rfl, name, accepted⟩

theorem answer_update (t : SymbolTable hash) (x : String) (value : Value) :
    (t.perform (.update x value)).1 =
      ((t.get? x).elim .missing fun b => .updated { b with value }) := by
  simp only [perform]
  cases t.get? x <;> rfl

end History

section Probing

def Ends (hash : String → UInt64) (slots : Array (Option Binding)) (x : String) : Prop :=
  (∃ i b, probe hash slots x = .found i ∧ slots[i]? = some (some b) ∧ b.name = x) ∨
    ∃ i, probe hash slots x = .vacant i ∧ slots[i]? = some none

variable {t : SymbolTable hash}

theorem Proper.ends (proper : t.Proper) (some_slots : t.capacity ≠ 0) (x : String) :
    Ends hash t.slots x := by
  cases ended : probe hash t.slots x with
  | found i =>
    obtain ⟨b, here, name⟩ := probe_eq_found ended
    exact .inl ⟨i, b, ended, here, name⟩
  | vacant i => exact .inr ⟨i, ended, probe_eq_vacant ended⟩
  | full => exact absurd ended (probe_ne_full (proper.roomy some_slots) x)

theorem Proper.vacancy (proper : t.Proper) {b : Binding} (new : t.get? b.name = none) :
    ∃ i, probe hash t.roomFor.slots b.name = .vacant i ∧ t.roomFor.slots[i]? = some none := by
  obtain ⟨roomy, absent⟩ := roomFor_free proper new
  obtain ⟨i, ended⟩ := probe_vacant hash roomy absent
  exact ⟨i, ended, probe_eq_vacant ended⟩

/-- While the table doubles, each variable in turn comes to an empty slot. -/
theorem Proper.moving_vacancy (proper : t.Proper) {done rest : List Binding} {b : Binding}
    (parts : t.toList = done ++ b :: rest) :
    ∃ i, probe hash (t.moving done) b.name = .vacant i ∧ (t.moving done)[i]? = some none := by
  obtain ⟨_, perm, size⟩ := moving_proper proper parts
  have roomy : Roomy (t.moving done) := by
    refine ⟨size ▸ proper.power_doubled, ?_⟩
    have count := proper.size
    have load := proper.load
    simp only [parts, List.length_append, List.length_cons] at count
    rw [perm.length_eq, size]
    omega
  have new : ∀ c ∈ occupants (t.moving done), c.name ≠ b.name := by
    have distinct := proper.settled.distinct
    rw [← toList_eq, parts, List.map_append, List.map_cons, List.nodup_append] at distinct
    intro c member
    exact distinct.2.2 c.name (List.mem_map_of_mem (perm.mem_iff.mp member)) b.name (by simp)
  obtain ⟨i, ended⟩ := probe_vacant hash roomy new
  exact ⟨i, ended, probe_eq_vacant ended⟩

end Probing

/-- The table answers as the map `known` does, lists each variable once, and keeps to its load. -/
structure Represents (t : SymbolTable hash) (known : String → Option Binding) : Prop where
  get : ∀ x, t.get? x = known x
  contains : ∀ x, t.contains x = (known x).isSome
  update : ∀ x value, (t.perform (.update x value)).1 =
    ((known x).elim .missing fun b => .updated { b with value })
  insert : ∀ b : Binding, if (known b.name).isSome then t.perform (.insert b) = (.rejected b, t)
    else (t.perform (.insert b)).1 = .inserted
  names : (t.toList.map (·.name)).Nodup
  listed : ∀ b : Binding, b ∈ t.toList ↔ known b.name = some b
  count : t.size = t.toList.length
  capacity : t.capacity = 0 ∨ 8 ≤ t.capacity ∧ t.capacity.isPowerOfTwo
  load : 5 * t.size ≤ 4 * t.capacity

/-- No walk through the slots is endless: neither one for any name, nor the one for a new variable,
nor that of any variable while the table doubles. -/
structure Walkable (t : SymbolTable hash) : Prop where
  lookup : ∀ x, t.capacity ≠ 0 → Ends hash t.slots x
  insert : ∀ b : Binding, t.get? b.name = none →
      ∃ i, probe hash t.roomFor.slots b.name = .vacant i ∧
    t.roomFor.slots[i]? = some none
  grow : ∀ done b rest, t.toList = done ++ b :: rest →
    ∃ i, probe hash (t.moving done) b.name = .vacant i ∧ (t.moving done)[i]? = some none

theorem Proper.represents {t : SymbolTable hash} (proper : t.Proper) : t.Represents t.get? where
  get := fun _ => rfl
  contains := contains_eq t
  update := answer_update t
  insert := answer_insert t
  names := proper.settled.distinct
  listed := fun b => by rw [get?_eq_some_iff proper]; simp
  count := proper.size
  capacity := proper.capacity
  load := proper.load

theorem Proper.walkable {t : SymbolTable hash} (proper : t.Proper) : t.Walkable where
  lookup := fun x some_slots => proper.ends some_slots x
  insert := fun _ new => proper.vacancy new
  grow := fun _ _ _ parts => proper.moving_vacancy parts

/-- Whatever was done to a table, and however names are hashed, it is the finite map that the
operations alone tell of: a name is known once a variable of that name was accepted. -/
theorem finite_map (hash : String → UInt64) (ops : List Op) :
    (build hash ops).Represents (recollect ops) ∧ (build hash ops).Walkable ∧
    ∀ x, (recollect ops x).isSome ↔ ∃ before b after, ops = before ++ .insert b :: after ∧
      b.name = x ∧ ((build hash before).perform (.insert b)).1 = .inserted := by
  have proper : (build hash ops).Proper := build_proper ops
  have same : recollect ops = (build hash ops).get? := funext fun x => (get?_build ops x).symm
  rw [same]
  refine ⟨proper.represents, proper.walkable, fun x => ?_⟩
  have known := isSome_foldl (proper_empty : ({} : SymbolTable hash).Proper) ops x
  have empty : ({} : SymbolTable hash).get? x = none := rfl
  simp only [empty, Option.isSome_none, Bool.false_eq_true, false_or] at known
  exact known

end ScriptKit.SymbolTable
