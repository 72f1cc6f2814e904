import Mathlib.Data.List.ReduceOption
import ScriptKit.Proofs.Scope.Failures

/-! A table of variables is a finite map, however its names are hashed.

The slots are kept such that every variable is where the walk for its name ends. A new variable goes
into the first empty slot of its walk. No walk that found its name before has come to that slot, so
all of them end where they did. -/

namespace ScriptKit

def Binding.assigned (x : String) (value : Value) (b : Binding) : Binding :=
  if b.name = x then { b with value } else b

/-- A mask of ones keeps the remainder by a power of two. -/
theorem and_mask {n : Nat} (power : n.isPowerOfTwo) (x : Nat) : x &&& (n - 1) = x % n := by
  obtain ⟨k, rfl⟩ := power
  exact Nat.and_two_pow_sub_one_eq_mod x k

namespace Probe

variable {slots : Array (Option Binding)} {name : String} {n i j k : Nat} {b : Binding}

theorem walk_eq_found (ended : walk slots name n i = .found j) :
    ∃ b, slots[j]? = some (some b) ∧ b.name = name := by
  induction n generalizing i with
  | zero => cases ended
  | succ n ih =>
    simp only [walk] at ended
    split at ended
    · rename_i b here
      split at ended
      · rename_i same
        cases ended
        exact ⟨b, here, same⟩
      · exact ih ended
    · cases ended
    · cases ended

theorem walk_eq_vacant (ended : walk slots name n i = .vacant j) : slots[j]? = some none := by
  induction n generalizing i with
  | zero => cases ended
  | succ n ih =>
    simp only [walk] at ended
    split at ended
    · split at ended
      · cases ended
      · exact ih ended
    · rename_i here
      cases ended
      exact here
    · cases ended

theorem walk_eq_full (power : slots.size.isPowerOfTwo) (inside : i < slots.size)
    (ended : walk slots name n i = .full) :
    ∀ k < n, ∃ b, slots[(i + k) % slots.size]? = some (some b) := by
  induction n generalizing i with
  | zero => exact fun k early => absurd early (Nat.not_lt_zero k)
  | succ n ih =>
    simp only [walk, and_mask power] at ended
    split at ended
    · rename_i b here
      split at ended
      · cases ended
      · have onward : (i + 1) % slots.size < slots.size := Nat.mod_lt _ (by omega)
        intro k early
        cases k with
        | zero => exact ⟨b, by rw [Nat.add_zero, Nat.mod_eq_of_lt inside, here]⟩
        | succ k =>
          obtain ⟨c, there⟩ := ih onward ended k (by omega)
          refine ⟨c, ?_⟩
          rw [← there, Nat.mod_add_mod]
          congr 2
          omega
    · cases ended
    · rename_i outside
      rw [Array.getElem?_eq_getElem inside] at outside
      cases outside

theorem walk_full_round (power : slots.size.isPowerOfTwo) (inside : i < slots.size)
    (ended : walk slots name slots.size i = .full) :
    ∀ j < slots.size, ∃ b, slots[j]? = some (some b) := by
  intro j bound
  -- Slots before the start come up after the walk has gone round the end.
  rcases Nat.lt_or_ge j i with before | behind
  · obtain ⟨b, here⟩ := walk_eq_full power inside ended (j + slots.size - i) (by omega)
    have around : i + (j + slots.size - i) = j + slots.size := by omega
    rw [around, Nat.add_mod_right, Nat.mod_eq_of_lt bound] at here
    exact ⟨b, here⟩
  · obtain ⟨b, here⟩ := walk_eq_full power inside ended (j - i) (by omega)
    have straight : i + (j - i) = j := by omega
    rw [straight, Nat.mod_eq_of_lt bound] at here
    exact ⟨b, here⟩

theorem walk_found_set (ended : walk slots name n i = .found j) (empty : slots[k]? = some none) :
    walk (slots.setIfInBounds k (some b)) name n i = .found j := by
  induction n generalizing i with
  | zero => cases ended
  | succ n ih =>
    simp only [walk] at ended ⊢
    split at ended
    · rename_i c here
      -- The walk has passed slots in use only, so not the one that is filled.
      have apart : k ≠ i := by
        rintro rfl
        simp [empty] at here
      rw [Array.getElem?_setIfInBounds_ne apart, here, Array.size_setIfInBounds]
      dsimp only
      split
      · rename_i same
        rwa [if_pos same] at ended
      · rename_i other
        rw [if_neg other] at ended
        exact ih ended
    · cases ended
    · cases ended

/-- The walk for a name finds it once it is put into the empty slot where the walk ended. -/
theorem walk_vacant_set (ended : walk slots b.name n i = .vacant j) :
    walk (slots.setIfInBounds j (some b)) b.name n i = .found j := by
  have empty := walk_eq_vacant ended
  have bound : j < slots.size := (Array.getElem?_eq_some_iff.mp empty).1
  induction n generalizing i with
  | zero => cases ended
  | succ n ih =>
    simp only [walk] at ended ⊢
    split at ended
    · rename_i c here
      have apart : j ≠ i := by
        rintro rfl
        simp [empty] at here
      rw [Array.getElem?_setIfInBounds_ne apart, here, Array.size_setIfInBounds]
      dsimp only
      split
      · rename_i same
        rw [if_pos same] at ended
        cases ended
      · rename_i other
        rw [if_neg other] at ended
        exact ih ended
    · cases ended
      simp [bound]
    · cases ended

theorem walk_map {g : Binding → Binding} (names : ∀ b, (g b).name = b.name)
    (slots : Array (Option Binding)) (name : String) (n i : Nat) :
    walk (slots.map (Option.map g)) name n i = walk slots name n i := by
  induction n generalizing i with
  | zero => rfl
  | succ n ih =>
    simp only [walk, Array.getElem?_map, Array.size_map]
    cases slots[i]? with
    | none => rfl
    | some slot =>
      cases slot with
      | none => rfl
      | some b => simp only [Option.map_some, names, ih]

end Probe

namespace SymbolTable

variable {hash : String → UInt64}

def occupants (slots : Array (Option Binding)) : List Binding :=
  slots.toList.filterMap fun slot => slot

theorem toList_eq (t : SymbolTable hash) : t.toList = occupants t.slots := rfl

theorem mem_occupants {slots : Array (Option Binding)} {b : Binding} :
    b ∈ occupants slots ↔ ∃ i : Nat, slots[i]? = some (some b) := by
  simp [occupants, Array.mem_iff_getElem?]

theorem occupants_set {slots : Array (Option Binding)} {i : Nat} {b : Binding}
    (empty : slots[i]? = some none) :
    (occupants (slots.setIfInBounds i (some b))).Perm (b :: occupants slots) := by
  have bound : i < slots.toList.length := (Array.getElem?_eq_some_iff.mp empty).1
  have here : slots.toList[i]? = some none := by rw [Array.getElem?_toList, empty]
  have parts : slots.toList = slots.toList.take i ++ none :: slots.toList.drop (i + 1) := by
    conv => lhs; rw [← List.take_append_drop i slots.toList]
    rw [List.drop_eq_getElem?_toList_append (i := i), here]
    rfl
  have before : occupants slots = (slots.toList.take i).filterMap (fun slot => slot) ++
      (slots.toList.drop (i + 1)).filterMap (fun slot => slot) := by
    unfold occupants
    conv => lhs; rw [parts]
    simp
  rw [before]
  simp only [occupants, Array.toList_setIfInBounds, List.set_eq_take_append_cons_drop, if_pos bound,
    List.filterMap_append, List.filterMap_cons]
  exact List.perm_middle

theorem occupants_map (g : Binding → Binding) (slots : Array (Option Binding)) :
    occupants (slots.map (Option.map g)) = (occupants slots).map g := by
  simp only [occupants, Array.toList_map, List.filterMap_map, List.map_filterMap]
  rfl

theorem exists_vacancy {slots : Array (Option Binding)}
    (room : (occupants slots).length < slots.size) : ∃ i : Nat, slots[i]? = some none := by
  rw [← Array.length_toList] at room
  have member : none ∈ slots.toList := List.reduceOption_length_lt_iff.mp room
  simpa [Array.mem_iff_getElem?] using member

/-- Every variable is where the walk for its name ends, and no two have the same name. -/
structure Settled (hash : String → UInt64) (slots : Array (Option Binding)) : Prop where
  found : ∀ (i : Nat) (b : Binding), slots[i]? = some (some b) → probe hash slots b.name = .found i
  distinct : ((occupants slots).map (·.name)).Nodup

theorem settled_replicate (hash : String → UInt64) (n : Nat) :
    Settled hash (Array.replicate n none) := by
  constructor
  · intro i b here
    simp [Array.getElem?_replicate] at here
  · simp [occupants]

theorem probe_eq_found {slots : Array (Option Binding)} {x : String} {i : Nat}
    (ended : probe hash slots x = .found i) : ∃ b, slots[i]? = some (some b) ∧ b.name = x :=
  Probe.walk_eq_found ended

theorem probe_eq_vacant {slots : Array (Option Binding)} {x : String} {i : Nat}
    (ended : probe hash slots x = .vacant i) : slots[i]? = some none :=
  Probe.walk_eq_vacant ended

structure Roomy (slots : Array (Option Binding)) : Prop where
  power : slots.size.isPowerOfTwo
  room : (occupants slots).length < slots.size

theorem probe_ne_full {slots : Array (Option Binding)} (roomy : Roomy slots) (x : String) :
    probe hash slots x ≠ .full := by
  intro ended
  obtain ⟨j, empty⟩ := exists_vacancy roomy.room
  have start : (hash x).toNat % slots.size < slots.size :=
    Nat.mod_lt _ (Nat.zero_lt_of_lt roomy.room)
  rw [probe, and_mask roomy.power] at ended
  obtain ⟨b, here⟩ :=
    Probe.walk_full_round roomy.power start ended j (Array.getElem?_eq_some_iff.mp empty).1
  rw [empty] at here
  cases here

theorem probe_vacant (hash : String → UInt64) {slots : Array (Option Binding)} {x : String}
    (roomy : Roomy slots) (new : ∀ b ∈ occupants slots, b.name ≠ x) :
    ∃ i, probe hash slots x = .vacant i := by
  cases ended : probe hash slots x with
  | found i =>
    obtain ⟨b, here, same⟩ := probe_eq_found ended
    exact absurd same (new b (mem_occupants.mpr ⟨i, here⟩))
  | vacant i => exact ⟨i, rfl⟩
  | full => exact absurd ended (probe_ne_full roomy x)

section Put

variable {slots : Array (Option Binding)} {b : Binding}

theorem size_put (slots : Array (Option Binding)) (b : Binding) :
    (put hash slots b).size = slots.size := by
  unfold put
  split <;> simp

theorem occupants_put (hash : String → UInt64) (roomy : Roomy slots)
    (new : ∀ c ∈ occupants slots, c.name ≠ b.name) :
    (occupants (put hash slots b)).Perm (b :: occupants slots) := by
  obtain ⟨i, ended⟩ := probe_vacant hash roomy new
  simp only [put, ended]
  exact occupants_set (probe_eq_vacant ended)

theorem Settled.put (settled : Settled hash slots) (roomy : Roomy slots)
    (new : ∀ c ∈ occupants slots, c.name ≠ b.name) : Settled hash (put hash slots b) := by
  constructor
  · obtain ⟨i, ended⟩ := probe_vacant hash roomy new
    have empty := probe_eq_vacant ended
    have bound : i < slots.size := (Array.getElem?_eq_some_iff.mp empty).1
    intro j c here
    simp only [SymbolTable.put, ended] at here ⊢
    rw [Array.getElem?_setIfInBounds] at here
    simp only [probe, Array.size_setIfInBounds]
    split at here
    · rename_i same
      subst same
      cases here
      exact Probe.walk_vacant_set ended
    · exact Probe.walk_found_set (settled.found j c here) empty
  · have names := (occupants_put hash roomy new).map (·.name)
    rw [names.nodup_iff, List.map_cons, List.nodup_cons]
    refine ⟨?_, settled.distinct⟩
    intro taken
    obtain ⟨c, member, same⟩ := List.mem_map.mp taken
    exact new c member same

theorem foldl_put (bs : List Binding) (settled : Settled hash slots)
    (power : slots.size ≠ 0 → slots.size.isPowerOfTwo)
    (room : (occupants slots).length + bs.length < slots.size + 1)
    (distinct : ((bs ++ occupants slots).map (·.name)).Nodup) :
    Settled hash (bs.foldl (SymbolTable.put hash) slots) ∧
      (occupants (bs.foldl (SymbolTable.put hash) slots)).Perm (bs ++ occupants slots) ∧
      (bs.foldl (SymbolTable.put hash) slots).size = slots.size := by
  -- The names still to come are not in the slots yet, so each finds an empty one.
  induction bs generalizing slots with
  | nil => exact ⟨settled, .refl _, rfl⟩
  | cons b bs ih =>
    simp only [List.length_cons] at room
    have free : Roomy slots := ⟨power (by omega), by omega⟩
    have new : ∀ c ∈ occupants slots, c.name ≠ b.name := by
      intro c member same
      rw [List.cons_append, List.map_cons, List.nodup_cons] at distinct
      exact distinct.1 (List.mem_map.mpr ⟨c, List.mem_append_right _ member, same⟩)
    have perm := occupants_put hash free new
    have moved : (bs ++ occupants (SymbolTable.put hash slots b)).Perm
        (b :: bs ++ occupants slots) := (perm.append_left bs).trans List.perm_middle
    have smaller : (occupants (SymbolTable.put hash slots b)).length + bs.length <
        (SymbolTable.put hash slots b).size + 1 := by
      rw [perm.length_eq, size_put, List.length_cons]
      omega
    obtain ⟨after, all, same⟩ := ih (settled.put free new) (by rwa [size_put]) smaller
      ((moved.map (·.name)).nodup_iff.mpr distinct)
    exact ⟨after, all.trans moved, by rw [List.foldl_cons, same, size_put]⟩

end Put

/-- What every table has that was made by adding variables and giving them new values. -/
structure Proper (t : SymbolTable hash) : Prop where
  settled : Settled hash t.slots
  size : t.size = t.toList.length
  load : 5 * t.size ≤ 4 * t.capacity
  capacity : t.capacity = 0 ∨ 8 ≤ t.capacity ∧ t.capacity.isPowerOfTwo

theorem proper_empty : ({} : SymbolTable hash).Proper where
  settled := settled_replicate hash 0
  size := rfl
  load := Nat.le_refl _
  capacity := .inl rfl

section Lookup

variable {t : SymbolTable hash} {x : String} {b : Binding}

theorem contains_eq (t : SymbolTable hash) (x : String) : t.contains x = (t.get? x).isSome := by
  unfold contains get?
  cases ended : probe hash t.slots x with
  | found i =>
    obtain ⟨b, here, _⟩ := probe_eq_found ended
    simp [here]
  | vacant i => rfl
  | full => rfl

theorem get?_eq_some_iff (proper : t.Proper) : t.get? x = some b ↔ b ∈ t.toList ∧ b.name = x := by
  rw [toList_eq, mem_occupants]
  constructor
  · intro got
    unfold get? at got
    split at got
    · rename_i i ended
      obtain ⟨c, here, same⟩ := probe_eq_found ended
      rw [here] at got
      cases got
      exact ⟨⟨i, here⟩, same⟩
    · cases got
  · rintro ⟨⟨i, here⟩, rfl⟩
    simp [get?, proper.settled.found i b here, here]

theorem get?_eq_none_iff (proper : t.Proper) : t.get? x = none ↔ ∀ b ∈ t.toList, b.name ≠ x := by
  rw [Option.eq_none_iff_forall_ne_some]
  simp only [ne_eq, get?_eq_some_iff proper, not_and]

theorem get?_name (proper : t.Proper) (got : t.get? x = some b) : b.name = x :=
  ((get?_eq_some_iff proper).mp got).2

theorem Proper.roomy (proper : t.Proper) (some_slots : t.capacity ≠ 0) : Roomy t.slots := by
  refine ⟨(proper.capacity.resolve_left some_slots).2, ?_⟩
  have size := proper.size
  have load := proper.load
  simp only [toList_eq, SymbolTable.capacity] at size load some_slots
  omega

theorem Proper.power_doubled (proper : t.Proper) : (max (t.capacity * 2) 8).isPowerOfTwo := by
  rcases proper.capacity with none | ⟨enough, power⟩
  · rw [none]
    exact ⟨3, rfl⟩
  · rw [Nat.max_eq_left (by omega)]
    exact Nat.isPowerOfTwo_mul_two_of_isPowerOfTwo power

end Lookup

section Insert

variable {t grown : SymbolTable hash} {b : Binding}

def roomFor (t : SymbolTable hash) : SymbolTable hash :=
  if t.capacity * 4 < (t.size + 1) * 5 then t.grow else t

/-- The slots of a table that doubles, with `done` of its variables already moved. -/
def moving (t : SymbolTable hash) (done : List Binding) : Array (Option Binding) :=
  done.foldl (put hash) (Array.replicate (max (t.capacity * 2) 8) none)

theorem moving_proper (proper : t.Proper) {done rest : List Binding}
    (parts : t.toList = done ++ rest) :
    Settled hash (t.moving done) ∧ (occupants (t.moving done)).Perm done ∧
      (t.moving done).size = max (t.capacity * 2) 8 := by
  have distinct := proper.settled.distinct
  have count := proper.size
  have load := proper.load
  rw [← toList_eq, parts, List.map_append, List.nodup_append] at distinct
  simp only [parts, List.length_append] at count
  have empty : occupants (Array.replicate (max (t.capacity * 2) 8) none) = [] := by simp [occupants]
  have filled := foldl_put done (settled_replicate hash (max (t.capacity * 2) 8))
    (by rw [Array.size_replicate]; exact fun _ => proper.power_doubled)
    (by simp only [empty, Array.size_replicate, List.length_nil]; omega)
    (by rw [empty, List.append_nil]; exact distinct.1)
  rwa [empty, List.append_nil, Array.size_replicate] at filled

theorem grow_proper (proper : t.Proper) :
    Settled hash t.grow.slots ∧ t.grow.toList.Perm t.toList ∧
      t.grow.capacity = max (t.capacity * 2) 8 :=
  moving_proper proper (List.append_nil _).symm

theorem roomFor_proper (proper : t.Proper) :
    Settled hash t.roomFor.slots ∧ t.roomFor.toList.Perm t.toList ∧ t.roomFor.size = t.size ∧
      (t.size + 1) * 5 ≤ t.roomFor.capacity * 4 ∧ 8 ≤ t.roomFor.capacity ∧
      t.roomFor.capacity.isPowerOfTwo := by
  have load := proper.load
  unfold roomFor
  split
  · obtain ⟨settled, perm, capacity⟩ := grow_proper proper
    exact ⟨settled, perm, rfl, by omega, by omega, capacity ▸ proper.power_doubled⟩
  · rename_i fits
    have some_slots : t.capacity ≠ 0 := by omega
    obtain ⟨enough, power⟩ := proper.capacity.resolve_left some_slots
    exact ⟨proper.settled, .refl _, rfl, by omega, enough, power⟩

theorem insert?_eq_none_iff : t.insert? b = none ↔ (t.get? b.name).isSome := by
  simp only [insert?_eq, contains_eq]
  split <;> simp [*]

theorem roomFor_free (proper : t.Proper) (new : t.get? b.name = none) :
    Roomy t.roomFor.slots ∧ ∀ c ∈ occupants t.roomFor.slots, c.name ≠ b.name := by
  obtain ⟨-, perm, -, load, -, power⟩ := roomFor_proper proper
  rw [toList_eq] at perm
  refine ⟨⟨power, ?_⟩, fun c member => (get?_eq_none_iff proper).mp new c (perm.mem_iff.mp member)⟩
  rw [perm.length_eq, ← proper.size]
  simp only [capacity] at load
  omega

theorem insert?_new (new : t.get? b.name = none) :
    t.insert? b = some ⟨put hash t.roomFor.slots b, t.roomFor.size + 1⟩ := by
  simp only [insert?_eq, contains_eq, new]
  rfl

theorem insert?_eq_some (proper : t.Proper) (done : t.insert? b = some grown) :
    grown.Proper ∧ grown.toList.Perm (b :: t.toList) := by
  have new : t.get? b.name = none := by
    rw [← Option.not_isSome_iff_eq_none, ← insert?_eq_none_iff, done]
    simp
  obtain ⟨roomy, absent⟩ := roomFor_free proper new
  obtain ⟨settled, perm, size, load, enough, power⟩ := roomFor_proper proper
  have added := (occupants_put hash roomy absent).trans (perm.cons b)
  cases done.symm.trans (insert?_new new)
  refine ⟨⟨settled.put roomy absent, ?_, ?_, .inr ?_⟩, added⟩
  · rw [toList_eq, added.length_eq, List.length_cons, size, proper.size]
  · simp only [capacity, size_put] at load ⊢
    omega
  · simp only [capacity, size_put] at enough power ⊢
    exact ⟨enough, power⟩

theorem get?_insert? (proper : t.Proper) (done : t.insert? b = some grown) (x : String) :
    grown.get? x = if x = b.name then some b else t.get? x := by
  obtain ⟨proper', perm⟩ := insert?_eq_some proper done
  have new : ∀ c ∈ t.toList, c.name ≠ b.name := by
    rw [← get?_eq_none_iff proper, ← Option.not_isSome_iff_eq_none, ← insert?_eq_none_iff, done]
    simp
  ext c
  rw [get?_eq_some_iff proper', perm.mem_iff, List.mem_cons]
  split
  · rename_i same
    subst same
    constructor
    · rintro ⟨rfl | old, name⟩
      · rfl
      · exact absurd name (new c old)
    · intro same
      cases same
      exact ⟨.inl rfl, rfl⟩
  · rename_i other
    rw [get?_eq_some_iff proper]
    constructor
    · rintro ⟨rfl | old, name⟩
      · exact absurd name.symm other
      · exact ⟨old, name⟩
    · exact fun ⟨old, name⟩ => ⟨.inr old, name⟩

end Insert

section Update

variable {t : SymbolTable hash}

theorem name_assigned (x : String) (value : Value) (b : Binding) :
    (b.assigned x value).name = b.name := by
  unfold Binding.assigned
  split <;> rfl

theorem set_slots (settled : Settled hash t.slots) (x : String) (value : Value) :
    (t.set x value).slots = t.slots.map (Option.map (Binding.assigned x value)) := by
  apply Array.ext_getElem?
  intro j
  rw [Array.getElem?_map]
  -- No other slot has the name, so no other one changes.
  have unmoved : ∀ slot, t.slots[j]? = some slot → probe hash t.slots x ≠ .found j →
      slot.map (Binding.assigned x value) = slot := by
    intro slot here elsewhere
    cases slot with
    | none => rfl
    | some b =>
      have other : b.name ≠ x := by
        rintro rfl
        exact elsewhere (settled.found j b here)
      simp [Binding.assigned, other]
  unfold set
  split
  · rename_i i ended
    simp only [Array.getElem?_modify]
    split
    · rename_i same
      subst same
      obtain ⟨b, here, name⟩ := probe_eq_found ended
      simp [here, Binding.assigned, name]
    · rename_i apart
      cases here : t.slots[j]? with
      | none => rfl
      | some slot =>
        rw [Option.map_some, unmoved slot here]
        rw [ended]
        exact fun same => apart (Probe.found.inj same)
  · rename_i missed
    cases here : t.slots[j]? with
    | none => rfl
    | some slot => rw [Option.map_some, unmoved slot here (missed j)]

theorem toList_set (proper : t.Proper) (x : String) (value : Value) :
    (t.set x value).toList = t.toList.map (Binding.assigned x value) := by
  rw [toList_eq, set_slots proper.settled, occupants_map]
  rfl

theorem size_set (t : SymbolTable hash) (x : String) (value : Value) :
    (t.set x value).size = t.size := by
  unfold set
  split <;> rfl

theorem set_proper (proper : t.Proper) (x : String) (value : Value) : (t.set x value).Proper := by
  have slots := set_slots proper.settled x value
  have capacity : (t.set x value).capacity = t.capacity := by
    simp only [SymbolTable.capacity, slots, Array.size_map]
  constructor
  · rw [slots]
    constructor
    · intro i b here
      rw [Array.getElem?_map] at here
      obtain ⟨slot, old, changed⟩ := Option.map_eq_some_iff.mp here
      obtain ⟨c, rfl, rfl⟩ := Option.map_eq_some_iff.mp changed
      simp only [probe, Array.size_map, Probe.walk_map (name_assigned x value), name_assigned]
      exact proper.settled.found i c old
    · rw [occupants_map, List.map_map]
      have names : (fun b : Binding => b.name) ∘ Binding.assigned x value = (·.name) :=
        funext (name_assigned x value)
      rw [names]
      exact proper.settled.distinct
  · rw [size_set, toList_set proper, List.length_map, proper.size]
  · rw [size_set, capacity]
    exact proper.load
  · rw [capacity]
    exact proper.capacity

theorem get?_set (proper : t.Proper) (x : String) (value : Value) (y : String) :
    (t.set x value).get? y = (t.get? y).map (Binding.assigned x value) := by
  ext c
  rw [get?_eq_some_iff (set_proper proper x value), toList_set proper, List.mem_map,
    Option.map_eq_some_iff]
  simp only [get?_eq_some_iff proper]
  constructor
  · rintro ⟨⟨b, member, rfl⟩, name⟩
    exact ⟨b, ⟨member, by rw [← name, name_assigned]⟩, rfl⟩
  · rintro ⟨b, ⟨member, name⟩, rfl⟩
    exact ⟨⟨b, member, rfl⟩, by rw [name_assigned, name]⟩

end Update

end SymbolTable
end ScriptKit
