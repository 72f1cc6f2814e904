import ScriptKit.Proofs.Scope.Release
import ScriptKit.Proofs.Scope.Renaming

/-! The frames of two runs side by side, where only the first run gives frames back.

Frames are opened in the same order in both runs, so the numbers of the first grow with those of the
second. Of the frames of the first run only the live ones are like their counterparts; the others
were emptied, and no closure that is still at hand was made in them. -/

namespace ScriptKit

structure Correspondence where
  /-- The frames of the first run. -/
  size : Nat
  /-- The number that a frame has in the second run. -/
  rename : ScopeId → ScopeId
  /-- The frames that can still be come to. -/
  live : ScopeId → Prop
  /-- The frames that closures at hand were made in. -/
  home : ScopeId → Prop
  increasing : ∀ {i j}, i < j → j < size → rename i < rename j
  live_lt : ∀ {i}, live i → i < size
  live_of_home : ∀ {i}, home i → live i

namespace Correspondence

theorem rename_inj (c : Correspondence) {i j : ScopeId} (hi : i < c.size) (hj : j < c.size)
    (same : c.rename i = c.rename j) : i = j := by
  rcases Nat.lt_trichotomy i j with less | equal | more
  · exact absurd same (Nat.ne_of_lt (c.increasing less hj))
  · exact equal
  · exact absurd same.symm (Nat.ne_of_lt (c.increasing more hi))

/-- A later correspondence may have more frames, but says the same of those that were there. -/
structure Le (c d : Correspondence) : Prop where
  size : c.size ≤ d.size
  rename : ∀ i < c.size, d.rename i = c.rename i
  live : ∀ i, c.live i → d.live i
  home : ∀ i, c.home i → d.home i

instance : LE Correspondence := ⟨Le⟩

theorem le_refl (c : Correspondence) : c ≤ c :=
  ⟨Nat.le_refl _, fun _ _ => rfl, fun _ h => h, fun _ h => h⟩

theorem le_trans {c d e : Correspondence} (first : c ≤ d) (second : d ≤ e) : c ≤ e where
  size := Nat.le_trans first.size second.size
  rename := fun i inside =>
    (second.rename i (Nat.lt_of_lt_of_le inside first.size)).trans (first.rename i inside)
  live := fun i h => second.live i (first.live i h)
  home := fun i h => second.home i (first.home i h)

/-- Every closure in a value was made in a frame that is still there. -/
def Holds (c : Correspondence) (v : Value) : Prop :=
  ∀ e ∈ v.envs, c.home e

theorem Holds.lt {c : Correspondence} {v : Value} (holds : c.Holds v) {e : ScopeId}
    (member : e ∈ v.envs) : e < c.size :=
  c.live_lt (c.live_of_home (holds e member))

theorem Holds.mono {c d : Correspondence} (later : c ≤ d) {v : Value} (holds : c.Holds v) :
    d.Holds v :=
  fun e member => later.home e (holds e member)

theorem Holds.rename_eq {c d : Correspondence} (later : c ≤ d) {v : Value} (holds : c.Holds v) :
    v.rename d.rename = v.rename c.rename :=
  Value.rename_congr v fun e member => later.rename e (holds.lt member)

def ValueMatch (c : Correspondence) (v w : Value) : Prop :=
  w = v.rename c.rename ∧ c.Holds v

theorem ValueMatch.mono {c d : Correspondence} (later : c ≤ d) {v w : Value}
    (same : c.ValueMatch v w) : d.ValueMatch v w :=
  ⟨same.1.trans (same.2.rename_eq later).symm, same.2.mono later⟩

theorem valueMatch_of_no_envs (c : Correspondence) {v : Value} (plain : v.envs = []) :
    c.ValueMatch v v := by
  refine ⟨(Value.rename_of_no_envs plain).symm, fun e member => ?_⟩
  rw [plain] at member
  cases member

structure FrameMatch (c : Correspondence) (id : ScopeId) (a b : Frame) : Prop where
  table : b.table = a.table.rename c.rename
  parent : b.parent = a.parent.map c.rename
  parent_live : ∀ p ∈ a.parent, c.live p
  captured : c.home id → a.captured = true

structure ScopesMatch (c : Correspondence) (s t : Scopes) : Prop where
  size : s.size = c.size
  global : c.live Scopes.globalId
  rename_global : c.rename Scopes.globalId = Scopes.globalId
  inside : ∀ i < c.size, c.rename i < t.size
  older : ∀ (i : ScopeId) (a : Frame), s.frames[i]? = some a → ∀ p ∈ a.parent, p < i
  envs : ∀ (i : ScopeId) (a : Frame), s.frames[i]? = some a → ∀ e ∈ a.table.envs, c.home e
  frames : ∀ i, c.live i → ∃ a b : Frame, s.frames[i]? = some a ∧ t.frames[c.rename i]? = some b ∧
    c.FrameMatch i a b

theorem owner?_match {c : Correspondence} {s t : Scopes} (scopes : c.ScopesMatch s t)
    (name : String) (id : ScopeId) (live : c.live id) :
    t.owner? name (c.rename id) = (s.owner? name id).map c.rename ∧
      ∀ o, s.owner? name id = some o → c.live o := by
  -- Strong induction along the chain of parents, which only leads to older frames.
  induction id using Nat.strongRecOn with
  | ind id ih =>
    obtain ⟨a, b, ha, hb, frame⟩ := scopes.frames id live
    rw [Scopes.owner?, Scopes.owner?]
    simp only [ha, hb, frame.table, SymbolTable.contains_rename, frame.parent]
    split
    · exact ⟨rfl, fun o same => Option.some.inj same ▸ live⟩
    · cases parent : a.parent with
      | none => exact ⟨rfl, fun o same => (Option.some_ne_none o same.symm).elim⟩
      | some p =>
        have earlier : p < id := scopes.older id a ha p parent
        have alive : c.live p := frame.parent_live p parent
        have order : c.rename p < c.rename id := c.increasing earlier (c.live_lt live)
        simp only [Option.map_some, if_pos earlier, if_pos order]
        exact ih p earlier alive

theorem lookup?_match {c : Correspondence} {s t : Scopes} (scopes : c.ScopesMatch s t)
    (name : String) (id : ScopeId) (live : c.live id) :
    t.lookup? (c.rename id) name = (s.lookup? id name).map (Binding.rename c.rename) ∧
      ∀ b, s.lookup? id name = some b → c.Holds b.value := by
  obtain ⟨owner, owner_live⟩ := owner?_match scopes name id live
  unfold Scopes.lookup?
  rw [owner]
  cases found : s.owner? name id with
  | none => exact ⟨rfl, fun b same => (Option.some_ne_none b same.symm).elim⟩
  | some o =>
    obtain ⟨a, b, ha, hb, frame⟩ := scopes.frames o (owner_live o found)
    simp only [Option.map_some, Option.bind_eq_bind, Option.bind_some, ha, hb, frame.table,
      SymbolTable.get?_rename]
    refine ⟨trivial, fun b got e member => ?_⟩
    exact scopes.envs o a ha e (SymbolTable.get?_envs got e member)

/-- Giving a live frame and its counterpart new variables. -/
theorem ScopesMatch.update {c : Correspondence} {s t : Scopes} (scopes : c.ScopesMatch s t)
    {id : ScopeId} (live : c.live id) {a b : Frame} (ha : s.frames[id]? = some a)
    (hb : t.frames[c.rename id]? = some b) (frame : c.FrameMatch id a b)
    {table : SymbolTable fnv1a} (envs : ∀ e ∈ table.envs, c.home e) :
    c.ScopesMatch ⟨s.frames.setIfInBounds id { a with table }⟩
      ⟨t.frames.setIfInBounds (c.rename id) { b with table := table.rename c.rename }⟩ := by
  have changed : ∀ i f, (s.frames.setIfInBounds id { a with table })[i]? = some f →
      (i = id ∧ f = { a with table }) ∨ s.frames[i]? = some f := by
    intro i f found
    rw [Array.getElem?_setIfInBounds] at found
    split at found
    · rename_i same
      split at found
      · exact .inl ⟨same.symm, (Option.some.inj found).symm⟩
      · cases found
    · exact .inr found
  constructor
  case size => exact (Array.size_setIfInBounds ..).trans scopes.size
  case global => exact scopes.global
  case rename_global => exact scopes.rename_global
  case inside =>
    intro i inside
    simp only [Scopes.size, Array.size_setIfInBounds]
    exact scopes.inside i inside
  case older =>
    intro i f found
    rcases changed i f found with ⟨rfl, rfl⟩ | old
    · exact scopes.older i a ha
    · exact scopes.older i f old
  case envs =>
    intro i f found
    rcases changed i f found with ⟨rfl, rfl⟩ | old
    · exact envs
    · exact scopes.envs i f old
  case frames =>
    intro i alive
    by_cases same : i = id
    · subst same
      refine ⟨{ a with table }, { b with table := table.rename c.rename }, ?_, ?_, ?_⟩
      · rw [Array.getElem?_setIfInBounds_self, if_pos (Array.getElem?_eq_some_iff.mp ha).1]
      · rw [Array.getElem?_setIfInBounds_self, if_pos (Array.getElem?_eq_some_iff.mp hb).1]
      · exact ⟨rfl, frame.parent, frame.parent_live, frame.captured⟩
    · obtain ⟨a', b', ha', hb', frame'⟩ := scopes.frames i alive
      have apart : c.rename id ≠ c.rename i := fun equal =>
        same (c.rename_inj (c.live_lt alive) (c.live_lt live) equal.symm)
      refine ⟨a', b', ?_, ?_, frame'⟩
      · rw [Array.getElem?_setIfInBounds_ne (Ne.symm same)]
        exact ha'
      · rw [Array.getElem?_setIfInBounds_ne apart]
        exact hb'

theorem declare_match {c : Correspondence} {s t : Scopes} (scopes : c.ScopesMatch s t)
    {id : ScopeId} (live : c.live id) {b : Binding} (holds : c.Holds b.value) :
    (∃ s' t', s.declare id b = .ok s' ∧ t.declare (c.rename id) (b.rename c.rename) = .ok t' ∧
      c.ScopesMatch s' t') ∨
    ∃ e, s.declare id b = .error e ∧ t.declare (c.rename id) (b.rename c.rename) = .error e := by
  obtain ⟨f, g, hf, hg, frame⟩ := scopes.frames id live
  simp only [Scopes.declare_eq, hf, hg, frame.table, SymbolTable.insert?_rename]
  cases inserted : f.table.insert? b with
  | none => exact .inr ⟨_, rfl, rfl⟩
  | some table =>
    refine .inl ⟨_, _, rfl, rfl, scopes.update live hf hg frame ?_⟩
    intro e member
    rcases SymbolTable.insert?_envs inserted e member with new | old
    · exact holds e new
    · exact scopes.envs id f hf e old

theorem modify_eq_set {α : Type} {xs : Array α} {i : Nat} {a : α} (g : α → α)
    (found : xs[i]? = some a) : xs.modify i g = xs.setIfInBounds i (g a) := by
  apply Array.ext_getElem?
  intro j
  rw [Array.getElem?_modify, Array.getElem?_setIfInBounds]
  split
  · rename_i same
    subst same
    rw [found, if_pos (Array.getElem?_eq_some_iff.mp found).1]
    rfl
  · rfl

theorem assign_match {c : Correspondence} {s t : Scopes} (scopes : c.ScopesMatch s t)
    {id : ScopeId} (live : c.live id) (name : String) {v : Value} (holds : c.Holds v) :
    (∃ s' t', s.assign id name v = .ok s' ∧
      t.assign (c.rename id) name (v.rename c.rename) = .ok t' ∧
      c.ScopesMatch s' t') ∨
    ∃ e, s.assign id name v = .error e ∧
      t.assign (c.rename id) name (v.rename c.rename) = .error e := by
  obtain ⟨owner, owner_live⟩ := owner?_match scopes name id live
  simp only [Scopes.assign_eq, owner]
  cases found : s.owner? name id with
  | none => exact .inr ⟨_, rfl, rfl⟩
  | some o =>
    have alive := owner_live o found
    obtain ⟨f, g, hf, hg, frame⟩ := scopes.frames o alive
    simp only [Option.map_some, hf, hg, Option.bind_some, frame.table, SymbolTable.get?_rename]
    cases f.table.get? name with
    | none => exact .inr ⟨_, rfl, rfl⟩
    | some b =>
      by_cases constant : b.isConst = true
      · have constant' : (b.rename c.rename).isConst = true := constant
        simp only [Option.map_some, if_pos constant, if_pos constant']
        exact .inr ⟨_, rfl, rfl⟩
      · have constant' : ¬ (b.rename c.rename).isConst = true := constant
        simp only [Option.map_some, if_neg constant, if_neg constant']
        refine .inl ⟨_, _, rfl, rfl, ?_⟩
        rw [modify_eq_set _ hf, modify_eq_set _ hg, frame.table, SymbolTable.set_rename]
        apply scopes.update alive hf hg frame
        intro e member
        rcases SymbolTable.set_envs e member with new | old
        · exact holds e new
        · exact scopes.envs o f hf e old

def noting (c : Correspondence) (id : ScopeId) (live : c.live id) : Correspondence where
  size := c.size
  rename := c.rename
  live := c.live
  home := fun i => c.home i ∨ i = id
  increasing := c.increasing
  live_lt := c.live_lt
  live_of_home := fun h => h.elim c.live_of_home (fun same => same ▸ live)

theorem le_noting (c : Correspondence) (id : ScopeId) (live : c.live id) : c ≤ c.noting id live :=
  ⟨Nat.le_refl _, fun _ _ => rfl, fun _ h => h, fun _ h => .inl h⟩

theorem getElem?_capture {s : Scopes} {id i : ScopeId} {a : Frame} (found : s.frames[i]? = some a) :
    (s.capture id).frames[i]? = some { a with captured := a.captured || i == id } := by
  simp only [Scopes.capture, Array.getElem?_modify, found]
  split
  · rename_i same
    simp [same]
  · rename_i apart
    rw [beq_eq_false_iff_ne.mpr (Ne.symm apart), Bool.or_false]

theorem of_getElem?_capture {s : Scopes} {id i : ScopeId} {f : Frame}
    (found : (s.capture id).frames[i]? = some f) :
    ∃ a, s.frames[i]? = some a ∧ f = { a with captured := a.captured || i == id } := by
  have inside := (Array.getElem?_eq_some_iff.mp found).1
  simp only [Scopes.capture, Array.size_modify] at inside
  have present := Array.getElem?_eq_getElem inside
  exact ⟨_, present, Option.some.inj (found.symm.trans (getElem?_capture present))⟩

theorem capture_match {c : Correspondence} {s t : Scopes} (scopes : c.ScopesMatch s t)
    {id : ScopeId} (live : c.live id) :
    (c.noting id live).ScopesMatch (s.capture id) (t.capture (c.rename id)) := by
  constructor
  case size => exact (Array.size_modify ..).trans scopes.size
  case global => exact scopes.global
  case rename_global => exact scopes.rename_global
  case inside =>
    intro i inside
    simp only [Scopes.size, Scopes.capture, Array.size_modify]
    exact scopes.inside i inside
  case older =>
    intro i f found
    obtain ⟨a, present, rfl⟩ := of_getElem?_capture found
    exact scopes.older i a present
  case envs =>
    intro i f found e member
    obtain ⟨a, present, rfl⟩ := of_getElem?_capture found
    exact .inl (scopes.envs i a present e member)
  case frames =>
    intro i alive
    obtain ⟨a, b, ha, hb, frame⟩ := scopes.frames i alive
    refine ⟨_, _, getElem?_capture ha, getElem?_capture hb, frame.table, frame.parent,
      frame.parent_live, ?_⟩
    rintro (old | rfl)
    · simp [frame.captured old]
    · simp

def opening (c : Correspondence) (target : ScopeId) (bound : ∀ i < c.size, c.rename i < target) :
    Correspondence where
  size := c.size + 1
  rename := fun i => if i < c.size then c.rename i else target
  live := fun i => c.live i ∨ i = c.size
  home := c.home
  increasing := by
    intro i j less inside
    have early : i < c.size := Nat.lt_of_lt_of_le less (Nat.le_of_lt_succ inside)
    rw [if_pos early]
    split
    · rename_i old
      exact c.increasing less old
    · exact bound i early
  live_lt := by
    rintro i (old | rfl)
    · exact Nat.lt_succ_of_lt (c.live_lt old)
    · exact Nat.lt_succ_self _
  live_of_home := fun h => .inl (c.live_of_home h)

theorem le_opening (c : Correspondence) (target : ScopeId)
    (bound : ∀ i < c.size, c.rename i < target) : c ≤ c.opening target bound :=
  ⟨Nat.le_succ _, fun _ inside => if_pos inside, fun _ h => .inl h, fun _ h => h⟩

theorem push_match {c : Correspondence} {s t : Scopes} (scopes : c.ScopesMatch s t)
    {parent : ScopeId} (live : c.live parent) :
    (c.opening t.size scopes.inside).ScopesMatch (s.push parent) (t.push (c.rename parent)) := by
  have inside_parent := c.live_lt live
  have global_lt := c.live_lt scopes.global
  have grown : s.frames.size = c.size := scopes.size
  constructor
  case size =>
    simp only [Scopes.size, Scopes.push, Array.size_push, grown, opening]
  case global => exact .inl scopes.global
  case rename_global =>
    simp only [opening, if_pos global_lt, scopes.rename_global]
  case inside =>
    intro i _
    simp only [opening, Scopes.size, Scopes.push, Array.size_push]
    split
    · rename_i old
      exact Nat.lt_succ_of_lt (scopes.inside i old)
    · exact Nat.lt_succ_self _
  case older =>
    intro i a found p member
    simp only [Scopes.push, Array.getElem?_push, grown] at found
    split at found
    · rename_i last
      cases found
      cases member
      exact last ▸ inside_parent
    · exact scopes.older i a found p member
  case envs =>
    intro i a found e member
    simp only [Scopes.push, Array.getElem?_push] at found
    split at found
    · cases found
      cases member
    · exact scopes.envs i a found e member
  case frames =>
    rintro i (alive | rfl)
    · have old := c.live_lt alive
      obtain ⟨a, b, ha, hb, frame⟩ := scopes.frames i alive
      have bound : c.rename i < t.frames.size := scopes.inside i old
      refine ⟨a, b, ?_, ?_, ?_, ?_, ?_, frame.captured⟩
      · simp only [Scopes.push, Array.getElem?_push, grown, if_neg (Nat.ne_of_lt old), ha]
      · simp only [opening, if_pos old, Scopes.push, Array.getElem?_push,
          if_neg (Nat.ne_of_lt bound), hb]
      · rw [frame.table]
        apply SymbolTable.rename_congr
        intro e member
        have home := scopes.envs i a ha e member
        simp only [opening, if_pos (c.live_lt (c.live_of_home home))]
      · rw [frame.parent]
        cases parent : a.parent with
        | none => rfl
        | some p =>
          simp only [Option.map_some, opening, if_pos (c.live_lt (frame.parent_live p parent))]
      · exact fun p member => .inl (frame.parent_live p member)
    · refine ⟨{ parent := some parent }, { parent := some (c.rename parent) }, ?_, ?_, ?_, ?_,
        ?_, ?_⟩
      · simp only [Scopes.push, Array.getElem?_push, grown, if_pos]
      · simp only [opening, Nat.lt_irrefl, if_false, Scopes.push, Scopes.size, Array.getElem?_push,
          if_pos]
      · exact (SymbolTable.rename_empty _).symm
      · simp only [Option.map_some, opening, if_pos inside_parent]
      · exact fun p member => .inl (Option.some.inj member ▸ live)
      · exact fun home => absurd (c.live_lt (c.live_of_home home)) (Nat.lt_irrefl _)

/-- The first run gives frames back and is left with `size` of them, `kept` being those it did not
empty. -/
def keeping (c : Correspondence) (size : Nat) (kept : ScopeId → Prop) (smaller : size ≤ c.size)
    (inside : ∀ i, c.live i → kept i → i < size) : Correspondence where
  size := size
  rename := c.rename
  live := fun i => c.live i ∧ kept i
  home := fun i => c.home i ∧ kept i
  increasing := fun less below => c.increasing less (Nat.lt_of_lt_of_le below smaller)
  live_lt := fun h => inside _ h.1 h.2
  live_of_home := fun h => ⟨c.live_of_home h.1, h.2⟩

theorem captured_of_home {c : Correspondence} {s t : Scopes} (scopes : c.ScopesMatch s t)
    {e : ScopeId} (home : c.home e) :
    ∃ frame, s.frames[e]? = some frame ∧ frame.captured = true := by
  obtain ⟨a, _, ha, _, frame⟩ := scopes.frames e (c.live_of_home home)
  exact ⟨a, ha, frame.captured home⟩

theorem home_of_root {c : Correspondence} {s t : Scopes} (scopes : c.ScopesMatch s t) {mark : Nat}
    {v : Value} (holds : c.Holds v) {e : ScopeId} (root : e ∈ s.roots mark v) : c.home e := by
  rcases (Scopes.mem_roots_iff s mark v e).mp root with member | ⟨i, -, frame, found, inside⟩
  · exact holds e member
  · exact scopes.envs i frame found e inside

/-- Frames that were there before stay live, and so does all that the result needs. The second run
does nothing here. -/
theorem release_match {c d : Correspondence} (later : c ≤ d) {s t : Scopes}
    (scopes : d.ScopesMatch s t) (positive : 0 < c.size) {v w : Value} (same : d.ValueMatch v w) :
    ∃ e, c ≤ e ∧ e.ScopesMatch (s.release c.size v) t ∧ e.ValueMatch v w := by
  have below : c.size ≤ s.size := scopes.size ▸ later.size
  -- Every root is the home of a closure, and the walk stops only at frames that are not.
  obtain ⟨kept, keeps⟩ := Scopes.release_keeps positive below fun e root =>
    captured_of_home scopes (home_of_root scopes same.2 root)
  have here : ∀ i, d.live i → kept i → ∃ a b, (s.release c.size v).frames[i]? = some a ∧
      s.frames[i]? = some a ∧ t.frames[d.rename i]? = some b ∧ d.FrameMatch i a b := by
    intro i live keep
    obtain ⟨a, b, ha, hb, frame⟩ := scopes.frames i live
    exact ⟨a, b, (keeps.same i keep).trans ha, ha, hb, frame⟩
  have inside : ∀ i, d.live i → kept i → i < (s.release c.size v).size := by
    intro i live keep
    obtain ⟨a, _, ha, _⟩ := here i live keep
    exact (Array.getElem?_eq_some_iff.mp ha).1
  have smaller : (s.release c.size v).size ≤ d.size := scopes.size ▸ keeps.size_le
  have lt_size : ∀ i, d.live i → i < s.size := fun i live => scopes.size ▸ d.live_lt live
  have old_kept : ∀ i, c.live i → kept i := fun i live => keeps.below i (c.live_lt live)
  refine ⟨d.keeping _ kept smaller inside, ?_, ?_, same.1, ?_⟩
  · exact ⟨keeps.size_ge, later.rename, fun i live => ⟨later.live i live, old_kept i live⟩,
      fun i home => ⟨later.home i home, old_kept i (c.live_of_home home)⟩⟩
  · constructor
    case size => rfl
    case global => exact ⟨scopes.global, keeps.below _ positive⟩
    case rename_global => exact scopes.rename_global
    case inside => exact fun i bound => scopes.inside i (Nat.lt_of_lt_of_le bound smaller)
    case older =>
      intro i a found
      by_cases keep : kept i
      · exact scopes.older i a ((keeps.same i keep).symm.trans found)
      · obtain ⟨old, present, rfl⟩ := keeps.emptied i a keep found
        exact scopes.older i old present
    case envs =>
      intro i a found e member
      by_cases keep : kept i
      · have present := (keeps.same i keep).symm.trans found
        have home := scopes.envs i a present e member
        exact ⟨home, keeps.envs i a keep present e member (lt_size e (d.live_of_home home))⟩
      · obtain ⟨old, _, rfl⟩ := keeps.emptied i a keep found
        cases member
    case frames =>
      rintro i ⟨live, keep⟩
      obtain ⟨a, b, ha, present, hb, frame⟩ := here i live keep
      refine ⟨a, b, ha, hb, frame.table, frame.parent, ?_, fun home => frame.captured home.1⟩
      intro p member
      have parent_live := frame.parent_live p member
      refine ⟨parent_live, ?_⟩
      rcases Nat.lt_or_ge i c.size with old | new
      · exact keeps.below p (Nat.lt_trans (scopes.older i a present p member) old)
      · exact keeps.parent i a new keep present p member (lt_size p parent_live)
  · exact fun e member => ⟨same.2 e member, keeps.result e member⟩

end Correspondence

end ScriptKit
