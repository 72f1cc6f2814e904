import ScriptKit.Proofs.Scope.Release
import ScriptKit.Proofs.Scope.Table
import ScriptKit.Proofs.Value.Closures

/-! Frames in which no number leads nowhere.

A closure at hand names a function of the catalogue and a frame that exists and is noted as the home
of a closure. The note is what keeps the frame from being cut off when younger frames are given
back. -/

namespace ScriptKit.Scopes

variable {funcs bound : Nat} {s t : Scopes}

def IsHome (s : Scopes) (i : ScopeId) : Prop :=
  ∃ frame, s.frames[i]? = some frame ∧ frame.captured = true

theorem IsHome.lt {i : ScopeId} (home : s.IsHome i) : i < s.size := by
  obtain ⟨frame, found, _⟩ := home
  exact (Array.getElem?_eq_some_iff.mp found).1

def Retains (bound : Nat) (s t : Scopes) : Prop :=
  ∀ i < bound, s.IsHome i → t.IsHome i

/-- Every closure in the value is of one of the `funcs` functions, and at home below `bound`. -/
def Held (funcs : Nat) (s : Scopes) (bound : Nat) (v : Value) : Prop :=
  ∀ c ∈ v.closures, c.1 < funcs ∧ c.2 < bound ∧ s.IsHome c.2

theorem Held.mono {bound' : Nat} {v : Value} (held : Held funcs s bound v)
    (retains : Retains bound s t) (wider : bound ≤ bound') : Held funcs t bound' v := by
  intro c member
  obtain ⟨known, below, home⟩ := held c member
  exact ⟨known, Nat.lt_of_lt_of_le below wider, retains c.2 below home⟩

theorem held_plain {v : Value} (plain : v.closures = []) : Held funcs s bound v := by
  intro c member
  rw [plain] at member
  cases member

theorem held_array {items : List Value} :
    Held funcs s bound (.array items) ↔ ∀ v ∈ items, Held funcs s bound v := by
  simp only [Held, Value.closures_array, List.mem_flatMap]
  constructor
  · exact fun all v member c inside => all c ⟨v, member, inside⟩
  · rintro each c ⟨v, member, inside⟩
    exact each v member c inside

structure FrameSound (funcs : Nat) (s : Scopes) (i : ScopeId) (f : Frame) : Prop where
  older : ∀ p ∈ f.parent, p < i
  proper : f.table.Proper
  held : ∀ b ∈ f.table.toList, Held funcs s s.size b.value

structure Sound (funcs : Nat) (s : Scopes) : Prop where
  positive : 0 < s.size
  frames : ∀ (i : ScopeId) (f : Frame), s.frames[i]? = some f → FrameSound funcs s i f

theorem FrameSound.mono {i : ScopeId} {f : Frame} (sound : FrameSound funcs s i f)
    (retains : Retains s.size s t) (wider : s.size ≤ t.size) : FrameSound funcs t i f :=
  ⟨sound.older, sound.proper, fun b member => (sound.held b member).mono retains wider⟩

theorem frameSound_empty {i : ScopeId} {parent : Option ScopeId} (older : ∀ p ∈ parent, p < i)
    (captured : Bool) : FrameSound funcs s i { parent, captured } :=
  ⟨older, SymbolTable.proper_empty, fun _ member => nomatch member⟩

theorem Sound.more {funcs' : Nat} (sound : Sound funcs s) (more : funcs ≤ funcs') :
    Sound funcs' s := by
  refine ⟨sound.positive, fun i f found => ?_⟩
  have here := sound.frames i f found
  refine ⟨here.older, here.proper, fun b member c inside => ?_⟩
  obtain ⟨known, home⟩ := here.held b member c inside
  exact ⟨Nat.lt_of_lt_of_le known more, home⟩

theorem sound_initial (funcs : Nat) : Sound funcs initial := by
  refine ⟨Nat.one_pos, fun i f found => ?_⟩
  cases i with
  | zero =>
    cases found
    exact frameSound_empty (by simp) true
  | succ i => cases found

section Lookup

variable {id : ScopeId} {frame : Frame} {x : String}

theorem owner?_here (found : s.frames[id]? = some frame) {b : Binding}
    (got : frame.table.get? x = some b) : s.owner? x id = some id := by
  rw [owner?, found]
  simp [SymbolTable.contains_eq, got]

theorem owner?_parent (found : s.frames[id]? = some frame) (missing : frame.table.get? x = none)
    {p : ScopeId} (up : frame.parent = some p) (older : p < id) : s.owner? x id = s.owner? x p := by
  rw [owner?, found]
  simp [SymbolTable.contains_eq, missing, up, older]

theorem owner?_outermost (found : s.frames[id]? = some frame) (missing : frame.table.get? x = none)
    (top : frame.parent = none) : s.owner? x id = none := by
  rw [owner?, found]
  simp [SymbolTable.contains_eq, missing, top]

theorem lookup?_here (found : s.frames[id]? = some frame) {b : Binding}
    (got : frame.table.get? x = some b) : s.lookup? id x = some b := by
  simp [lookup?, owner?_here found got, found, got]

theorem lookup?_outermost (found : s.frames[id]? = some frame) (missing : frame.table.get? x = none)
    (top : frame.parent = none) : s.lookup? id x = none := by
  simp [lookup?, owner?_outermost found missing top]

end Lookup

section Update

variable {id : ScopeId} {frame : Frame} {table : SymbolTable fnv1a}

theorem getElem?_update (found : s.frames[id]? = some frame) (frame' : Frame) (i : ScopeId) :
    (s.frames.setIfInBounds id frame')[i]? = if i = id then some frame' else s.frames[i]? := by
  have inside := (Array.getElem?_eq_some_iff.mp found).1
  rw [Array.getElem?_setIfInBounds]
  split
  · rename_i same
    rw [if_pos same.symm]
  · rename_i apart
    rw [if_neg (Ne.symm apart)]

theorem retains_update (found : s.frames[id]? = some frame) :
    Retains bound s ⟨s.frames.setIfInBounds id { frame with table }⟩ := by
  rintro i - ⟨f, here, noted⟩
  simp only [IsHome, getElem?_update found]
  split
  · rename_i same
    subst same
    rw [found] at here
    cases here
    exact ⟨_, rfl, noted⟩
  · exact ⟨f, here, noted⟩

theorem size_update (frame' : Frame) :
    (⟨s.frames.setIfInBounds id frame'⟩ : Scopes).size = s.size :=
  Array.size_setIfInBounds ..

theorem Sound.update (sound : Sound funcs s) (found : s.frames[id]? = some frame)
    (proper : table.Proper) (held : ∀ b ∈ table.toList, Held funcs s s.size b.value) :
    Sound funcs ⟨s.frames.setIfInBounds id { frame with table }⟩ := by
  refine ⟨by rw [size_update]; exact sound.positive, fun i f here => ?_⟩
  suffices FrameSound funcs s i f from
    this.mono (retains_update found) (Nat.le_of_eq (size_update _).symm)
  rw [getElem?_update found] at here
  split at here
  · rename_i same
    subst same
    cases here
    exact ⟨(sound.frames i frame found).older, proper, held⟩
  · exact sound.frames i f here

theorem Sound.insert (sound : Sound funcs s) (found : s.frames[id]? = some frame) {b : Binding}
    (inserted : frame.table.insert? b = some table) (held : Held funcs s s.size b.value) :
    Sound funcs ⟨s.frames.setIfInBounds id { frame with table }⟩ := by
  have here := sound.frames id frame found
  obtain ⟨proper, perm⟩ := SymbolTable.insert?_eq_some here.proper inserted
  apply sound.update found proper
  intro c member
  rcases List.mem_cons.mp (perm.mem_iff.mp member) with rfl | old
  · exact held
  · exact here.held c old

theorem Sound.set (sound : Sound funcs s) (found : s.frames[id]? = some frame) {v : Value}
    (x : String) (held : Held funcs s s.size v) :
    Sound funcs ⟨s.frames.setIfInBounds id { frame with table := frame.table.set x v }⟩ := by
  have here := sound.frames id frame found
  apply sound.update found (SymbolTable.set_proper here.proper x v)
  intro c member
  rw [SymbolTable.toList_set here.proper] at member
  obtain ⟨b, old, rfl⟩ := List.mem_map.mp member
  unfold Binding.assigned
  split
  · exact held
  · exact here.held b old

end Update

section Capture

theorem getElem?_capture (s : Scopes) (id i : ScopeId) :
    (s.capture id).frames[i]? =
      s.frames[i]?.map fun f => { f with captured := f.captured || i == id } := by
  simp only [capture, Array.getElem?_modify]
  split
  · rename_i same
    subst same
    cases s.frames[id]? <;> simp
  · rename_i apart
    have other : (i == id) = false := beq_eq_false_iff_ne.mpr (Ne.symm apart)
    cases s.frames[i]? <;> simp [other]

theorem size_capture (s : Scopes) (id : ScopeId) : (s.capture id).size = s.size :=
  Array.size_modify ..

theorem retains_capture (id : ScopeId) : Retains bound s (s.capture id) := by
  rintro i - ⟨f, here, noted⟩
  exact ⟨_, by rw [getElem?_capture, here]; rfl, by simp [noted]⟩

theorem isHome_capture {id : ScopeId} (inside : id < s.size) : (s.capture id).IsHome id :=
  ⟨_, by rw [getElem?_capture, Array.getElem?_eq_getElem inside]; rfl, by simp⟩

theorem Sound.capture (sound : Sound funcs s) (id : ScopeId) : Sound funcs (s.capture id) := by
  refine ⟨by rw [size_capture]; exact sound.positive, fun i f here => ?_⟩
  rw [getElem?_capture] at here
  obtain ⟨g, present, rfl⟩ := Option.map_eq_some_iff.mp here
  have old := (sound.frames i g present).mono (retains_capture id)
    (Nat.le_of_eq (size_capture s id).symm)
  exact ⟨old.older, old.proper, old.held⟩

end Capture

section Push

theorem size_push (s : Scopes) (parent : ScopeId) : (s.push parent).size = s.size + 1 :=
  Array.size_push ..

theorem getElem?_push (s : Scopes) (parent i : ScopeId) :
    (s.push parent).frames[i]? = if i =
      s.size then some { parent := some parent } else s.frames[i]? :=
  Array.getElem?_push

theorem retains_push (parent : ScopeId) : Retains bound s (s.push parent) := by
  rintro i - home
  have apart : i ≠ s.size := Nat.ne_of_lt home.lt
  obtain ⟨f, here, noted⟩ := home
  exact ⟨f, by rw [getElem?_push, if_neg apart, here], noted⟩

theorem Sound.push (sound : Sound funcs s) {parent : ScopeId} (inside : parent < s.size) :
    Sound funcs (s.push parent) := by
  refine ⟨by rw [size_push]; exact Nat.succ_pos _, fun i f here => ?_⟩
  rw [getElem?_push] at here
  split at here
  · rename_i last
    cases here
    apply frameSound_empty
    rintro p ⟨⟩
    exact last ▸ inside
  · exact (sound.frames i f here).mono (retains_push parent)
      (by rw [size_push]; exact Nat.le_succ _)

end Push

section Release

theorem mem_envs_of_closure {v : Value} {c : FuncId × ScopeId} (member : c ∈ v.closures) :
    c.2 ∈ v.envs := by
  rw [Value.envs_eq_map]
  exact List.mem_map_of_mem member

theorem home_of_env {v : Value} (held : Held funcs s bound v) {e : ScopeId} (member : e ∈ v.envs) :
    s.IsHome e := by
  rw [Value.envs_eq_map] at member
  obtain ⟨c, inside, rfl⟩ := List.mem_map.mp member
  exact (held c inside).2.2

theorem Sound.home_of_root (sound : Sound funcs s) {mark : Nat} {v : Value}
    (held : Held funcs s s.size v) {e : ScopeId} (root : e ∈ s.roots mark v) : s.IsHome e := by
  rcases (mem_roots_iff s mark v e).mp root with member | ⟨i, -, frame, found, inside⟩
  · exact home_of_env held member
  · obtain ⟨b, listed, env⟩ := List.mem_flatMap.mp inside
    exact home_of_env ((sound.frames i frame found).held b listed) env

/-- Giving frames back leaves sound frames. The result is still held, and homes below the mark are
still homes. -/
theorem Sound.release (sound : Sound funcs s) {mark : Nat} {v : Value} (positive : 0 < mark)
    (below : mark ≤ s.size) (held : Held funcs s s.size v) :
    Sound funcs (s.release mark v) ∧ mark ≤ (s.release mark v).size ∧
      Retains mark s (s.release mark v) ∧
      Held funcs (s.release mark v) (s.release mark v).size v := by
  obtain ⟨kept, keeps⟩ := release_keeps positive below fun e => sound.home_of_root held
  have stays : ∀ i, kept i → s.IsHome i → (s.release mark v).IsHome i := by
    rintro i keep ⟨f, here, noted⟩
    exact ⟨f, (keeps.same i keep).trans here, noted⟩
  have holds : ∀ w, Held funcs s s.size w → (∀ e ∈ w.envs, kept e) →
      Held funcs (s.release mark v) (s.release mark v).size w := by
    intro w old keep c member
    obtain ⟨known, _, home⟩ := old c member
    have still := stays c.2 (keep c.2 (mem_envs_of_closure member)) home
    exact ⟨known, still.lt, still⟩
  refine ⟨⟨Nat.lt_of_lt_of_le positive keeps.size_ge, fun i f here => ?_⟩, keeps.size_ge,
    fun i early => stays i (keeps.below i early), holds v held keeps.result⟩
  -- A frame that is kept is as it was, and one that is not has no variables left.
  by_cases keep : kept i
  · have present := (keeps.same i keep).symm.trans here
    have old := sound.frames i f present
    refine ⟨old.older, old.proper, fun b member => ?_⟩
    apply holds _ (old.held b member)
    intro e env
    exact keeps.envs i f keep present e (List.mem_flatMap.mpr ⟨b, member, env⟩)
      (home_of_env (old.held b member) env).lt
  · obtain ⟨old, present, rfl⟩ := keeps.emptied i f keep here
    exact frameSound_empty (sound.frames i old present).older false

end Release

end ScriptKit.Scopes
