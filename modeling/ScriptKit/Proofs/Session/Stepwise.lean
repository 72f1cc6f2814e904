import ScriptKit.Proofs.Eval.Agreement
import ScriptKit.Proofs.Eval.Missing
import ScriptKit.Proofs.Tree.Parsing
import ScriptKit.Session

/-! Sessions in single steps.

Whatever a session has read and run, also where it failed, its catalogue is closed and its frames
are sound. So no step of a later run asks for something that does not exist, and the run comes to
its end. -/

namespace ScriptKit

namespace Stepwise

structure Refs.InBounds (ast : Ast) (s : Scopes) (r : Refs) : Prop where
  nodes : ∀ n ∈ r.nodes, n.2 < ast.count n.1
  frames : ∀ i ∈ r.frames, i < s.size
  closures : ∀ v ∈ r.values, ∀ c ∈ v.closures, c.1 < ast.funcs.size ∧ c.2 < s.size

def scopesRefs (s : Scopes) : Refs where
  frames := s.frames.toList.filterMap (·.parent)
  values := s.frames.toList.flatMap fun f => f.table.toList.map (·.value)

/-- What is at hand at a point of a run, or after its end, exists. -/
def Step.InBounds (ast : Ast) : Step → Prop
  | .next c =>
    (∀ r ∈ c.control.refs :: c.stack.map Waiting.refs, r.InBounds ast c.world.scopes) ∧
      (scopesRefs c.world.scopes).InBounds ast c.world.scopes
  | .ended answer w =>
    (∀ v, answer = .ok v → Refs.InBounds ast w.scopes { values := [v] }) ∧
      (scopesRefs w.scopes).InBounds ast w.scopes
  | .dangling => False

section Safe

variable {ast : Ast} {s : Scopes} {bound : Nat}

theorem Refs.Fine.inBounds {r : Refs} (fine : r.Fine ast s bound) (low : bound ≤ s.size) :
    r.InBounds ast s where
  nodes := fine.1
  frames := fun i member => Nat.lt_of_lt_of_le (fine.2.1 i member) low
  closures := fun v member c inside =>
    have held := fine.2.2 v member c inside
    ⟨held.1, Nat.lt_of_lt_of_le held.2.1 low⟩

theorem Stacked.inBounds {ks : List Waiting} (stacked : Stacked ast s bound ks)
    (low : bound ≤ s.size) :
    ∀ k ∈ ks, k.refs.InBounds ast s := by
  induction ks generalizing bound with
  | nil => exact List.forall_mem_nil _
  | cons k ks ih =>
    obtain ⟨fine, -, lower, rest⟩ := stacked
    exact List.forall_mem_cons.mpr ⟨fine.inBounds low, ih rest (Nat.le_trans lower low)⟩

theorem inBounds_scopesRefs (sound : s.Sound ast.funcs.size) : (scopesRefs s).InBounds ast s := by
  have listed : ∀ f ∈ s.frames.toList, ∃ i < s.size, Scopes.FrameSound ast.funcs.size s i f := by
    intro f member
    obtain ⟨i, inside, here⟩ := List.getElem_of_mem member
    have found : s.frames[i]? = some f := by
      rw [← Array.getElem?_toList]
      exact List.getElem?_eq_some_iff.mpr ⟨inside, here⟩
    exact ⟨i, inside, sound.frames i f found⟩
  constructor
  case nodes => exact List.forall_mem_nil _
  case frames =>
    intro p member
    obtain ⟨f, present, up⟩ := List.mem_filterMap.mp member
    obtain ⟨i, inside, here⟩ := listed f present
    exact Nat.lt_trans (here.older p up) inside
  case closures =>
    intro v member c closure
    obtain ⟨f, present, inside⟩ := List.mem_flatMap.mp member
    obtain ⟨b, held, rfl⟩ := List.mem_map.mp inside
    obtain ⟨i, -, here⟩ := listed f present
    have held := here.held b held c closure
    exact ⟨held.1, held.2.1⟩

theorem Step.Safe.inBounds {taken : Step} (safe : taken.Safe ast) : taken.InBounds ast := by
  cases taken with
  | next c =>
    refine ⟨List.forall_mem_cons.mpr ⟨safe.control.inBounds (Nat.le_refl _), ?_⟩,
      inBounds_scopesRefs safe.scopes⟩
    exact List.forall_mem_map.mpr (safe.stack.inBounds (Nat.le_refl _))
  | ended answer w =>
    refine ⟨fun v same => ?_, inBounds_scopesRefs safe.1⟩
    exact (fine_values (List.forall_mem_singleton.mpr (safe.2 v same))).inBounds (Nat.le_refl _)
  | dangling => exact safe

end Safe

end Stepwise

namespace Session
open Stepwise (start)

inductive Action where
  | eval (source : String)
  | parse (source : String)
  /-- Runs a block that was read before. Nothing is done if there is none of the number. -/
  | run (id : Nat)

def fresh (maxDepth : Nat) (out : Sink) (input : List UInt8) : Session :=
  { options := { maxDepth }, world := { out, input } }

def perform (s : Session) : Action → Session
  | .eval source => (s.eval source).2
  | .parse source => (s.parse source).2
  | .run id =>
    match s.ast.blocks[id]? with
    | some b => (s.run b).2
    | none => s

def after (s : Session) (actions : List Action) : Session :=
  actions.foldl perform s

/-- The block that an action runs, if it comes to that, and the session it runs in. -/
def evaluation? (s : Session) : Action → Option (Session × Block)
  | .eval source =>
    match s.parse source with
    | (.ok b, s) => some (s, b)
    | (.error _, _) => none
  | .parse _ => none
  | .run id => s.ast.blocks[id]?.map (s, ·)

structure Sound (s : Session) : Prop where
  closed : s.ast.Closed
  scopes : s.world.scopes.Sound s.ast.funcs.size
  reclaim : s.options.reclaim = Scopes.release

theorem sound_fresh (maxDepth : Nat) (out : Sink) (input : List UInt8) :
    (fresh maxDepth out input).Sound :=
  ⟨Ast.closed_empty, Scopes.sound_initial _, rfl⟩

theorem node?_reserve (ast : Ast) (n : Nat) (family : Family) (i : Nat) :
    (ast.reserve n).node? family i = ast.node? family i := by
  cases family <;> rfl

theorem closed_reserve {ast : Ast} (closed : ast.Closed) (n : Nat) : (ast.reserve n).Closed := by
  constructor
  · intro family i p found
    rw [node?_reserve] at found
    exact closed.numbered family i p found
  · intro p has q member
    simp only [Ast.Has, node?_reserve] at has ⊢
    exact closed.parts p has q member

/-- Reading a source ends in the scanner, with a tree, or in the parser. -/
theorem parseSource_cases (source : String) (ast : Ast) :
    (∃ e, scan source ast.sourceEnd = .error e ∧
      parseSource source ast = (.error (.lex e), ast.reserve (byteLength source.toList))) ∨
    ∃ tokens, scan source ast.sourceEnd = .ok tokens ∧
      ((∃ b after, parseProgram tokens (ast.reserve (byteLength source.toList)) = (.ok b, after) ∧
        parseSource source ast = (.ok b, after)) ∨
      ∃ e after, parseProgram tokens (ast.reserve (byteLength source.toList)) = (.error e, after) ∧
        parseSource source ast = (.error (.parse e), after)) := by
  unfold parseSource
  dsimp only
  cases scan source ast.sourceEnd with
  | error e => exact .inl ⟨e, rfl, rfl⟩
  | ok tokens =>
    right
    refine ⟨tokens, rfl, ?_⟩
    dsimp only
    generalize parseProgram tokens (ast.reserve (byteLength source.toList)) = read
    obtain ⟨result, after⟩ := read
    cases result with
    | ok b => exact .inl ⟨b, after, rfl, rfl⟩
    | error e => exact .inr ⟨e, after, rfl, rfl⟩

theorem parseSource_closed {ast : Ast} (closed : ast.Closed) (source : String) :
    (parseSource source ast).2.Closed ∧ ast.Keeps (parseSource source ast).2 ∧
      ∀ b, (parseSource source ast).1 = .ok b → (parseSource source ast).2.Has (.block b) := by
  have reserved := closed_reserve closed (byteLength source.toList)
  have keeps : ast.Keeps (ast.reserve (byteLength source.toList)) := fun family i p found =>
    (node?_reserve ast _ family i).trans found
  rcases parseSource_cases source ast with
    ⟨e, -, read⟩ | ⟨tokens, -, ⟨b, after, parsed, read⟩ | ⟨e, after, parsed, read⟩⟩
  · rw [read]
    exact ⟨reserved, keeps, fun b wrong => nomatch wrong⟩
  · obtain ⟨closed', keeps', block⟩ := parseProgram_closed reserved tokens
    rw [parsed] at closed' keeps' block
    rw [read]
    refine ⟨closed', keeps.trans keeps', fun b' same => ?_⟩
    cases same
    exact block b rfl
  · obtain ⟨closed', keeps', -⟩ := parseProgram_closed reserved tokens
    rw [parsed] at closed' keeps'
    rw [read]
    exact ⟨closed', keeps.trans keeps', fun b wrong => nomatch wrong⟩

variable {s : Session}

theorem Sound.parse (sound : s.Sound) (source : String) : (s.parse source).2.Sound ∧
    ∀ b, (s.parse source).1 = .ok b → (s.parse source).2.ast.Has (.block b) := by
  obtain ⟨closed, keeps, block⟩ := parseSource_closed sound.closed source
  exact ⟨⟨closed, sound.scopes.more (keeps.count_le .func), sound.reclaim⟩, block⟩

theorem run_eq (s : Session) (b : Block) :
    s.run b = ((s.run b).1, { s with world := (s.run b).2.world }) := by
  unfold Session.run
  dsimp only
  cases Evaluator.block _ Scopes.globalId b s.world <;> rfl

theorem eval_of_parse {s t : Session} {source : String} {b : Block}
    (parsed : s.parse source = (.ok b, t)) :
    s.eval source = ((t.run b).1.mapError fun e =>
      .runtime (e.relativeTo s.ast.sourceEnd (byteLength source.toList)), (t.run b).2) := by
  unfold eval
  rw [parsed]
  dsimp only
  obtain ⟨_ | _, _⟩ := t.run b <;> rfl

theorem eval_of_error {s t : Session} {source : String} {e : Error}
    (failed : s.parse source = (.error e, t)) :
    s.eval source = (.error e, t) := by
  unfold eval
  rw [failed]

theorem Sound.run_ends (sound : s.Sound) {b : Block} (has : s.ast.Has (.block b)) :
    ∃ n, Stepwise.run s.ast s.options.maxDepth n (start b.id s.world) =
      .ended (s.run b).1 (s.run b).2.world := by
  obtain ⟨n, ended⟩ := Stepwise.run_ends sound.closed s.options.maxDepth has sound.scopes
  refine ⟨n, ended.trans ?_⟩
  unfold Session.run
  rw [sound.reclaim]
  dsimp only
  cases Evaluator.block _ Scopes.globalId b s.world <;> rfl

theorem Sound.safe (sound : s.Sound) {b : Block} (has : s.ast.Has (.block b)) (n : Nat) :
    (Stepwise.run s.ast s.options.maxDepth n (start b.id s.world)).Safe s.ast :=
  Stepwise.run_safe sound.closed _ n (Stepwise.sound_start sound.scopes has.lt)

theorem Sound.run (sound : s.Sound) {b : Block} (has : s.ast.Has (.block b)) :
    (s.run b).2.Sound := by
  obtain ⟨n, ended⟩ := sound.run_ends has
  have safe := sound.safe has n
  rw [ended] at safe
  rw [run_eq]
  exact ⟨sound.closed, safe.1, sound.reclaim⟩

theorem Sound.evaluation? (sound : s.Sound) {next : Action} {t : Session} {b : Block}
    (runs : s.evaluation? next = some (t, b)) :
    t.Sound ∧ t.ast.Has (.block b) ∧ t.world = s.world ∧ s.perform next = (t.run b).2 := by
  cases next with
  | parse source => cases runs
  | eval source =>
    obtain ⟨sound', block⟩ := sound.parse source
    have world : (s.parse source).2.world = s.world := rfl
    simp only [Session.evaluation?] at runs
    simp only [perform, Session.eval]
    cases read : s.parse source with
    | mk result s' =>
      rw [read] at sound' block runs world
      cases result with
      | error e => cases runs
      | ok b' =>
        cases runs
        refine ⟨sound', block b rfl, world, ?_⟩
        dsimp only
        obtain ⟨_ | _, _⟩ := t.run b <;> rfl
  | run id =>
    obtain ⟨b', here, same⟩ := Option.map_eq_some_iff.mp runs
    cases same
    have node : s.ast.node? .block id = some (.block b) := congrArg (Option.map Part.block) here
    refine ⟨sound, sound.closed.has node, rfl, ?_⟩
    simp only [perform, here]

theorem Sound.idle (sound : s.Sound) {next : Action} (nothing : s.evaluation? next = none) :
    (s.perform next).Sound ∧ (s.perform next).world = s.world := by
  cases next with
  | parse source => exact ⟨(sound.parse source).1, rfl⟩
  | eval source =>
    have parsed := (sound.parse source).1
    have world : (s.parse source).2.world = s.world := rfl
    simp only [Session.evaluation?] at nothing
    simp only [Session.perform, Session.eval]
    cases read : s.parse source with
    | mk result s' =>
      rw [read] at parsed world nothing
      cases result with
      | error e => exact ⟨parsed, world⟩
      | ok b => cases nothing
  | run id =>
    have missing := Option.map_eq_none_iff.mp nothing
    simp only [Session.perform, missing]
    exact ⟨sound, trivial⟩

theorem Sound.perform (sound : s.Sound) (next : Action) : (s.perform next).Sound := by
  cases runs : s.evaluation? next with
  | none => exact (sound.idle runs).1
  | some ran =>
    obtain ⟨sound', has, -, same⟩ := sound.evaluation? runs
    rw [same]
    exact sound'.run has

theorem Sound.after (sound : s.Sound) (actions : List Action) : (s.after actions).Sound := by
  induction actions generalizing s with
  | nil => exact sound
  | cons next rest ih => exact ih (sound.perform next)

/-- Whatever a session has gone through, its nodes are made of nodes that are there, and its
variables speak of nothing that does not exist. Nor does anything at hand at any point of the next
run. That run in single steps ends as the session's own does, which has no error about something
missing. -/
theorem no_dangling (maxDepth : Nat) (out : Sink) (input : List UInt8) (actions : List Action) :
    let s := (fresh maxDepth out input).after actions
    (∀ family i p, s.ast.node? family i = some p → ∀ q ∈ p.parts,
      s.ast.node? q.family q.number = some q) ∧
    (Stepwise.scopesRefs s.world.scopes).InBounds s.ast s.world.scopes ∧
    ∀ next t b, s.evaluation? next = some (t, b) → s.perform next = (t.run b).2 ∧
      (∀ n, (Stepwise.run t.ast t.options.maxDepth n (start b.id t.world)).InBounds t.ast) ∧
      (∃ n, Stepwise.run t.ast t.options.maxDepth n (start b.id t.world) =
        .ended (t.run b).1 (t.run b).2.world) ∧
      ∀ e, (t.run b).1 = .error e → e.kind.isMissing = false := by
  intro s
  have sound : s.Sound := (sound_fresh maxDepth out input).after actions
  refine ⟨?_, Stepwise.inBounds_scopesRefs sound.scopes, ?_⟩
  · intro family i p found
    exact sound.closed.parts p (sound.closed.has found)
  · intro next t b runs
    obtain ⟨sound', has, -, same⟩ := sound.evaluation? runs
    have ends := sound'.run_ends has
    refine ⟨same, fun n => (sound'.safe has n).inBounds, ends, fun e failed => ?_⟩
    obtain ⟨n, ended⟩ := ends
    have ordinary :=
      Stepwise.run_ordinary t.ast t.options.maxDepth n (c := start b.id t.world) trivial
    rw [ended, failed] at ordinary
    exact ordinary

/-- A closure outlives its frame, a source that breaks off and one that fails. -/
theorem no_dangling_counter :
    let s := (fresh 8 {} []).after
      [.eval "function make() { var n = 0; fn() => [n, make] } var c = make()", .eval "c(",
        .eval "c(1)"]
    ∃ t b, s.evaluation? (.eval "c()[1]()") = some (t, b) ∧
      ∀ n, (Stepwise.run t.ast t.options.maxDepth n (start b.id t.world)).InBounds t.ast := by
  intro s
  have runs : (s.evaluation? (.eval "c()[1]()")).isSome = true := by decide +kernel
  obtain ⟨⟨t, b⟩, found⟩ := Option.isSome_iff_exists.mp runs
  exact ⟨t, b, found, ((no_dangling 8 {} [] _).2.2 _ t b found).2.1⟩

/-- A block that was read runs to an end, whatever the frames, the limit on calls, the output and
the input are. -/
theorem run_terminates (maxDepth : Nat) (out : Sink) (input : List UInt8) (actions : List Action)
    (id : Nat) (b : Block)
    (here : ((fresh maxDepth out input).after actions).ast.blocks[id]? = some b)
    (limit : Nat) (sink : Sink) (bytes : List UInt8) :
    let s := (fresh maxDepth out input).after actions
    let t : Session := { s with
      options := { maxDepth := limit }
      world := { s.world with out := sink, input := bytes } }
    ∃ n answer w, Stepwise.run t.ast limit n (start id t.world) = .ended answer w ∧
      t.run b = (answer, { t with world := w }) := by
  intro s t
  have sound : s.Sound := (sound_fresh maxDepth out input).after actions
  have node : s.ast.node? .block id = some (.block b) := congrArg (Option.map Part.block) here
  have number : b.id = id := sound.closed.numbered .block id (.block b) node
  have sound' : t.Sound := ⟨sound.closed, sound.scopes, rfl⟩
  obtain ⟨n, ended⟩ := sound'.run_ends (sound.closed.has node)
  rw [number] at ended
  exact ⟨n, _, _, ended, run_eq t b⟩

/-- A function that calls itself as a predicate, without end but for the limit. -/
theorem run_terminates_runaway :
    let s := (fresh 2 {} []).after [.parse "function f(x) { array_filter([x], f) } f(1)"]
    let t : Session := { s with
      options := { maxDepth := 3 }
      world := { s.world with out := {}, input := [] } }
    ∃ b, s.ast.blocks[1]? = some b ∧ ∃ n answer w,
      Stepwise.run t.ast 3 n (start 1 t.world) = .ended answer w ∧
      t.run b = (answer, { t with world := w }) := by
  intro s t
  have inside : 1 < s.ast.blocks.size := by decide +kernel
  have here := Array.getElem?_eq_getElem inside
  exact ⟨_, here, run_terminates 2 {} [] _ 1 _ here 3 {} []⟩

end Session

end ScriptKit
