import ScriptKit.Proofs.Eval.Hygiene
import ScriptKit.Proofs.Session.Stepwise

/-! Variables over a whole session.

At any point of any run, evaluating an expression makes no variable and takes none away in the
frames that are there, and a statement makes the one that it declares. So global variables only get
more, and a global constant has its value for ever. -/

namespace ScriptKit.Session
open Scopes (Kept Gains)
open Stepwise (start)

variable {s : Session}

theorem run_world (s : Session) (b : Block) :
    (s.run b).2.world = Eval.worldAfter (Evaluator.block
      (Evaluator.rulesFor s.ast.funcs s.options.reclaim s.options.maxDepth) Scopes.globalId b)
        s.world := by
  unfold Session.run Eval.worldAfter
  dsimp only
  cases Evaluator.block _ Scopes.globalId b s.world <;> rfl

theorem Sound.run_grows (sound : s.Sound) (b : Block) :
    s.world.scopes.Grows (s.run b).2.world.scopes := by
  rw [run_world, sound.reclaim]
  obtain ⟨id, ss⟩ := b
  exact Evaluator.stmts_grow (Evaluator.rulesFor_keep _ _) Scopes.globalId .null ss s.world
    sound.scopes.tidy

theorem Sound.perform_grows (sound : s.Sound) (next : Action) :
    s.world.scopes.Grows (s.perform next).world.scopes := by
  cases runs : s.evaluation? next with
  | none =>
    rw [(sound.idle runs).2]
    exact .refl _
  | some ran =>
    obtain ⟨sound', -, world, same⟩ := sound.evaluation? runs
    rw [same, ← world]
    exact sound'.run_grows ran.2

theorem Sound.after_grows (sound : s.Sound) (actions : List Action) :
    s.world.scopes.Grows (s.after actions).world.scopes := by
  induction actions generalizing s with
  | nil => exact .refl _
  | cons next rest ih => exact (sound.perform_grows next).trans (ih (sound.perform next))

/-- At any point of any run, an expression keeps all frames, whether it fails or not, and a
statement adds the name that it declares, if it succeeds. Over any further actions a global variable
is never lost, and a global constant has the same value. -/
theorem scope_hygiene (maxDepth : Nat) (out : Sink) (input : List UInt8) (actions : List Action) :
    let s := (fresh maxDepth out input).after actions
    (∀ next t b, s.evaluation? next = some (t, b) → ∀ n c,
      Stepwise.run t.ast t.options.maxDepth n (start b.id t.world) = .next c →
      ∀ (depth : Nat) (scope : ScopeId),
        let rules := Evaluator.rulesFor t.ast.funcs t.options.reclaim depth
        (∀ e, Kept none c.world.scopes
          (Eval.worldAfter (Evaluator.expr rules scope e) c.world).scopes) ∧
        ∀ st, match Evaluator.stmt rules scope st c.world, st.declares? with
          | .ok v w, some (x, isConst) => Gains scope ⟨x, v, isConst⟩ c.world.scopes w.scopes
          | .ok _ w, none => Kept none c.world.scopes w.scopes
          | .error _ w, _ => Kept none c.world.scopes w.scopes) ∧
    ∀ more x b, s.world.scopes.lookup? Scopes.globalId x = some b →
      ∃ b', (s.after more).world.scopes.lookup? Scopes.globalId x = some b' ∧
        b'.isConst = b.isConst ∧ (b.isConst = true → b' = b) := by
  intro s
  have sound : s.Sound := (sound_fresh maxDepth out input).after actions
  constructor
  · intro next t b runs n c reached depth scope rules
    obtain ⟨sound', has, -, -⟩ := sound.evaluation? runs
    have safe := sound'.safe has n
    rw [reached] at safe
    have keep : Evaluator.RulesKeep rules := by
      simp only [rules, sound'.reclaim]
      exact Evaluator.rulesFor_keep _ _
    exact ⟨fun e => (Evaluator.keeps_expr keep scope e c.world safe.scopes.tidy).2,
      fun st => Evaluator.stmt_declares keep scope st c.world safe.scopes.tidy⟩
  · intro more x b got
    have sound' := sound.after more
    rw [sound.scopes.lookup?_global] at got
    rw [sound'.scopes.lookup?_global]
    obtain ⟨f, here, got⟩ := Option.bind_eq_some_iff.mp got
    obtain ⟨g, here', grows⟩ := sound.after_grows more Scopes.globalId f here
    obtain ⟨b', got', kept⟩ := grows x b got
    exact ⟨b', Option.bind_eq_some_iff.mpr ⟨g, here', got'⟩, kept⟩

/-- Assignments from a block and from a function leave a constant alone. -/
theorem scope_hygiene_const :
    let s := (fresh 8 {} []).after [.eval "const c = 1"]
    ∃ b, s.world.scopes.lookup? Scopes.globalId "c" = some b ∧ b.isConst = true ∧
      (s.after [.eval "{ c = 2 }", .eval "function f() { c = 3 } f()"]).world.scopes.lookup?
        Scopes.globalId "c" = some b := by
  intro s
  have constant : (s.world.scopes.lookup? Scopes.globalId "c").map (·.isConst) = some true := by
    decide +kernel
  obtain ⟨b, found, flag⟩ := Option.map_eq_some_iff.mp constant
  obtain ⟨b', found', -, same⟩ := (scope_hygiene 8 {} [] _).2
    [.eval "{ c = 2 }", .eval "function f() { c = 3 } f()"] "c" b found
  rw [same flag] at found'
  exact ⟨b, found, flag, found'⟩

end ScriptKit.Session
