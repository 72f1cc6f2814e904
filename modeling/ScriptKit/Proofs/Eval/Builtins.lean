import ScriptKit.Proofs.Eval.Simulation
import ScriptKit.Proofs.Value.Closures

/-! Builtins other than `arrayFilter` leave all frames alone, make no closures and miss nothing. -/

namespace ScriptKit

def RuntimeErrorKind.isMissing : RuntimeErrorKind → Bool
  | .missingFunction _ | .missingFrame => true
  | _ => false

/-- The computation changes no frame, and its value is `good`. -/
def Eval.Steady {α : Type} (m : Eval α) (good : α → Prop) : Prop :=
  ∀ w, match m w with
    | .ok a w' => w'.scopes = w.scopes ∧ good a
    | .error e w' => w'.scopes = w.scopes ∧ e.kind.isMissing = false

namespace Eval

variable {α β : Type} {good : α → Prop} {next : β → Prop}

theorem Steady.bind {m : Eval α} {k : α → Eval β} (first : Steady m good)
    (rest : ∀ a, good a → Steady (k a) next) : Steady (m >>= k) next := by
  intro w
  have before := first w
  simp only [Bind.bind, EStateM.bind]
  cases ended : m w with
  | error e w' =>
    rw [ended] at before
    exact before
  | ok a w' =>
    rw [ended] at before
    have after := rest a before.2 w'
    dsimp only
    cases ended' : k a w' with
    | error e w'' =>
      rw [ended'] at after
      exact ⟨after.1.trans before.1, after.2⟩
    | ok b w'' =>
      rw [ended'] at after
      exact ⟨after.1.trans before.1, after.2⟩

theorem steady_pure {a : α} (found : good a) : Steady (pure a) good :=
  fun _ => ⟨rfl, found⟩

theorem steady_fail {kind : RuntimeErrorKind} (ordinary : kind.isMissing = false) (span : Span) :
    Steady (fail kind span : Eval α) good :=
  fun _ => ⟨rfl, ordinary⟩

theorem steady_write (text : String) (span : Span) : Steady (write text span) fun _ => True := by
  intro w
  simp only [write, run_get]
  cases w.out.write text with
  | error message => exact ⟨rfl, rfl⟩
  | ok out => exact ⟨rfl, trivial⟩

theorem steady_readLine (span : Span) : Steady (readLine span) fun _ => True := by
  intro w
  simp only [readLine, run_get]
  by_cases ended : (takeLine w.input).1.isEmpty = true
  · rw [if_pos ended]
    exact ⟨rfl, trivial⟩
  · rw [if_neg ended]
    cases decodeText? (dropLineEnd (takeLine w.input).1) with
    | none => exact ⟨rfl, rfl⟩
    | some text => exact ⟨rfl, trivial⟩

end Eval

namespace Builtin
open Eval

def Given (args : List Value) (v : Value) : Prop :=
  ∀ c ∈ v.closures, ∃ a ∈ args, c ∈ a.closures

theorem given_plain {args : List Value} {v : Value} (plain : v.closures = []) : Given args v := by
  intro c member
  rw [plain] at member
  cases member

theorem steady_writeAll (args : List Value) (ending : String) (span : Span) :
    Steady (writeAll args ending span) (Given args) :=
  (steady_write _ span).bind fun _ _ => steady_pure (given_plain rfl)

theorem steady_takeInput (args : List Value) (span : Span) :
    Steady (takeInput span) (Given args) := by
  refine (steady_readLine span).bind fun line _ => ?_
  cases line with
  | none => exact steady_pure (given_plain rfl)
  | some text => exact steady_pure (given_plain rfl)

theorem steady_readInput (args : List Value) (span : Span) :
    Steady (readInput args span) (Given args) := by
  unfold readInput
  split
  · exact steady_takeInput _ span
  · exact (steady_write _ span).bind fun _ _ => steady_takeInput _ span
  · exact steady_fail rfl span
  · exact steady_fail rfl span

theorem steady_leave (args : List Value) (span : Span) : Steady (leave args span) (Given args) := by
  unfold leave
  split
  · exact steady_fail rfl span
  · split
    · exact steady_fail rfl span
    · exact steady_fail rfl span
  · exact steady_fail rfl span
  · exact steady_fail rfl span

theorem steady_perform (b : Builtin) (args : List Value) (span : Span) :
    Steady (b.perform args span) (Given args) := by
  cases b with
  | println => exact steady_writeAll args "\n" span
  | print => exact steady_writeAll args "" span
  | array | vector =>
    apply steady_pure
    intro c member
    rw [Value.closures_array] at member
    exact List.mem_flatMap.mp member
  | arrayFilter => exact steady_fail rfl span
  | read => exact steady_readInput args span
  | exit => exact steady_leave args span

end Builtin

end ScriptKit
