import ScriptKit.Proofs.Eval.Builtins
import ScriptKit.Proofs.Eval.Stepwise

/-! No run ends with an error about a missing function or frame.

A number that leads nowhere is no error of a single step but shows as `Step.dangling`. Operators and
builtins have errors of other kinds. -/

namespace ScriptKit

namespace Operators

variable {kind : RuntimeErrorKind}

theorem integers_error {op : BinaryOp} {m n : Int64} (failed : integers op m n = .error kind) :
    kind.isMissing = false := by
  unfold integers at failed
  split at failed
  case h_4 | h_5 =>
    split at failed
    · cases failed
      rfl
    · cases failed
  all_goals cases failed

theorem floats_error {op : BinaryOp} {x y : Float} (failed : floats op x y = .error kind) :
    kind.isMissing = false := by
  unfold floats at failed
  split at failed
  case h_4 | h_5 =>
    split at failed
    · cases failed
      rfl
    · cases failed
  all_goals cases failed

theorem texts_error {op : BinaryOp} {s t : String} (failed : texts op s t = .error kind) :
    kind.isMissing = false := by
  unfold texts at failed
  split at failed
  all_goals cases failed
  rfl

theorem binary_error {op : BinaryOp} {a b : Value} (failed : binary op a b = .error kind) :
    kind.isMissing = false := by
  unfold binary at failed
  split at failed
  · cases failed
  · cases failed
  · exact integers_error failed
  · exact texts_error failed
  · split at failed
    · exact floats_error failed
    · cases failed
      rfl

theorem unary_error {op : UnaryOp} {a : Value} (failed : unary op a = .error kind) :
    kind.isMissing = false := by
  unfold unary at failed
  split at failed
  all_goals cases failed
  rfl

theorem index_error {target i : Value} (failed : index target i = .error kind) :
    kind.isMissing = false := by
  unfold index at failed
  split at failed
  · split at failed <;> cases failed
    rfl
  · split at failed <;> cases failed
    rfl
  · cases failed
    rfl

end Operators

namespace Stepwise

def Control.Ordinary : Control → Prop
  | .error e => e.kind.isMissing = false
  | _ => True

def Step.Ordinary : Step → Prop
  | .next c => c.control.Ordinary
  | .ended (.error e) _ => e.kind.isMissing = false
  | _ => True

theorem ordinary_ofExcept {r : Except RuntimeErrorKind Value} {span : Span}
    (failed : ∀ kind, r = .error kind → kind.isMissing = false) : (ofExcept span r).Ordinary := by
  cases r with
  | ok v => trivial
  | error kind => exact failed kind rfl

theorem ordinary_gather (scope : ScopeId) (use : Use) (done : List Value) (rest : List Nat) :
    (gather scope use done rest).1.Ordinary := by
  cases rest with
  | cons e es => trivial
  | nil =>
    cases use with
    | array => trivial
    | call callee span => cases callee <;> trivial

theorem ordinary_filterNext (g : Callable) (takesItem : Bool) (span : Span)
    (kept rest : List Value) :
    (filterNext g takesItem span kept rest).1.Ordinary := by
  cases rest <;> trivial

theorem ordinary_resume (v : Value) (k : Waiting) : (resume v k).1.Ordinary := by
  cases k with
  | binary op lhs span => exact ordinary_ofExcept fun kind => Operators.binary_error
  | unary op span => exact ordinary_ofExcept fun kind => Operators.unary_error
  | index target span => exact ordinary_ofExcept fun kind => Operators.index_error
  | callee scope args span => exact ordinary_gather ..
  | gather scope use done rest => exact ordinary_gather ..
  | filter g takesItem span item kept rest => exact ordinary_filterNext ..
  | stmts scope rest => cases rest <;> trivial
  | _ => trivial

theorem ordinary_follow? (c : Config) {plan : Option Plan}
    (next : ∀ p, plan = some p → p.1.Ordinary) :
    (c.follow? plan).Ordinary := by
  cases plan with
  | none => trivial
  | some p => exact next p rfl

theorem ordinary_planExpr (scope : ScopeId) (e : Expr) : (planExpr scope e).1.Ordinary := by
  cases e with
  | array node items => exact ordinary_gather ..
  | _ => trivial

theorem ordinary_seek (c : Config) (id : ScopeId) (x : String) (purpose : Purpose) :
    (c.seek id x purpose).Ordinary := by
  unfold Config.seek
  split
  · trivial
  · split
    · trivial
    · split <;> trivial
    · trivial
    · split <;> trivial
    · trivial

theorem ordinary_declare (c : Config) (scope : ScopeId) (b : Binding) (span : Span)
    {control : Control} (next : control.Ordinary) : (c.declare scope b span control).Ordinary := by
  unfold Config.declare
  split
  · trivial
  · split
    · rfl
    · exact next

theorem ordinary_capture (c : Config) (scope : ScopeId) (func : FuncId) :
    (c.capture scope func).Ordinary := by
  unfold Config.capture
  split <;> trivial

theorem ordinary_perform (c : Config) (b : Builtin) (args : List Value) (span : Span) :
    (c.perform b args span).Ordinary := by
  have steady := Builtin.steady_perform b args span c.world
  unfold Config.perform
  cases ended : b.perform args span c.world with
  | ok v w => trivial
  | error e w =>
    rw [ended] at steady
    exact steady.2

theorem ordinary_planFilter {funcs : Array Func} {span : Span} {args : List Value} {plan : Plan}
    (planned : planFilter funcs span args = some plan) : plan.1.Ordinary := by
  unfold planFilter at planned
  split at planned
  · obtain ⟨n, -, rfl⟩ := Option.map_eq_some_iff.mp planned
    split
    · rfl
    · exact ordinary_filterNext ..
  · cases planned
    rfl
  · cases planned
    rfl

theorem ordinary_call (funcs : Array Func) (limit : Nat) (c : Config) (args : List Value)
    (span : Span) (g : Callable) : (c.call funcs limit args span g).Ordinary := by
  unfold Config.call
  split
  · split
    · trivial
    · split
      · rfl
      · split <;> trivial
  · exact ordinary_follow? c fun _ => ordinary_planFilter
  · exact ordinary_perform ..

theorem ordinary_body (funcs : Array Func) (c : Config) (frame : ScopeId) (f : FuncId) :
    (c.body funcs frame f).Ordinary := by
  apply ordinary_follow?
  intro p planned
  obtain ⟨func, -, rfl⟩ := Option.map_eq_some_iff.mp planned
  cases func.body <;> trivial

theorem step_ordinary (ast : Ast) (limit : Nat) {c : Config} (ordinary : c.control.Ordinary) :
    (step ast limit c).Ordinary := by
  obtain ⟨control, stack, depth, world⟩ := c
  cases control with
  | expr scope id =>
    apply ordinary_follow?
    intro p planned
    obtain ⟨e, -, rfl⟩ := Option.map_eq_some_iff.mp planned
    exact ordinary_planExpr scope e
  | stmt scope id =>
    apply ordinary_follow?
    intro p planned
    obtain ⟨st, -, rfl⟩ := Option.map_eq_some_iff.mp planned
    cases st <;> trivial
  | block scope id =>
    apply ordinary_follow?
    intro p planned
    obtain ⟨b, -, rfl⟩ := Option.map_eq_some_iff.mp planned
    trivial
  | nest parent id => trivial
  | seek frame x purpose => exact ordinary_seek ..
  | capture scope func => exact ordinary_capture ..
  | declare scope b span => exact ordinary_declare _ scope b span trivial
  | call g args span => exact ordinary_call ..
  | bind frame f params args span =>
    match params, args with
    | p :: ps, v :: vs => exact ordinary_declare _ frame _ span trivial
    | [], _ => exact ordinary_body ..
    | _ :: _, [] => exact ordinary_body ..
  | value v =>
    cases stack with
    | nil => trivial
    | cons k rest =>
      have next := ordinary_resume v k
      cases k with
      | frame mark isCall => trivial
      | _ => exact next
  | error e =>
    cases stack with
    | nil => exact ordinary
    | cons k rest => cases k <;> exact ordinary

theorem run_ordinary (ast : Ast) (limit n : Nat) {c : Config} (ordinary : c.control.Ordinary) :
    (run ast limit n c).Ordinary :=
  run_preserves (fun _ ordinary => step_ordinary ast limit ordinary) n ordinary

end Stepwise

end ScriptKit
