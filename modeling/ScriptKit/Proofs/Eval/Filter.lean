import ScriptKit.Eval.Basic
import ScriptKit.Session

/-! What filtering an array comes to.

The items are values of their own, so that nothing a predicate does can change them. It is called
for one item after the other, each time in the world that the call before has left. -/

namespace ScriptKit

inductive Asked (ask : Value → Eval Value) : World → List Value → List Value → World → Prop where
  | none {w : World} : Asked ask w [] [] w
  | next {w w₁ w₂ : World} {item answer : Value} {items answers : List Value} :
      ask item w = .ok answer w₁ → Asked ask w₁ items answers w₂ →
      Asked ask w (item :: items) (answer :: answers) w₂

def wanted (items answers : List Value) : List Value :=
  ((items.zip answers).filter fun asked => asked.2.isTruthy).map Prod.fst

/-- How a filter may end: with the wanted items when all of them were asked about, or with the first
error. -/
inductive Filters (ask : Value → Eval Value) (items : List Value) (w : World) :
    EStateM.Result RuntimeError World Value → Prop where
  | all {answers : List Value} {w' : World} : Asked ask w items answers w' →
      Filters ask items w (.ok (.array (wanted items answers)) w')
  | stopped {before after answers : List Value} {item : Value} {w₁ w' : World} {e : RuntimeError} :
      items = before ++ item :: after → Asked ask w before answers w₁ → ask item w₁ = .error e w' →
      Filters ask items w (.error e w')

section Items

variable {ask : Value → Eval Value} {items : List Value} {w w' : World}

theorem wanted_cons (item answer : Value) (items answers : List Value) :
    wanted (item :: items) (answer :: answers) =
      if answer.isTruthy then item :: wanted items answers else wanted items answers := by
  unfold wanted
  rw [List.zip_cons_cons, List.filter_cons]
  split <;> rfl

theorem keepItems_asked {answers : List Value} (asked : Asked ask w items answers w') :
    Builtin.keepItems ask items w = .ok (wanted items answers) w' := by
  induction asked with
  | none => rfl
  | next answered _ ih =>
    rw [wanted_cons]
    simp only [Builtin.keepItems, Bind.bind, EStateM.bind, answered, ih]
    rfl

theorem keepItems_stopped {before after answers : List Value} {item : Value} {w₁ : World}
    {e : RuntimeError} (asked : Asked ask w before answers w₁)
    (failed : ask item w₁ = .error e w') :
    Builtin.keepItems ask (before ++ item :: after) w = .error e w' := by
  induction asked with
  | none => simp only [List.nil_append, Builtin.keepItems, Bind.bind, EStateM.bind, failed]
  | next answered _ ih =>
    simp only [List.cons_append, Builtin.keepItems, Bind.bind, EStateM.bind, answered, ih failed]

/-- Either every item is asked about, or some question is the first that fails. -/
theorem asked_or_stopped (ask : Value → Eval Value) (items : List Value) (w : World) :
    (∃ answers w', Asked ask w items answers w') ∨
    ∃ before item after answers w₁ e w', items = before ++ item :: after ∧
      Asked ask w before answers w₁ ∧
      ask item w₁ = .error e w' := by
  induction items generalizing w with
  | nil => exact .inl ⟨[], w, .none⟩
  | cons item items ih =>
    cases answered : ask item w with
    | error e w' => exact .inr ⟨[], item, items, [], w, e, w', rfl, .none, answered⟩
    | ok answer w₁ =>
      rcases ih w₁ with ⟨answers, w', asked⟩ | ⟨before, item', after, answers, w₂, e, w', rfl,
        asked, failed⟩
      · exact .inl ⟨_, _, .next answered asked⟩
      · exact .inr ⟨item :: before, item', after, _, w₂, e, w', rfl, .next answered asked, failed⟩

theorem keepItems_filters (ask : Value → Eval Value) (items : List Value) (w : World)
    (r : EStateM.Result RuntimeError World Value) :
    (do return .array (← Builtin.keepItems ask items) : Eval Value) w = r ↔
      Filters ask items w r := by
  have array : ∀ {r : EStateM.Result RuntimeError World Value}, Filters ask items w r →
      (do return .array (← Builtin.keepItems ask items) : Eval Value) w = r := by
    intro r filters
    simp only [Bind.bind, EStateM.bind]
    cases filters with
    | all asked =>
      rw [keepItems_asked asked]
      rfl
    | stopped whole asked failed => rw [whole, keepItems_stopped asked failed]
  refine ⟨?_, array⟩
  rintro rfl
  rcases asked_or_stopped ask items w with
    ⟨answers, w', asked⟩ | ⟨before, item, after, answers, w₁, e, w', whole, asked, failed⟩
  · exact array (.all asked) ▸ .all asked
  · exact array (.stopped whole asked failed) ▸ .stopped whole asked failed

end Items

namespace Evaluator

/-- How many arguments a filter has for a predicate: as many as a closure takes, and one for a
builtin. -/
def arity? (funcs : Array Func) : Callable → Option Nat
  | .builtin _ => some 1
  | .closure f _ => funcs[f]?.map (·.params.length)

def told (takes : Nat) (item : Value) : List Value :=
  if takes = 1 then [item] else []

section Filter

variable {funcs : Array Func} {enter : Builtin.Enter} {g : Callable} {takes : Nat}

theorem call_filter (known : arity? funcs g = some takes) (few : takes ≤ 1) (items : List Value)
    (span : Span) :
    call funcs enter (.builtin .arrayFilter) [.array items, .function g] span =
      (do return .array (← Builtin.keepItems (fun v => call funcs enter g (told takes v) span)
        items)) := by
  cases g with
  | builtin b =>
    cases known
    have same : ∀ v, call funcs enter (.builtin b) (told 1 v) span = b.perform [v] span := by
      intro v
      cases b with
      | arrayFilter => cases v <;> rfl
      | _ => rfl
    simp only [same]
    rfl
  | closure f env =>
    obtain ⟨func, found, rfl⟩ := Option.map_eq_some_iff.mp known
    rw [call, Builtin.filter, found]
    dsimp only
    cases params : func.params with
    | nil => rfl
    | cons x xs =>
      cases xs with
      | nil => rfl
      | cons y ys =>
        rw [params] at few
        simp at few

/-- A call expression with two arguments. They are evaluated before the function sees either of
them. -/
theorem expr_call_two {rules : Rules} {scope : ScopeId} {node : Node} {f a p : Expr}
    {callee : Callable} {x y : Value} {w w₁ w₂ w₃ : World}
    (called : expr rules scope f w = .ok (.function callee) w₁)
    (first : expr rules scope a w₁ = .ok x w₂) (second : expr rules scope p w₂ = .ok y w₃) :
    expr rules scope (.call node f [a, p]) w = rules.call callee [x, y] node.span w₃ := by
  simp only [expr, exprs, Bind.bind, EStateM.bind, called, first, second, pure, EStateM.pure]

/-- Filtering asks a predicate about the items in order, once about each, every time in the world
that the last call has left. It stops at the first error, and else it returns the items that were
answered by a truthy value. The items are those that the array had when it was evaluated, wherever
it came from. -/
theorem filter_snapshot (known : arity? funcs g = some takes) (few : takes ≤ 1) (items : List Value)
    (w : World) :
    (∀ span r, call funcs enter (.builtin .arrayFilter) [.array items, .function g] span w = r ↔
      Filters (fun v => call funcs enter g (told takes v) span) items w r) ∧
    ∀ (reclaim : Nat → Value → Scopes → Scopes) (scope : ScopeId) (node : Node) (f a p : Expr)
      (w₀ w₁ w₂ : World),
      let rules : Rules := ⟨call funcs enter, reclaim⟩
      expr rules scope f w₀ = .ok (.function (.builtin .arrayFilter)) w₁ →
      expr rules scope a w₁ = .ok (.array items) w₂ → expr rules scope p w₂ = .ok (.function g) w →
      Filters (fun v => call funcs enter g (told takes v) node.span) items w
        (expr rules scope (.call node f [a, p]) w₀) := by
  have outcome : ∀ span r,
      call funcs enter (.builtin .arrayFilter) [.array items, .function g] span w = r ↔
      Filters (fun v => call funcs enter g (told takes v) span) items w r := by
    intro span r
    rw [call_filter known few]
    exact keepItems_filters _ items w r
  refine ⟨outcome, ?_⟩
  intro reclaim scope node f a p w₀ w₁ w₂ rules called array predicate
  rw [expr_call_two called array predicate]
  exact (outcome node.span _).mp rfl

/-- A predicate that empties the variable which the array came from, and says what it is asked
about. -/
theorem filter_snapshot_emptied :
    let s := (({} : Session).eval "var xs = [1, 2, 3] function f(x) { xs = []; print(x); x > 1 }").2
    let rules := rulesFor s.ast.funcs Scopes.release 8
    let items := [.integer 1, .integer 2, .integer 3]
    let outcome :=
      rules.call (.builtin .arrayFilter) [.array items, .function (.closure 0 0)] ⟨0, 0⟩ s.world
    arity? s.ast.funcs (.closure 0 0) = some 1 ∧
      Filters (fun v => rules.call (.closure 0 0) [v] ⟨0, 0⟩) items s.world outcome ∧
      (match outcome with
        | .ok v w =>
          some (v.toText, w.out.text, (w.scopes.resolve? Scopes.globalId "xs").map Value.toText)
        | .error _ _ => none) = some ("[2, 3]", "123", some "[]") := by
  intro s rules items outcome
  have known : arity? s.ast.funcs (.closure 0 0) = some 1 := by decide +kernel
  exact ⟨known, ((filter_snapshot known (Nat.le_refl 1) items s.world).1 _ _).mp rfl,
    by decide +kernel⟩

end Filter

end Evaluator

end ScriptKit
