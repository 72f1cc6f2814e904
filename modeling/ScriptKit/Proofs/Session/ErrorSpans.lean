import ScriptKit.Proofs.Eval.Blame
import ScriptKit.Proofs.Session.Forest

/-! What the span of a runtime error says about the source at hand.

An error arises at a node. If the source brought the node, the error has the node's span, counted
from the start of the source. If an earlier source did, the error has no span. -/

namespace ScriptKit

def Session.Action.source? : Session.Action → Option String
  | .eval source | .parse source => some source
  | .run _ => none

namespace Session

/-- The error that a block ends with, and the node at which it arises. -/
def failure? (s : Session) (b : Block) : Option Failure :=
  let rules := Traced.rulesFor s.ast.funcs s.options.reclaim s.options.maxDepth
  match Traced.block rules Scopes.globalId b s.world with
  | .ok _ _ => none
  | .error f _ => some f

section Failures

variable {s : Session} {b : Block}

theorem exists_failure (closed : s.ast.Closed) (has : s.ast.Has (.block b)) {e : RuntimeError}
    (failed : (s.run b).1 = .error e) :
    ∃ f, s.failure? b = some f ∧ e = f.error ∧ s.ast.Has f.node := by
  let reclaim := s.options.reclaim
  let depth := s.options.maxDepth
  have blames :=
    Traced.blames_block closed (Traced.rulesFor_blame closed reclaim depth) Scopes.globalId b has
      s.world
  unfold run at failed
  unfold failure?
  dsimp only at failed ⊢
  cases ended : Traced.block (Traced.rulesFor s.ast.funcs reclaim depth) Scopes.globalId b
    s.world with
  | ok v w =>
    rw [ended] at blames
    rw [blames] at failed
    cases failed
  | error f w =>
    rw [ended] at blames
    rw [blames.1] at failed
    exact ⟨f, rfl, (Except.error.inj failed).symm, blames.2⟩

/-- Reading a source runs nothing. -/
theorem not_runtime (source : String) (ast : Ast) (e : RuntimeError) :
    (parseSource source ast).1 ≠ .error (.runtime e) := by
  intro failed
  rcases parseSource_cases source ast with
    ⟨e, -, read⟩ | ⟨tokens, -, ⟨b, after, -, read⟩ | ⟨e, after, -, read⟩⟩
  all_goals
    rw [read] at failed
    cases failed

theorem eval_error {source : String} {e : RuntimeError}
    (failed : (s.eval source).1 = .error (.runtime e)) :
    ∃ b e', (s.parse source).1 = .ok b ∧ ((s.parse source).2.run b).1 = .error e' ∧
      e = e'.relativeTo s.ast.sourceEnd source.utf8ByteSize := by
  cases read : s.parse source with
  | mk result t =>
    cases result with
    | error e' =>
      rw [eval_of_error read] at failed
      cases failed
      exact absurd (congrArg Prod.fst read) (not_runtime source s.ast e)
    | ok b =>
      rw [eval_of_parse read, byteLength_toList] at failed
      dsimp only at failed ⊢
      cases ran : (t.run b).1 with
      | ok v =>
        rw [ran] at failed
        cases failed
      | error e' =>
        rw [ran] at failed
        cases failed
        exact ⟨b, e', rfl, ran, rfl⟩

end Failures

theorem ast_perform (s : Session) (next : Action) :
    (s.perform next).ast = (next.source?.elim s.ast fun source =>
      (parseSource source s.ast).2) := by
  cases next with
  | parse source => rfl
  | run id =>
    unfold perform
    dsimp only
    split
    · rw [run_eq]
      rfl
    · rfl
  | eval source =>
    have read : (s.parse source).2.ast = (parseSource source s.ast).2 := rfl
    simp only [perform, eval]
    cases parsed : s.parse source with
    | mk result t =>
      rw [parsed] at read
      cases result with
      | error e => exact read
      | ok b =>
        have ran := run_eq t b
        dsimp only
        rw [ran]
        cases (t.run b).1 <;> exact read

theorem ast_after (s : Session) (actions : List Action) :
    (s.after actions).ast =
      (actions.filterMap Action.source?).foldl (fun ast source => (parseSource source ast).2)
        s.ast := by
  induction actions generalizing s with
  | nil => rfl
  | cons next rest ih =>
    have step := ast_perform s next
    have more := ih (s.perform next)
    rw [step] at more
    cases found : next.source? with
    | none =>
      rw [List.filterMap_cons_none found]
      rw [found] at more
      exact more
    | some source =>
      rw [List.filterMap_cons_some found]
      rw [found] at more
      exact more

theorem ast_after_fresh (maxDepth : Nat) (out : Sink) (input : List UInt8) (actions : List Action) :
    ((fresh maxDepth out input).after actions).ast = readAll (actions.filterMap Action.source?) :=
  ast_after _ actions

section Spans

variable {sources : List String} {source : String} {p : Part}

theorem span_relativeTo (f : Failure) (base len : Nat) :
    (f.error.relativeTo base len).span = f.node.span.within? base len := rfl

/-- A node of an earlier source lies in front of the source at hand. -/
theorem before_source (has : (readAll sources).Has p) :
    p.span.within? (readAll sources).sourceEnd source.utf8ByteSize = none := by
  obtain ⟨before, first, after, rfl, fits⟩ := exists_source has
  have ends := sourceEnd_append before first
  have grows := sourceEnd_le (before ++ [first]) after
  rw [List.append_assoc, List.singleton_append] at grows
  have ordered := fits.fine.ordered
  have stop : p.span.stop ≤ (readAll before).sourceEnd + first.utf8ByteSize := fits.fine.stops.2.1
  exact if_neg (by omega)

/-- A node of the source at hand lies inside it. -/
theorem in_source (has : (readAll (sources ++ [source])).Has p) (new : ¬ (readAll sources).Has p) :
    let base := (readAll sources).sourceEnd
    p.span.within? base source.utf8ByteSize = some ⟨p.span.start - base, p.span.stop - base⟩ ∧
      base ≤ p.span.start ∧ p.span.start - base ≤ p.span.stop - base ∧
      p.span.stop - base ≤ source.utf8ByteSize ∧
      IsBoundary source (p.span.start - base) ∧ IsBoundary source (p.span.stop - base) := by
  intro base
  have later : (Layout.ofSource (readAll sources) source).old.count p.family ≤ p.number := by
    rw [Layout.ofSource, Ast.count_reserve]
    exact (has_append has).resolve_left new
  have fits := (readAll_laid sources source).fits p has later
  obtain ⟨ordered, ⟨above, _, starts⟩, ⟨_, below, stops⟩, -⟩ := fits.fine
  exact ⟨if_pos ⟨above, below⟩, above, by omega, by omega, starts, stops⟩

end Spans

def runtimeError? : Except Error Value → Option RuntimeError
  | .error (.runtime e) => some e
  | _ => none

theorem eq_error_of_runtimeError? {r : Except Error Value} {e : RuntimeError}
    (found : runtimeError? r = some e) :
    r = .error (.runtime e) := by
  unfold runtimeError? at found
  split at found
  · rw [Option.some.inj found]
  · cases found

/-- The error of a source arises at a node of the catalogue. It has a span just if the source itself
brought the node, and then the span is the node's, counted from the start of the source, and made of
whole characters of it. -/
theorem runtime_error_located (maxDepth : Nat) (out : Sink) (input : List UInt8)
    (actions : List Action) (source : String) (e : RuntimeError) :
    let s := (fresh maxDepth out input).after actions
    let t := (s.parse source).2
    (s.eval source).1 = .error (.runtime e) →
    ∃ b f, (s.parse source).1 = .ok b ∧ t.failure? b = some f ∧ (t.run b).1 = .error f.error ∧
      e.kind = f.kind ∧ t.ast.Has f.node ∧ (e.span.isSome ↔ ¬ s.ast.Has f.node) ∧
      ∀ span, e.span = some span →
        s.ast.sourceEnd ≤ f.node.span.start ∧
        span = ⟨f.node.span.start - s.ast.sourceEnd, f.node.span.stop - s.ast.sourceEnd⟩ ∧
        span.start ≤ span.stop ∧ span.stop ≤ source.utf8ByteSize ∧
        IsBoundary source span.start ∧ IsBoundary source span.stop := by
  intro s t failed
  obtain ⟨b, e', read, ran, rfl⟩ := eval_error failed
  have sound : s.Sound := (sound_fresh maxDepth out input).after actions
  obtain ⟨sound', has⟩ := sound.parse source
  obtain ⟨f, fails, rfl, node⟩ := exists_failure sound'.closed (has b read) ran
  have sources : s.ast = readAll (actions.filterMap Action.source?) := ast_after_fresh ..
  have sources' : t.ast = readAll (actions.filterMap Action.source? ++ [source]) := by
    rw [readAll_append, ← sources]
    rfl
  refine ⟨b, f, read, fails, ran, rfl, node, ?_⟩
  rw [span_relativeTo, sources]
  by_cases old : (readAll (actions.filterMap Action.source?)).Has f.node
  · rw [before_source old]
    constructor
    · simp [old]
    · intro span wrong
      cases wrong
  · obtain ⟨within, above, ordered, below, starts, stops⟩ := in_source (sources' ▸ node) old
    rw [within]
    constructor
    · simp [old]
    · rintro span ⟨⟩
      exact ⟨above, rfl, ordered, below, starts, stops⟩

/-- A function of the first source divides by zero in the last one, behind a source that cannot be
read. A division of the last source itself does so behind a character of two bytes. -/
theorem runtime_error_located_closure :
    let s := (fresh 8 {} []).after [.eval "function half(x) { x / 0 }", .eval "var"]
    let away := "half(1)"
    let here := "\"é\" + 1 / 0"
    (∃ b f, (s.parse away).1 = .ok b ∧ (s.parse away).2.failure? b = some f ∧ s.ast.Has f.node) ∧
    ∃ b f, (s.parse here).1 = .ok b ∧ (s.parse here).2.failure? b = some f ∧
      f.node.span.start = s.ast.sourceEnd + 7 ∧ f.node.span.stop = s.ast.sourceEnd + 12 := by
  intro s away here
  have failed : runtimeError? (s.eval away).1 = some ⟨.divisionByZero, none⟩ := by decide +kernel
  have failed' : runtimeError? (s.eval here).1 = some ⟨.divisionByZero, some ⟨7, 12⟩⟩ := by
    decide +kernel
  constructor
  · obtain ⟨b, f, read, fails, -, -, -, located, -⟩ :=
      runtime_error_located 8 {} [] _ away _ (eq_error_of_runtimeError? failed)
    refine ⟨b, f, read, fails, ?_⟩
    by_contra new
    cases located.mpr new
  · obtain ⟨b, f, read, fails, -, -, -, -, spans⟩ :=
      runtime_error_located 8 {} [] _ here _ (eq_error_of_runtimeError? failed')
    obtain ⟨above, same, -⟩ := spans _ rfl
    have above : s.ast.sourceEnd ≤ f.node.span.start := above
    have starts : 7 = f.node.span.start - s.ast.sourceEnd := congrArg Span.start same
    have stops : 12 = f.node.span.stop - s.ast.sourceEnd := congrArg Span.stop same
    exact ⟨b, f, read, fails, by omega, by omega⟩

end Session

end ScriptKit
