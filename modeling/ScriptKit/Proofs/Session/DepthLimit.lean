import ScriptKit.Proofs.Eval.Coupling
import ScriptKit.Proofs.Eval.Hygiene
import ScriptKit.Proofs.Session.Joining

/-! The limit for the depth of calls cuts a run off, and does nothing else to it.

Of two runs with different limits the tighter one does what the other does, up to its end or up to
the call that is too deep for it. From there on the error goes through to the outside, as nothing
catches it, while the other run may write more. -/

namespace ScriptKit

def Sink.Grown (a b : Sink) : Prop :=
  ∃ more, b.text = a.text ++ more

namespace Sink

variable {a b c : Sink}

theorem Grown.refl (a : Sink) : a.Grown a :=
  ⟨"", String.append_empty.symm⟩

theorem Grown.trans (first : a.Grown b) (second : b.Grown c) : a.Grown c := by
  obtain ⟨more, here⟩ := first
  obtain ⟨yet, there⟩ := second
  exact ⟨more ++ yet, by rw [there, here, String.append_assoc]⟩

theorem grown_write {text : String} (written : a.write text = .ok b) : a.Grown b :=
  ⟨text, text_write written⟩

end Sink

def RuntimeError.IsOverflow (e : RuntimeError) : Prop :=
  e.kind = .stackOverflow

namespace Eval

/-- How a computation ends under a tighter limit, compared with how `m` ends: the same, or with
calls that are too deep, and then perhaps before all was written. -/
def CutOff {α : Type} (m : Eval α) (w : World) (short : EStateM.Result RuntimeError World α) :
    Prop :=
  short = m w ∨ ∃ e w', short = .error e w' ∧ e.IsOverflow ∧ w'.out.Grown (worldAfter m w).out

/-- `m` is `m'`, cut off where calls get too deep for it, and what `m'` has written stays
written. -/
def Curtails {α : Type} (m m' : Eval α) : Prop :=
  ∀ w, CutOff m' w (m w) ∧ w.out.Grown (worldAfter m' w).out

variable {α β : Type}

theorem worldAfter_bind (m : Eval α) (k : α → Eval β) (w : World) :
    worldAfter (m >>= k) w = match m w with
      | .ok a w' => worldAfter (k a) w'
      | .error _ w' => w' := by
  simp only [worldAfter, Bind.bind, EStateM.bind]
  cases m w <;> rfl

theorem Curtails.bind {m m' : Eval α} {k k' : α → Eval β} (first : Curtails m m')
    (rest : ∀ a, Curtails (k a) (k' a)) : Curtails (m >>= k) (m' >>= k') := by
  intro w
  obtain ⟨cut, grown⟩ := first w
  -- Whatever the first part was, the second part of the longer run only adds to the output.
  have more : (worldAfter m' w).out.Grown (worldAfter (m' >>= k') w).out := by
    rw [worldAfter_bind]
    unfold worldAfter
    cases m' w with
    | error e w' => exact .refl _
    | ok a w' => exact (rest a w').2
  refine ⟨?_, grown.trans more⟩
  rcases cut with same | ⟨e, w', short, overflow, before⟩
  · cases ended : m' w with
    | error e w' =>
      left
      simp only [Bind.bind, EStateM.bind, same, ended]
    | ok a w' =>
      have here : (m >>= k) w = k a w' := by simp only [Bind.bind, EStateM.bind, same, ended]
      have there : (m' >>= k') w = k' a w' := by simp only [Bind.bind, EStateM.bind, ended]
      unfold CutOff worldAfter
      rw [here, there]
      exact (rest a w').1
  · right
    refine ⟨e, w', ?_, overflow, before.trans more⟩
    simp only [Bind.bind, EStateM.bind, short]

theorem curtails_self {m : Eval α} (grown : ∀ w : World, w.out.Grown (worldAfter m w).out) :
    Curtails m m :=
  fun w => ⟨.inl rfl, grown w⟩

/-- A computation that leaves the output alone. -/
theorem curtails_quiet {m : Eval α} (quiet : ∀ w, (worldAfter m w).out = w.out) : Curtails m m := by
  apply curtails_self
  intro w
  rw [quiet w]
  exact .refl _

theorem curtails_name (scope : ScopeId) (x : String) (span : Span) :
    Curtails (Evaluator.name scope x span) (Evaluator.name scope x span) := by
  apply curtails_quiet
  intro w
  simp only [worldAfter, Evaluator.name, run_scopes]
  cases w.scopes.resolve? scope x with
  | some v => rfl
  | none => cases Builtin.ofName? x <;> rfl

/-- A change to the frames that is made or refused. -/
theorem curtails_change (change : Scopes → Except ScopeError Scopes) (x : String) (span : Span) :
    let m : Eval Unit := do
      match change (← scopes) with
      | .ok s => setScopes s
      | .error e => fail (scopeError x e) span
    Curtails m m := by
  apply curtails_quiet
  intro w
  simp only [worldAfter, run_scopes]
  cases change w.scopes <;> rfl

theorem curtails_write (text : String) (span : Span) :
    Curtails (write text span) (write text span) := by
  apply curtails_self
  intro w
  simp only [worldAfter, write, run_get]
  cases written : w.out.write text with
  | error message => exact .refl _
  | ok out => exact Sink.grown_write written

theorem curtails_readLine (span : Span) : Curtails (readLine span) (readLine span) := by
  apply curtails_quiet
  intro w
  simp only [worldAfter, readLine, run_get]
  by_cases ended : (takeLine w.input).1.isEmpty = true
  · rw [if_pos ended]
    rfl
  · rw [if_neg ended]
    cases decodeText? (dropLineEnd (takeLine w.input).1) <;> rfl

theorem curtails_inFrame (reclaim : Nat → Value → Scopes → Scopes) (parent : ScopeId)
    {body body' : ScopeId → Eval Value} (inside : ∀ frame, Curtails (body frame) (body' frame)) :
    Curtails (inFrame reclaim parent body) (inFrame reclaim parent body') := by
  intro w
  obtain ⟨cut, grown⟩ := inside w.scopes.size { w with scopes := w.scopes.push parent }
  -- Giving frames back does not touch the output.
  have out : (worldAfter (inFrame reclaim parent body') w).out =
      (worldAfter (body' w.scopes.size) { w with scopes := w.scopes.push parent }).out := by
    simp only [worldAfter, inFrame]
    cases body' w.scopes.size { w with scopes := w.scopes.push parent } <;> rfl
  rw [← out] at grown
  refine ⟨?_, grown⟩
  rcases cut with same | ⟨e, w', short, overflow, before⟩
  · left
    simp only [inFrame, same]
  · right
    rw [← out] at before
    exact ⟨e, { w' with scopes := reclaim w.scopes.size .null w'.scopes },
      by simp only [inFrame, short], overflow, before⟩

/-- A run that is stopped at once, beside any run that only adds to the output. -/
theorem curtails_overflow {m m' : Eval α} (growing : Curtails m m') (span : Span) :
    Curtails (fail .stackOverflow span) m' :=
  fun w => ⟨.inr ⟨_, w, rfl, rfl, (growing w).2⟩, (growing w).2⟩

end Eval

open Eval

def curtailing (reclaim : Nat → Value → Scopes → Scopes) : PlainCoupling id .same reclaim where
  numbers := Relocation.number_same .func
  near := Eq
  near_move := Span.eq_move_same
  lenient := False
  holds := Curtails
  pure _ := curtails_quiet fun _ => rfl
  bind := Curtails.bind
  fail kind span span' near := by
    rw [RuntimeErrorKind.respell_id, near]
    exact curtails_quiet fun _ => rfl
  missing lenient := lenient.elim
  name scope x span _ near := near ▸ curtails_name scope x span
  closure _ _ := curtails_quiet fun _ => rfl
  declare scope b span span' near := by
    rw [declare_eq, declare_eq, near]
    exact curtails_change (·.declare scope b) b.name span'
  assign scope x v span span' near := by
    rw [assign_eq, assign_eq, near]
    exact curtails_change (·.assign scope x v) x span'
  write text span _ near := near ▸ curtails_write text span
  readLine {span _} near := near ▸ curtails_readLine span
  inFrame := curtails_inFrame reclaim

namespace Evaluator

variable (funcs : Array Func) (reclaim : Nat → Value → Scopes → Scopes)

theorem functions_curtail : (curtailing reclaim).coupling.Functions funcs funcs := by
  have functions := PlainCoupling.functions_map (p := curtailing reclaim) funcs
  simpa only [Func.respell_id, Func.move_same, Array.map_id'] using functions

theorem enter_curtails {d d' : Nat} (le : d ≤ d') :
    (curtailing reclaim).Enters (enter funcs reclaim d) (enter funcs reclaim d') := by
  have functions := functions_curtail funcs reclaim
  induction d generalizing d' with
  | zero =>
    rintro f env args span _ rfl
    have growing :=
      PlainCoupling.enters_iff.mp (Coupling.enter_same functions d') f env args (Eq.refl span)
    have stopped : enter funcs reclaim 0 f env args span = enter funcs reclaim d' f env args span ∨
        enter funcs reclaim 0 f env args span = fail .stackOverflow span := by
      cases d' with
      | zero => exact .inl rfl
      | succ d' =>
        unfold enter
        cases funcs[f]? with
        | none => exact .inl rfl
        | some func =>
          dsimp only
          split
          · exact .inl rfl
          · exact .inr rfl
    rcases stopped with same | overflow
    · rw [same]
      exact growing
    · rw [overflow]
      exact curtails_overflow growing span
  | succ d ih =>
    obtain ⟨d', rfl⟩ : ∃ k, d' = k + 1 := ⟨d' - 1, by omega⟩
    have inner := PlainCoupling.enters_iff.mpr (ih (Nat.le_of_succ_le_succ le))
    exact PlainCoupling.enters_iff.mp (Coupling.enter_succ functions inner)

theorem block_curtails {d d' : Nat} (le : d ≤ d') (scope : ScopeId) (b : Block) :
    Curtails (block (rulesFor funcs reclaim d) scope b)
      (block (rulesFor funcs reclaim d') scope b) := by
  have enters := PlainCoupling.enters_iff.mpr (enter_curtails funcs reclaim le)
  have cuts :=
    PlainCoupling.block (Coupling.Enters.rules (functions_curtail funcs reclaim) enters) scope b
  rwa [Block.respell_id, Block.move_same] at cuts

end Evaluator

namespace Session

def limited (s : Session) (maxDepth : Nat) : Session :=
  { s with options := { s.options with maxDepth } }

def overflowed : Except Error Value → Bool
  | .error (.runtime e) => e.kind = .stackOverflow
  | _ => false

theorem parse_limited (s : Session) (maxDepth : Nat) (source : String) :
    (s.limited maxDepth).parse source = ((s.parse source).1, (s.parse source).2.limited maxDepth) :=
  rfl

theorem run_cut (s : Session) (b : Block) {d d' : Nat} (le : d ≤ d') :
    (s.limited d').run b = (((s.limited d).run b).1, ((s.limited d).run b).2.limited d') ∨
      ∃ e, ((s.limited d).run b).1 = .error e ∧ e.IsOverflow ∧
        ((s.limited d).run b).2.world.out.Grown ((s.limited d').run b).2.world.out := by
  obtain ⟨cut, -⟩ :=
    Evaluator.block_curtails s.ast.funcs s.options.reclaim le Scopes.globalId b s.world
  simp only [run_eq_outcome, limited]
  rcases cut with same | ⟨e, w, short, overflow, before⟩
  · left
    rw [same]
  · right
    refine ⟨e, ?_, overflow, ?_⟩
    · rw [short]
      rfl
    · rw [short]
      unfold worldAfter at before
      cases ended : Evaluator.block (Evaluator.rulesFor s.ast.funcs s.options.reclaim d')
        Scopes.globalId b s.world with
      | ok v w' =>
        rw [ended] at before
        exact before
      | error e' w' =>
        rw [ended] at before
        exact before

/-- A source that does not overflow has the same answer under every higher limit, and leaves the
same frames, variables, output and input. One that overflows under the higher limit does so under
the lower one, which then has written a first part of what is written under the higher limit. -/
theorem depth_limit_only_cuts (s : Session) (source : String) {d d' : Nat} (le : d ≤ d') :
    let tight := (s.limited d).eval source
    let loose := (s.limited d').eval source
    (overflowed tight.1 = false → loose = (tight.1, tight.2.limited d')) ∧
    (overflowed loose.1 = true → overflowed tight.1 = true) ∧
    (overflowed tight.1 = true → tight.2.world.out.Grown loose.2.world.out) := by
  intro tight loose
  suffices loose = (tight.1, tight.2.limited d') ∨
      overflowed tight.1 = true ∧ tight.2.world.out.Grown loose.2.world.out by
    rcases this with same | ⟨overflow, grown⟩
    · refine ⟨fun _ => same, fun overflow => ?_, fun _ => ?_⟩
      · rw [same] at overflow
        exact overflow
      · rw [same]
        exact .refl _
    · refine ⟨fun fine => ?_, fun _ => overflow, fun _ => grown⟩
      rw [overflow] at fine
      cases fine
  cases read : (s.parse source).1 with
  | error e =>
    left
    have failed : ∀ n, (s.limited n).parse source = (.error e, (s.parse source).2.limited n) := by
      intro n
      rw [parse_limited, read]
    simp only [tight, loose, eval_of_error (failed _)]
    rfl
  | ok b =>
    have parsed : ∀ n, (s.limited n).parse source = (.ok b, (s.parse source).2.limited n) := by
      intro n
      rw [parse_limited, read]
    simp only [tight, loose, eval_of_parse (parsed _)]
    rcases run_cut (s.parse source).2 b le with same | ⟨e, failed, overflow, grown⟩
    · left
      rw [same]
      rfl
    · right
      rw [failed]
      exact ⟨decide_eq_true overflow, grown⟩

/-- A call inside a call is not too deep for a limit of two, and a function that calls itself is so
for every limit. -/
theorem depth_limit_only_cuts_nested :
    let s := fresh 0 {} []
    let nested := "function f(x) { print(x); x + 1 } function g(x) { f(x) } g(6)"
    let endless := "function f(n) { print(n); f(n + 1) } f(0)"
    overflowed ((s.limited 2).eval nested).1 = false ∧
      (s.limited 9).eval nested =
        (((s.limited 2).eval nested).1, ((s.limited 2).eval nested).2.limited 9) ∧
      overflowed ((s.limited 5).eval endless).1 = true ∧
      overflowed ((s.limited 3).eval endless).1 = true ∧
      ((s.limited 3).eval endless).2.world.out.Grown ((s.limited 5).eval endless).2.world.out := by
  intro s nested endless
  have fine : overflowed ((s.limited 2).eval nested).1 = false := by decide +kernel
  have deep : overflowed ((s.limited 5).eval endless).1 = true := by decide +kernel
  obtain ⟨same, -, -⟩ := depth_limit_only_cuts s nested (show 2 ≤ 9 by decide)
  obtain ⟨-, down, grown⟩ := depth_limit_only_cuts s endless (show 3 ≤ 5 by decide)
  exact ⟨fine, same fine, deep, down deep, grown (down deep)⟩

end Session

end ScriptKit
