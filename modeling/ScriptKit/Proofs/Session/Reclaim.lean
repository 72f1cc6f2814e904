import Mathlib.Data.List.Forall2
import ScriptKit.Proofs.Eval.Simulation
import ScriptKit.Session

/-! Sessions with and without giving frames back.

Frames that are there between two sources are never given back later, so one renaming serves a whole
session, whatever its sources do. -/

namespace ScriptKit

namespace Correspondence

def initial : Correspondence where
  size := 1
  rename := fun i => i
  live := fun i => i = Scopes.globalId
  home := fun i => i = Scopes.globalId
  increasing := fun less _ => less
  live_lt := fun same => same ▸ Nat.one_pos
  live_of_home := fun same => same

theorem initial_match : initial.ScopesMatch Scopes.initial Scopes.initial := by
  have only : ∀ (i : ScopeId) (a : Frame), Scopes.initial.frames[i]? = some a →
      i = 0 ∧ a = { captured := true } := by
    intro i a found
    cases i with
    | zero => exact ⟨rfl, (Option.some.inj found).symm⟩
    | succ i => cases found
  constructor
  case size | global | rename_global => rfl
  case inside => exact fun i inside => inside
  case older =>
    intro i a found p member
    obtain ⟨rfl, rfl⟩ := only i a found
    cases member
  case envs =>
    intro i a found e member
    obtain ⟨rfl, rfl⟩ := only i a found
    cases member
  case frames =>
    rintro i rfl
    refine ⟨{ captured := true }, { captured := true }, rfl, rfl, ?_⟩
    exact ⟨(SymbolTable.rename_empty _).symm, rfl, fun p member => (nomatch member),
      fun _ => rfl⟩

/-- The renaming of a correspondence, and beyond its frames another one. -/
theorem exists_injective (c : Correspondence) {bound : Nat}
    (inside : ∀ i < c.size, c.rename i < bound) :
    ∃ f : ScopeId → ScopeId, Function.Injective f ∧ ∀ i < c.size, f i = c.rename i := by
  refine ⟨fun i => if i < c.size then c.rename i else bound + i, ?_, fun i old => if_pos old⟩
  intro i j same
  dsimp only at same
  split at same <;> split at same
  · rename_i hi hj
    exact c.rename_inj hi hj same
  · rename_i hi _
    exact absurd same (Nat.ne_of_lt (Nat.lt_add_right j (inside i hi)))
  · rename_i _ hj
    exact absurd same.symm (Nat.ne_of_lt (Nat.lt_add_right i (inside j hj)))
  · exact Nat.add_left_cancel same

end Correspondence

namespace Session

/-- The answers to sources read one after the other, each with the session behind it. -/
def evalAll (s : Session) : List String → List (Except Error Value × Session)
  | [] => []
  | source :: rest => s.eval source :: (s.eval source).2.evalAll rest

/-- The frames that a program run next can come to: the global one, those of closures in the answer
just given, and those of closures that a variable seen from such a frame holds. -/
inductive Usable (answer : Except Error Value) (s : Session) : ScopeId → Prop where
  | global : Usable answer s Scopes.globalId
  | answer {v : Value} {e : ScopeId} : answer = .ok v → e ∈ v.envs → Usable answer s e
  | seen {e e' : ScopeId} {x : String} {b : Binding} : Usable answer s e →
      s.world.scopes.lookup? e x = some b → e' ∈ b.value.envs → Usable answer s e'

/-- A step of a session that gives frames back and the same step of one that does not differ only in
the names of frames, which `f` translates. -/
structure SameStep (f : ScopeId → ScopeId) (step step' : Except Error Value × Session) : Prop where
  answer : step'.1 = step.1.map (Value.rename f)
  ast : step'.2.ast = step.2.ast
  out : step'.2.world.out = step.2.world.out
  input : step'.2.world.input = step.2.world.input
  globals : ∀ x, step'.2.world.scopes.lookup? Scopes.globalId x =
    (step.2.world.scopes.lookup? Scopes.globalId x).map (Binding.rename f)
  usable : ∀ e, Usable step.1 step.2 e → e < step.2.world.scopes.size ∧
    ∀ x, step'.2.world.scopes.lookup? (f e) x =
      (step.2.world.scopes.lookup? e x).map (Binding.rename f)

structure SessionMatch (c : Correspondence) (s t : Session) : Prop where
  depth : t.options.maxDepth = s.options.maxDepth
  release : s.options.reclaim = Scopes.release
  retain : t.options.reclaim = Scopes.retain
  ast : t.ast = s.ast
  world : c.WorldMatch s.world t.world

inductive AnswerMatch {ε : Type} (c : Correspondence) : Except ε Value → Except ε Value → Prop where
  | error (e : ε) : AnswerMatch c (.error e) (.error e)
  | ok {v w : Value} : c.ValueMatch v w → AnswerMatch c (.ok v) (.ok w)

theorem run_match {c : Correspondence} {s t : Session} (same : SessionMatch c s t) (b : Block) :
    ∃ d, c ≤ d ∧ AnswerMatch d (s.run b).1 (t.run b).1 ∧
      SessionMatch d (s.run b).2 (t.run b).2 := by
  have scope : c.ScopeMatch Scopes.globalId Scopes.globalId :=
    ⟨same.world.scopes.rename_global.symm, same.world.scopes.global⟩
  have agree := Correspondence.simulates_block s.ast.funcs s.options.maxDepth scope b c
    (Correspondence.le_refl c) _ _ same.world
  unfold Session.run
  rw [same.depth, same.release, same.retain, same.ast]
  dsimp only
  generalize Evaluator.block _ _ b s.world = r at agree ⊢
  generalize Evaluator.block _ _ b t.world = r' at agree ⊢
  cases agree with
  | @ok d _ _ _ _ later values worlds =>
    exact ⟨d, later, .ok values, same.depth, same.release, same.retain, rfl, worlds⟩
  | @error d e _ _ later worlds =>
    exact ⟨d, later, .error e, same.depth, same.release, same.retain, rfl, worlds⟩

theorem eval_match {c : Correspondence} {s t : Session} (same : SessionMatch c s t)
    (source : String) : ∃ d, c ≤ d ∧ AnswerMatch d (s.eval source).1 (t.eval source).1 ∧
      SessionMatch d (s.eval source).2 (t.eval source).2 := by
  unfold eval parse
  rw [same.ast]
  dsimp only
  cases read : parseSource source s.ast with
  | mk result ast =>
    have kept : SessionMatch c { s with ast } { t with ast } :=
      ⟨same.depth, same.release, same.retain, rfl, same.world⟩
    cases result with
    | error e => exact ⟨c, Correspondence.le_refl c, .error e, kept⟩
    | ok b =>
      obtain ⟨d, later, answers, after⟩ := run_match kept b
      refine ⟨d, later, ?_⟩
      dsimp only
      generalize run { s with ast } b = r at answers after ⊢
      generalize run { t with ast } b = r' at answers after ⊢
      obtain ⟨answer, s'⟩ := r
      obtain ⟨answer', t'⟩ := r'
      cases answers with
      | error e => exact ⟨.error _, after⟩
      | ok values => exact ⟨.ok values, after⟩

/-- The correspondence only grows from one source to the next, so the last one is good for all. -/
theorem evalAll_match {c : Correspondence} {s t : Session} (same : SessionMatch c s t)
    (sources : List String) : ∃ d bound, c ≤ d ∧ (∀ i < d.size, d.rename i < bound) ∧
      List.Forall₂ (fun step step' => ∃ e, e ≤ d ∧ AnswerMatch e step.1 step'.1 ∧
        SessionMatch e step.2 step'.2) (s.evalAll sources) (t.evalAll sources) := by
  -- Each source begins with the correspondence that the one before it ended with.
  induction sources generalizing c s t with
  | nil => exact ⟨c, _, Correspondence.le_refl c, same.world.scopes.inside, .nil⟩
  | cons source rest ih =>
    obtain ⟨e, later, answers, after⟩ := eval_match same source
    obtain ⟨d, bound, more, inside, steps⟩ := ih after
    exact ⟨d, bound, Correspondence.le_trans later more, inside,
      .cons ⟨e, more, answers, after⟩ steps⟩

theorem Usable.live {c : Correspondence} {answer answer' : Except Error Value} {s t : Session}
    (answers : AnswerMatch c answer answer') (same : SessionMatch c s t) {i : ScopeId}
    (usable : Usable answer s i) : c.live i := by
  induction usable with
  | global => exact same.world.scopes.global
  | answer ended member =>
    cases answers with
    | error e => cases ended
    | ok values =>
      cases ended
      exact c.live_of_home (values.2 _ member)
  | @seen e e' x b _ found member ih =>
    obtain ⟨_, holds⟩ := Correspondence.lookup?_match same.world.scopes x e ih
    exact c.live_of_home (holds b found e' member)

theorem sameStep_of_match {c : Correspondence} {f : ScopeId → ScopeId}
    (agrees : ∀ i < c.size, f i = c.rename i) {step step' : Except Error Value × Session}
    (answers : AnswerMatch c step.1 step'.1) (same : SessionMatch c step.2 step'.2) :
    SameStep f step step' := by
  have lookups : ∀ i, c.live i → ∀ x, step'.2.world.scopes.lookup? (f i) x =
      (step.2.world.scopes.lookup? i x).map (Binding.rename f) := by
    intro i live x
    obtain ⟨found, holds⟩ := Correspondence.lookup?_match same.world.scopes x i live
    rw [agrees i (c.live_lt live), found]
    cases looked : step.2.world.scopes.lookup? i x with
    | none => rfl
    | some b =>
      exact congrArg some (Binding.rename_congr b fun e member =>
        (agrees e ((holds b looked).lt member)).symm)
  have global := same.world.scopes.global
  have fixed : f Scopes.globalId = Scopes.globalId :=
    (agrees _ (c.live_lt global)).trans same.world.scopes.rename_global
  constructor
  case answer =>
    generalize step.1 = r at answers
    generalize step'.1 = r' at answers
    cases answers with
    | error e => rfl
    | ok values =>
      obtain ⟨rfl, holds⟩ := values
      exact congrArg Except.ok (Value.rename_congr _ fun e member =>
        (agrees e (holds.lt member)).symm)
  case ast => exact same.ast
  case out => exact same.world.out
  case input => exact same.world.input
  case globals =>
    intro x
    rw [← lookups _ global x, fixed]
  case usable =>
    intro i usable
    have live := usable.live answers same
    exact ⟨same.world.scopes.size ▸ c.live_lt live, lookups i live⟩

/-- Giving frames back shows nowhere: sources read one after the other have the same answers, errors
and output, and leave the same variables, as in a session that keeps every frame. -/
theorem release_unobservable (maxDepth : Nat) (out : Sink) (input : List UInt8)
    (sources : List String) :
    ∃ f : ScopeId → ScopeId, Function.Injective f ∧
      (∀ v w : Value, (v.rename f).equals (w.rename f) = v.equals w) ∧
      List.Forall₂ (SameStep f)
        (evalAll { options := { maxDepth, reclaim := Scopes.release }, world := { out, input } }
          sources)
        (evalAll { options := { maxDepth, reclaim := Scopes.retain }, world := { out, input } }
          sources) := by
  have start : SessionMatch .initial
      { options := { maxDepth, reclaim := Scopes.release }, world := { out, input } }
      { options := { maxDepth, reclaim := Scopes.retain }, world := { out, input } } :=
    ⟨rfl, rfl, rfl, rfl, Correspondence.initial_match, rfl, rfl⟩
  obtain ⟨d, bound, _, inside, steps⟩ := evalAll_match start sources
  obtain ⟨f, injective, agrees⟩ := d.exists_injective inside
  refine ⟨f, injective, ?_, ?_⟩
  · intro v w
    exact Value.equals_rename v w fun a _ b _ same => injective same
  · refine steps.imp ?_
    rintro step step' ⟨e, later, answers, same⟩
    apply sameStep_of_match _ answers same
    intro i old
    rw [agrees i (Nat.lt_of_lt_of_le old later.size), later.rename i old]

end Session

end ScriptKit
