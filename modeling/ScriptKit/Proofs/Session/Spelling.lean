import Mathlib.Logic.Equiv.Basic
import ScriptKit.Proofs.Eval.Coupling
import ScriptKit.Proofs.Eval.Hygiene
import ScriptKit.Proofs.Scope.Spelling
import ScriptKit.Proofs.Session.Joining

/-! How names are spelled does not matter.

Under other names a program does the same, with the same values in the same frames, as long as
different names stay different and no builtin gets another one. Spelling decides on hashes, on the
slots of variables and on the order in which a table is gone through, so none of these can be seen
from a program. -/

namespace ScriptKit

variable {spell : String → String}

theorem Builtin.ofName?_eq_some_iff {x : String} {b : Builtin} :
    Builtin.ofName? x = some b ↔ x = b.name := by
  constructor
  · intro found
    have named := List.find?_some (p := fun b : Builtin => b.name = x) found
    exact (of_decide_eq_true named).symm
  · rintro rfl
    cases b <;> decide

theorem Builtin.ofName?_spell (injective : Function.Injective spell)
    (fixed : ∀ b : Builtin, spell b.name = b.name) (x : String) :
    Builtin.ofName? (spell x) = Builtin.ofName? x := by
  ext b
  rw [Builtin.ofName?_eq_some_iff, Builtin.ofName?_eq_some_iff, ← fixed b, injective.eq_iff,
    fixed b]

structure World.Respelled (spell : String → String) (w w' : World) : Prop where
  scopes : w.scopes.Respelled spell w'.scopes
  out : w'.out = w.out
  input : w'.input = w.input

namespace Eval

inductive SameEnd (spell : String → String) {α : Type} :
    EStateM.Result RuntimeError World α → EStateM.Result RuntimeError World α → Prop where
  | ok (a : α) {w w' : World} : w.Respelled spell w' → SameEnd spell (.ok a w) (.ok a w')
  | error (e : RuntimeError) {w w' : World} : w.Respelled spell w' →
      SameEnd spell (.error e w) (.error (e.respell spell) w')

/-- `m'` does in a world with other names what `m` does. -/
def Mimics (spell : String → String) {α : Type} (m m' : Eval α) : Prop :=
  ∀ w w', w.Respelled spell w' → SameEnd spell (m w) (m' w')

variable {α β : Type}

theorem Mimics.bind {m m' : Eval α} {k k' : α → Eval β} (first : Mimics spell m m')
    (rest : ∀ a, Mimics spell (k a) (k' a)) : Mimics spell (m >>= k) (m' >>= k') := by
  intro w w' same
  have ended := first w w' same
  simp only [Bind.bind, EStateM.bind]
  generalize m w = r at ended ⊢
  generalize m' w' = r' at ended ⊢
  cases ended with
  | ok a same => exact rest a _ _ same
  | error e same => exact .error e same

theorem mimics_fail (kind : RuntimeErrorKind) (span : Span) :
    Mimics spell (fail kind span : Eval α) (fail (kind.respell spell) span) :=
  fun _ _ same => .error ⟨kind, some span⟩ same

theorem mimics_name (injective : Function.Injective spell)
    (fixed : ∀ b : Builtin, spell b.name = b.name) (scope : ScopeId) (x : String) (span : Span) :
    Mimics spell (Evaluator.name scope x span) (Evaluator.name scope (spell x) span) := by
  intro w w' same
  simp only [Evaluator.name, run_scopes, same.scopes.resolve? injective,
    Builtin.ofName?_spell injective fixed]
  cases w.scopes.resolve? scope x with
  | some v => exact .ok v same
  | none =>
    cases Builtin.ofName? x with
    | some b => exact .ok _ same
    | none => exact mimics_fail _ span w w' same

theorem mimics_closure (scope : ScopeId) (func : FuncId) :
    Mimics spell (closure scope func) (closure scope func) :=
  fun _ _ same => .ok _ ⟨same.scopes.capture scope, same.out, same.input⟩

theorem scopeError_spell (x : String) (e : ScopeError) :
    scopeError (spell x) e = (scopeError x e).respell spell := by
  cases e <;> rfl

/-- A change to the frames that is made, or refused for a reason about the name `x`. -/
theorem mimics_change {change change' : Scopes → Except ScopeError Scopes} (x : String)
    (span : Span) (changes : ∀ s s', s.Respelled spell s' →
      Scopes.SameChange spell (change s) (change' s')) :
    Mimics spell
      (do match change (← scopes) with
          | .ok s => setScopes s
          | .error e => fail (scopeError x e) span)
      (do match change' (← scopes) with
          | .ok s => setScopes s
          | .error e => fail (scopeError (spell x) e) span) := by
  intro w w' same
  have ended := changes w.scopes w'.scopes same.scopes
  simp only [run_scopes]
  generalize change w.scopes = r at ended ⊢
  generalize change' w'.scopes = r' at ended ⊢
  cases r with
  | ok s =>
    cases r' with
    | ok s' => exact .ok () ⟨ended, same.out, same.input⟩
    | error e' => cases ended
  | error e =>
    cases r' with
    | ok s' => cases ended
    | error e' =>
      cases ended
      dsimp only
      rw [scopeError_spell]
      exact mimics_fail _ span w w' same

theorem mimics_declare (injective : Function.Injective spell) (scope : ScopeId) (b : Binding)
    (span : Span) :
    Mimics spell (declare scope b span) (declare scope (b.respell spell) span) := by
  rw [declare_eq, declare_eq]
  exact mimics_change b.name span fun _ _ same => same.declare injective scope b

theorem mimics_assign (injective : Function.Injective spell) (scope : ScopeId) (x : String)
    (v : Value) (span : Span) :
    Mimics spell (assign scope x v span) (assign scope (spell x) v span) := by
  rw [assign_eq, assign_eq]
  exact mimics_change x span fun _ _ same => same.assign injective scope x v

theorem mimics_write (text : String) (span : Span) :
    Mimics spell (write text span) (write text span) := by
  intro w w' same
  simp only [write, run_get, same.out]
  cases w.out.write text with
  | ok out => exact .ok () ⟨same.scopes, rfl, same.input⟩
  | error message => exact mimics_fail _ span w w' same

theorem mimics_readLine (span : Span) : Mimics spell (readLine span) (readLine span) := by
  intro w w' same
  simp only [readLine, run_get, same.input]
  by_cases ended : (takeLine w.input).1.isEmpty = true
  · rw [if_pos ended]
    exact .ok none same
  · rw [if_neg ended]
    have rest : World.Respelled spell { w with input := (takeLine w.input).2 }
        { w' with input := (takeLine w.input).2 } := ⟨same.scopes, same.out, rfl⟩
    cases decodeText? (dropLineEnd (takeLine w.input).1) with
    | some text => exact .ok (some text) rest
    | none => exact .error ⟨.io notText, some span⟩ rest

theorem mimics_inFrame (parent : ScopeId) {body body' : ScopeId → Eval Value}
    (inside : ∀ frame, Mimics spell (body frame) (body' frame)) :
    Mimics spell (inFrame Scopes.release parent body) (inFrame Scopes.release parent body') := by
  intro w w' same
  have ended := inside w.scopes.size { w with scopes := w.scopes.push parent }
    { w' with scopes := w'.scopes.push parent } ⟨same.scopes.push parent, same.out, same.input⟩
  simp only [inFrame, same.scopes.size]
  generalize body w.scopes.size { w with scopes := w.scopes.push parent } = r at ended ⊢
  generalize body' w.scopes.size { w' with scopes := w'.scopes.push parent } = r' at ended ⊢
  cases ended with
  | ok v left => exact .ok v ⟨left.scopes.release _ v, left.out, left.input⟩
  | error e left => exact .error e ⟨left.scopes.release _ .null, left.out, left.input⟩

end Eval

open Eval

def mimicking (injective : Function.Injective spell)
    (fixed : ∀ b : Builtin, spell b.name = b.name) :
    PlainCoupling spell .same Scopes.release where
  numbers := Relocation.number_same .func
  near := Eq
  near_move := Span.eq_move_same
  lenient := False
  holds := Mimics spell
  pure a _ _ same := .ok a same
  bind := Mimics.bind
  fail kind span _ near := near ▸ mimics_fail kind span
  missing lenient := lenient.elim
  name scope x span _ near := near ▸ mimics_name injective fixed scope x span
  closure := mimics_closure
  declare scope b span _ near := near ▸ mimics_declare injective scope b span
  assign scope x v span _ near := near ▸ mimics_assign injective scope x v span
  write text span _ near := near ▸ mimics_write text span
  readLine {span _} near := near ▸ mimics_readLine span
  inFrame := mimics_inFrame

namespace Session

/-- The same session up to the spelling of names, with variables in whatever slots. -/
structure Respelled (spell : String → String) (s s' : Session) : Prop where
  options : s'.options = s.options
  ast : s'.ast = s.ast.respell spell
  world : s.world.Respelled spell s'.world

def respell (spell : String → String) (s : Session) : Session :=
  { s with
    ast := s.ast.respell spell
    world := { s.world with scopes := s.world.scopes.respell spell } }

structure SameRun (spell : String → String) (ran ran' : Except RuntimeError Value × Session) :
    Prop where
  answer : ran'.1 = ran.1.mapError (RuntimeError.respell spell)
  session : ran.2.Respelled spell ran'.2

theorem Respelled.run (injective : Function.Injective spell)
    (fixed : ∀ b : Builtin, spell b.name = b.name) {s s' : Session} (same : s.Respelled spell s')
    (reclaim : s.options.reclaim = Scopes.release) (b : Block) :
    SameRun spell (s.run b) (s'.run (b.respell spell)) := by
  have functions := PlainCoupling.functions_map (p := mimicking injective fixed) s.ast.funcs
  have rules := Coupling.rulesFor functions s.options.maxDepth
  have ended := PlainCoupling.block rules Scopes.globalId b s.world s'.world same.world
  have funcs : s'.ast.funcs = s.ast.funcs.map (Func.respell spell) := by
    rw [same.ast]
    rfl
  simp only [Func.move_same, Block.move_same] at ended
  simp only [run_eq_outcome, same.options, reclaim, funcs]
  generalize Evaluator.block _ Scopes.globalId b s.world = r at ended ⊢
  generalize Evaluator.block _ Scopes.globalId (b.respell spell) s'.world = r' at ended ⊢
  cases ended with
  | ok v world => exact ⟨rfl, ⟨rfl, same.ast, world⟩⟩
  | error e world => exact ⟨rfl, ⟨rfl, same.ast, world⟩⟩

/-- Blocks that are run one after the other, each with the catalogue that has its functions. -/
def runAll (s : Session) : List (Ast × Block) → List (Except RuntimeError Value × Session)
  | [] => []
  | (ast, b) :: rest =>
    let ran := { s with ast }.run b
    ran :: ran.2.runAll rest

theorem options_run (s : Session) (b : Block) : (s.run b).2.options = s.options := by
  rw [run_eq_outcome]

theorem Respelled.runAll (injective : Function.Injective spell)
    (fixed : ∀ b : Builtin, spell b.name = b.name) (programs : List (Ast × Block)) {s s' : Session}
    (same : s.Respelled spell s') (reclaim : s.options.reclaim = Scopes.release) :
    List.Forall₂ (SameRun spell) (s.runAll programs)
      (s'.runAll (programs.map fun p => (p.1.respell spell, p.2.respell spell))) := by
  induction programs generalizing s s' with
  | nil => exact .nil
  | cons p rest ih =>
    obtain ⟨ast, b⟩ := p
    have start : Respelled spell { s with ast } { s' with ast := ast.respell spell } :=
      ⟨same.options, rfl, same.world⟩
    have ran := start.run injective fixed reclaim b
    refine .cons ran (ih ran.session ?_)
    rw [options_run]
    exact reclaim

def failureKind : Except RuntimeError Value → Option RuntimeErrorKind
  | .ok _ => none
  | .error e => some e.kind

/-- Every session has one like it with names spelled anew. Programs with their names spelled alike
have the same answers in both, the same output, input and frames behind each, and errors about the
same variables; and so they do in any session that differs from the second in the slots of its
variables only. -/
theorem spelling_irrelevant (injective : Function.Injective spell)
    (fixed : ∀ b : Builtin, spell b.name = b.name) {s : Session} (sound : s.Sound)
    (programs : List (Ast × Block)) :
    s.Respelled spell (s.respell spell) ∧
      ∀ s', s.Respelled spell s' → List.Forall₂ (SameRun spell) (s.runAll programs)
        (s'.runAll (programs.map fun p => (p.1.respell spell, p.2.respell spell))) := by
  refine ⟨⟨rfl, rfl, ?_, rfl, rfl⟩,
    fun s' same => same.runAll injective fixed programs sound.reclaim⟩
  exact Scopes.respelled_respell injective fun i f found => (sound.scopes.frames i f found).proper

/-- Swapping `x` and `y` makes of a program that lacks a variable `y` one that lacks `x`. -/
theorem spelling_irrelevant_swapped :
    let spell : String → String := Equiv.swap "x" "y"
    let s := (fresh 8 {} []).after [.eval "var x = 5; function f(a) { a + x }"]
    let read : List (Ast × Block) := ["x = f(x)", "println(f(x), y)"].filterMap fun source =>
      (s.parse source).1.toOption.map ((s.parse source).2.ast, ·)
    let ran := (s.respell spell).runAll (read.map fun p => (p.1.respell spell, p.2.respell spell))
    read.length = 2 ∧ List.Forall₂ (SameRun spell) (s.runAll read) ran ∧
      ran.map (fun step => failureKind step.1) = [none, some (.undefinedVariable "x")] := by
  intro spell s read ran
  have injective : Function.Injective spell := (Equiv.swap "x" "y").injective
  have fixed : ∀ b : Builtin, spell b.name = b.name := by
    intro b
    cases b <;> decide
  have sound : s.Sound := (sound_fresh 8 {} []).after _
  obtain ⟨twin, alike⟩ := spelling_irrelevant injective fixed sound read
  exact ⟨by decide +kernel, alike _ twin, by decide +kernel⟩

end Session

end ScriptKit
