import ScriptKit.Proofs.Eval.Builtins
import ScriptKit.Proofs.Tree.Relocation

/-! Evaluation does not depend on where a program stands, nor on functions that it does not have
yet.

Spans are passed on to errors and never looked at, numbers of expressions, statements and blocks not
even that. -/

namespace ScriptKit

/-- The second result is the first, but for the span of an error. Nothing is said if the first run
came upon something that is missing. -/
inductive Echo {α : Type} :
    EStateM.Result RuntimeError World α → EStateM.Result RuntimeError World α → Prop where
  | ok (a : α) (w : World) : Echo (.ok a w) (.ok a w)
  | error {e e' : RuntimeError} (w : World) : e'.kind = e.kind → Echo (.error e w) (.error e' w)
  | missing {e : RuntimeError} {w : World} {r : EStateM.Result RuntimeError World α} :
      e.kind.isMissing = true → Echo (.error e w) r

namespace Eval

def Echoes {α : Type} (m m' : Eval α) : Prop :=
  ∀ w, Echo (m w) (m' w)

variable {α β : Type}

theorem Echoes.bind {m m' : Eval α} {k k' : α → Eval β} (first : Echoes m m')
    (rest : ∀ a, Echoes (k a) (k' a)) : Echoes (m >>= k) (m' >>= k') := by
  intro w
  have echo := first w
  simp only [Bind.bind, EStateM.bind]
  generalize m w = r at echo
  generalize m' w = r' at echo
  cases echo with
  | ok a w => exact rest a w
  | error w same => exact .error w same
  | missing lost => exact .missing lost

theorem echoes_refl (m : Eval α) : Echoes m m := by
  intro w
  cases m w with
  | ok a w => exact .ok a w
  | error e w => exact .error w rfl

theorem echoes_fail (kind : RuntimeErrorKind) (span span' : Span) :
    Echoes (fail kind span : Eval α) (fail kind span') :=
  fun w => .error w rfl

theorem echoes_declare (scope : ScopeId) (b : Binding) (span span' : Span) :
    Echoes (declare scope b span) (declare scope b span') := by
  rw [declare_eq, declare_eq]
  refine (echoes_refl scopes).bind fun s => ?_
  cases s.declare scope b with
  | ok s => exact echoes_refl _
  | error e => exact echoes_fail _ span span'

theorem echoes_assign (scope : ScopeId) (x : String) (v : Value) (span span' : Span) :
    Echoes (assign scope x v span) (assign scope x v span') := by
  rw [assign_eq, assign_eq]
  refine (echoes_refl scopes).bind fun s => ?_
  cases s.assign scope x v with
  | ok s => exact echoes_refl _
  | error e => exact echoes_fail _ span span'

theorem echoes_write (text : String) (span span' : Span) :
    Echoes (write text span) (write text span') := by
  refine (echoes_refl get).bind fun w => ?_
  cases w.out.write text with
  | ok out => exact echoes_refl _
  | error message => exact echoes_fail _ span span'

theorem echoes_readLine (span span' : Span) : Echoes (readLine span) (readLine span') := by
  refine (echoes_refl get).bind fun w => ?_
  dsimp only
  split
  · exact echoes_refl _
  · refine (echoes_refl _).bind fun _ => ?_
    cases decodeText? (dropLineEnd (takeLine w.input).1) with
    | some text => exact echoes_refl _
    | none => exact echoes_fail _ span span'

theorem echoes_inFrame (reclaim : Nat → Value → Scopes → Scopes) (parent : ScopeId)
    {body body' : ScopeId → Eval Value} (inside : ∀ frame, Echoes (body frame) (body' frame)) :
    Echoes (inFrame reclaim parent body) (inFrame reclaim parent body') := by
  intro w
  have echo := inside w.scopes.size { w with scopes := w.scopes.push parent }
  unfold inFrame
  dsimp only
  generalize body w.scopes.size _ = r at echo
  generalize body' w.scopes.size _ = r' at echo
  cases echo with
  | ok v w => exact .ok v _
  | error w same => exact .error _ same
  | missing lost => exact .missing lost

end Eval

namespace Evaluator
open Eval

def Moved (r : Relocation) (funcs funcs' : Array Func) : Prop :=
  ∀ (f : FuncId) (func : Func), funcs[f]? = some func → funcs'[f]? = some (func.move r)

theorem echoes_name (scope : ScopeId) (x : String) (span span' : Span) :
    Echoes (name scope x span) (name scope x span') := by
  refine (echoes_refl scopes).bind fun s => ?_
  cases s.resolve? scope x with
  | some v => exact echoes_refl _
  | none =>
    cases Builtin.ofName? x with
    | some b => exact echoes_refl _
    | none => exact echoes_fail _ span span'

/-- Runs of which the second stands elsewhere and may have more functions. -/
def echoing (r : Relocation) (kept : ∀ i, r.number .func i = i)
    (reclaim : Nat → Value → Scopes → Scopes) : PlainCoupling id r reclaim where
  numbers := kept
  near _ _ := True
  near_move _ := trivial
  lenient := True
  holds := Echoes
  pure _ := echoes_refl _
  bind := Echoes.bind
  fail kind span span' _ := by
    rw [RuntimeErrorKind.respell_id]
    exact echoes_fail kind span span'
  missing _ f span m' w := .missing rfl
  name scope x span span' _ := echoes_name scope x span span'
  closure _ _ := echoes_refl _
  declare scope b span span' _ := echoes_declare scope b span span'
  assign scope x v span span' _ := echoes_assign scope x v span span'
  write text span span' _ := echoes_write text span span'
  readLine {span span'} _ := echoes_readLine span span'
  inFrame parent := echoes_inFrame reclaim parent

variable {r : Relocation} {funcs funcs' : Array Func}

theorem functions_echo (kept : ∀ i, r.number .func i = i) (reclaim : Nat → Value → Scopes → Scopes)
    (moved : Moved r funcs funcs') : (echoing r kept reclaim).coupling.Functions funcs funcs' := by
  intro f
  cases found : funcs[f]? with
  | none => exact .inr ⟨rfl, .inr trivial⟩
  | some func =>
    refine .inl ⟨func, rfl, ?_⟩
    rw [Func.respell_id]
    exact moved f func found

theorem echoes_block (kept : ∀ i, r.number .func i = i) (moved : Moved r funcs funcs')
    (reclaim : Nat → Value → Scopes → Scopes) (depth : Nat) (scope : ScopeId) (b : Block) :
    Echoes (block (rulesFor funcs reclaim depth) scope b)
      (block (rulesFor funcs' reclaim depth) scope (b.move r)) := by
  have echoes :=
    PlainCoupling.block (Coupling.rulesFor (functions_echo kept reclaim moved) depth) scope b
  rwa [Block.respell_id] at echoes

end Evaluator

end ScriptKit
