import ScriptKit.Eval.Basic
import ScriptKit.Proofs.Eval.Simulation
import ScriptKit.Proofs.Tree.Nesting

/-! The node at which an error arises.

An error of the evaluator has only a span. Here is the same evaluation with the node at hand in
place of its span, so that an error names the node at which it arose. With the nodes replaced by
their spans it is the evaluator, and it names no nodes but those of the catalogue. -/

namespace ScriptKit

structure Failure where
  kind : RuntimeErrorKind
  node : Part

def Failure.error (f : Failure) : RuntimeError :=
  ⟨f.kind, some f.node.span⟩

abbrev Traced := EStateM Failure World

namespace Traced

/-- Something that a node does by itself. If it fails, it fails at the node. -/
def act {α : Type} (p : Part) (m : Span → Eval α) : Traced α := fun w =>
  match m p.span w with
  | .ok a w => .ok a w
  | .error e w => .error ⟨e.kind, p⟩ w

def inFrame (reclaim : Nat → Value → Scopes → Scopes) (parent : ScopeId)
    (body : ScopeId → Traced Value) : Traced Value := fun w =>
  let mark := w.scopes.size
  match body mark { w with scopes := w.scopes.push parent } with
  | .ok v w => .ok v { w with scopes := reclaim mark v w.scopes }
  | .error f w => .error f { w with scopes := reclaim mark .null w.scopes }

structure Rules where
  call : Callable → List Value → Part → Traced Value
  reclaim : Nat → Value → Scopes → Scopes

mutual

def expr (rules : Rules) (scope : ScopeId) : Expr → Traced Value
  | .literal _ v => return .ofLiteral v
  | .name node x => act (.expr (.name node x)) (Evaluator.name scope x)
  | .binary node op a b => do
    let x ← expr rules scope a
    let y ← expr rules scope b
    act (.expr (.binary node op a b)) (Eval.ofExcept · (Operators.binary op x y))
  | .unary node op a => do
    let x ← expr rules scope a
    act (.expr (.unary node op a)) (Eval.ofExcept · (Operators.unary op x))
  | .call node f args => do
    let callee ← expr rules scope f
    let values ← exprs rules scope args
    match callee with
    | .function g => rules.call g values (.expr (.call node f args))
    | v => act (.expr (.call node f args)) (Eval.fail (.notCallable v.type))
  | .array _ items => do
    return .array (← exprs rules scope items)
  | .index node a i => do
    let target ← expr rules scope a
    let key ← expr rules scope i
    act (.expr (.index node a i)) (Eval.ofExcept · (Operators.index target key))
  | .function node f => act (.expr (.function node f)) fun _ => Eval.closure scope f.id

def exprs (rules : Rules) (scope : ScopeId) : List Expr → Traced (List Value)
  | [] => return []
  | e :: es => do
    let v ← expr rules scope e
    let vs ← exprs rules scope es
    return v :: vs

def stmt (rules : Rules) (scope : ScopeId) : Stmt → Traced Value
  | .expr _ e => expr rules scope e
  | .declare node x e isConst => do
    let v ← expr rules scope e
    act (.stmt (.declare node x e isConst)) (Eval.declare scope ⟨x, v, isConst⟩)
    return v
  | .assign node x e => do
    let v ← expr rules scope e
    act (.stmt (.assign node x e)) (Eval.assign scope x v)
    return v
  | .function node x f => do
    let v ← act (.stmt (.function node x f)) fun _ => Eval.closure scope f.id
    act (.stmt (.function node x f)) (Eval.declare scope ⟨x, v, false⟩)
    return v
  | .block _ b => inFrame rules.reclaim scope fun child => block rules child b

def stmts (rules : Rules) (scope : ScopeId) (last : Value) : List Stmt → Traced Value
  | [] => return last
  | s :: ss => do
    let v ← stmt rules scope s
    stmts rules scope v ss

def block (rules : Rules) (scope : ScopeId) : Block → Traced Value
  | .mk _ ss => stmts rules scope .null ss

end

abbrev Enter := FuncId → ScopeId → List Value → Part → Traced Value

def keepItems (test : Value → Traced Value) : List Value → Traced (List Value)
  | [] => return []
  | v :: vs => do
    let kept ← test v
    let rest ← keepItems test vs
    return if kept.isTruthy then v :: rest else rest

def filter (funcs : Array Func) (enter : Enter) (args : List Value) (p : Part) : Traced Value :=
  match args with
  | [.array items, .function (.builtin b)] => do
    return .array (← keepItems (fun v => act p (b.perform [v])) items)
  | [.array items, .function (.closure f env)] =>
    match funcs[f]? with
    | none => act p (Eval.fail (.missingFunction f))
    | some func =>
      match func.params with
      | [] => do return .array (← keepItems (fun _ => enter f env [] p) items)
      | [_] => do return .array (← keepItems (fun v => enter f env [v] p) items)
      | _ => act p (Builtin.wrongArgument .arrayFilter "a function of at most one parameter")
  | [_, _] => act p (Builtin.wrongArgument .arrayFilter "an array and a function")
  | _ => act p (Builtin.wrongCount .arrayFilter "2" args)

def call (funcs : Array Func) (enter : Enter) : Callable → List Value → Part → Traced Value
  | .closure f env, args, p => enter f env args p
  | .builtin .arrayFilter, args, p => filter funcs enter args p
  | .builtin b, args, p => act p (b.perform args)

def enter (funcs : Array Func) (reclaim : Nat → Value → Scopes → Scopes) (depth : Nat) : Enter :=
  fun f env args p =>
  match funcs[f]? with
  | none => act p (Eval.fail (.missingFunction f))
  | some func =>
    if args.length ≠ func.params.length then
      act p (Eval.fail (.arityMismatch func.params.length args.length))
    else
      match depth with
      | 0 => act p (Eval.fail .stackOverflow)
      | depth + 1 =>
        let rules : Rules := ⟨call funcs (enter funcs reclaim depth), reclaim⟩
        inFrame reclaim env fun frame => do
          act p fun span => Evaluator.bindParams frame span func.params args
          match func.body with
          | .block b => block rules frame b
          | .expr e => expr rules frame e

def rulesFor (funcs : Array Func) (reclaim : Nat → Value → Scopes → Scopes) (depth : Nat) : Rules :=
  ⟨call funcs (enter funcs reclaim depth), reclaim⟩

end Traced

/-- The one computation does what the other does. Where the one fails with a span, the other names a
good node of that span. -/
def Blames {α : Type} (good : Part → Prop) (m : Eval α) (t : Traced α) : Prop :=
  ∀ w, match t w with
    | .ok a w' => m w = .ok a w'
    | .error f w' => m w = .error f.error w' ∧ good f.node

def Eval.FailsAt {α : Type} (span : Span) (m : Eval α) : Prop :=
  ∀ w e w', m w = .error e w' → e.span = some span

namespace Eval

variable {α β : Type} {span : Span}

theorem FailsAt.bind {m : Eval α} {k : α → Eval β} (first : FailsAt span m)
    (rest : ∀ a, FailsAt span (k a)) :
    FailsAt span (m >>= k) := by
  intro w e w' failed
  simp only [Bind.bind, EStateM.bind] at failed
  cases ended : m w with
  | error e₁ w₁ =>
    rw [ended] at failed
    cases failed
    exact first w e w' ended
  | ok a w₁ =>
    rw [ended] at failed
    exact rest a w₁ e w' failed

theorem failsAt_pure (a : α) : FailsAt span (pure a) := by
  intro w e w' failed
  cases failed

theorem failsAt_fail (kind : RuntimeErrorKind) (span : Span) :
    FailsAt span (fail kind span : Eval α) := by
  intro w e w' failed
  cases failed
  rfl

theorem failsAt_get : FailsAt span (get : Eval World) := by
  intro w e w' failed
  cases failed

theorem failsAt_modify (f : World → World) : FailsAt span (modify f : Eval Unit) := by
  intro w e w' failed
  cases failed

theorem failsAt_scopes : FailsAt span scopes :=
  failsAt_get.bind fun _ => failsAt_pure _

theorem failsAt_ofExcept (span : Span) (r : Except RuntimeErrorKind α) :
    FailsAt span (ofExcept span r) := by
  cases r with
  | ok a => exact failsAt_pure a
  | error kind => exact failsAt_fail kind span

theorem failsAt_closure (scope : ScopeId) (func : FuncId) : FailsAt span (closure scope func) :=
  failsAt_scopes.bind fun _ => (failsAt_modify _).bind fun _ => failsAt_pure _

theorem failsAt_declare (scope : ScopeId) (b : Binding) (span : Span) :
    FailsAt span (declare scope b span) := by
  rw [declare_eq]
  refine failsAt_scopes.bind fun s => ?_
  split
  · exact failsAt_modify _
  · exact failsAt_fail _ span

theorem failsAt_assign (scope : ScopeId) (x : String) (v : Value) (span : Span) :
    FailsAt span (assign scope x v span) := by
  rw [assign_eq]
  refine failsAt_scopes.bind fun s => ?_
  split
  · exact failsAt_modify _
  · exact failsAt_fail _ span

theorem failsAt_name (scope : ScopeId) (x : String) (span : Span) :
    FailsAt span (Evaluator.name scope x span) := by
  refine failsAt_scopes.bind fun s => ?_
  split
  · exact failsAt_pure _
  · split
    · exact failsAt_pure _
    · exact failsAt_fail _ span

theorem failsAt_bindParams (frame : ScopeId) (span : Span) (ps : List String) (vs : List Value) :
    FailsAt span (Evaluator.bindParams frame span ps vs) := by
  induction ps generalizing vs with
  | nil => exact failsAt_pure ()
  | cons p ps ih =>
    cases vs with
    | nil => exact failsAt_pure ()
    | cons v vs => exact (failsAt_declare frame ⟨p, v, false⟩ span).bind fun _ => ih vs

theorem failsAt_write (text : String) (span : Span) : FailsAt span (write text span) := by
  refine failsAt_get.bind fun w => ?_
  split
  · exact failsAt_modify _
  · exact failsAt_fail _ span

theorem failsAt_readLine (span : Span) : FailsAt span (readLine span) := by
  refine failsAt_get.bind fun w => ?_
  dsimp only
  split
  · exact failsAt_pure _
  · refine (failsAt_modify _).bind fun _ => ?_
    split
    · exact failsAt_pure _
    · exact failsAt_fail _ span

end Eval

namespace Builtin
open Eval

variable (args : List Value) (span : Span)

theorem failsAt_takeInput : FailsAt span (takeInput span) := by
  refine (failsAt_readLine span).bind fun line => ?_
  cases line <;> exact failsAt_pure _

theorem failsAt_readInput : FailsAt span (readInput args span) := by
  unfold readInput
  split
  · exact failsAt_takeInput span
  · exact (failsAt_write _ span).bind fun _ => failsAt_takeInput span
  · exact failsAt_fail _ span
  · exact failsAt_fail _ span

theorem failsAt_leave : FailsAt span (leave args span) := by
  unfold leave
  split
  · exact failsAt_fail _ span
  · split <;> exact failsAt_fail _ span
  · exact failsAt_fail _ span
  · exact failsAt_fail _ span

theorem failsAt_perform (b : Builtin) : FailsAt span (b.perform args span) := by
  cases b with
  | println | print => exact (failsAt_write _ span).bind fun _ => failsAt_pure _
  | array | vector => exact failsAt_pure _
  | arrayFilter => exact failsAt_fail _ span
  | read => exact failsAt_readInput args span
  | exit => exact failsAt_leave args span

end Builtin

section Combinators

variable {α β : Type} {good : Part → Prop} {p : Part}

theorem Blames.bind {m : Eval α} {t : Traced α} {k : α → Eval β} {l : α → Traced β}
    (first : Blames good m t) (rest : ∀ a, Blames good (k a) (l a)) :
    Blames good (m >>= k) (t >>= l) := by
  intro w
  have done := first w
  simp only [Bind.bind, EStateM.bind]
  cases ended : t w with
  | error f w' =>
    rw [ended] at done
    rw [done.1]
    exact ⟨rfl, done.2⟩
  | ok a w' =>
    rw [ended] at done
    rw [done]
    exact rest a w'

theorem blames_pure (a : α) : Blames good (pure a) (pure a) :=
  fun _ => rfl

theorem blames_act {m : Span → Eval α} (has : good p) (fails : Eval.FailsAt p.span (m p.span)) :
    Blames good (m p.span) (Traced.act p m) := by
  intro w
  unfold Traced.act
  cases ended : m p.span w with
  | ok a w' => rfl
  | error e w' =>
    have span := fails w e w' ended
    refine ⟨?_, has⟩
    rw [Failure.error, ← span]

theorem blames_fail (has : good p) (kind : RuntimeErrorKind) :
    Blames good (Eval.fail kind p.span : Eval α) (Traced.act p (Eval.fail kind)) :=
  blames_act has (Eval.failsAt_fail kind p.span)

theorem blames_inFrame {reclaim : Nat → Value → Scopes → Scopes} {parent : ScopeId}
    {body : ScopeId → Eval Value} {body' : ScopeId → Traced Value}
    (inside : ∀ frame, Blames good (body frame) (body' frame)) :
    Blames good (Eval.inFrame reclaim parent body) (Traced.inFrame reclaim parent body') := by
  intro w
  have done := inside w.scopes.size { w with scopes := w.scopes.push parent }
  simp only [Eval.inFrame, Traced.inFrame]
  cases ended : body' w.scopes.size { w with scopes := w.scopes.push parent } with
  | ok v w' =>
    rw [ended] at done
    rw [done]
  | error f w' =>
    rw [ended] at done
    rw [done.1]
    exact ⟨rfl, done.2⟩

end Combinators

namespace Traced
open Eval

structure RulesBlame (ast : Ast) (rules : ScriptKit.Rules) (traced : Rules) : Prop where
  call : ∀ g args p, ast.Has p → Blames ast.Has (rules.call g args p.span) (traced.call g args p)
  reclaim : traced.reclaim = rules.reclaim

section Walk

variable {ast : Ast} {rules : ScriptKit.Rules} {traced : Rules}

mutual

theorem blames_expr (closed : ast.Closed) (blame : RulesBlame ast rules traced) (scope : ScopeId) :
    (e : Expr) → ast.Has (.expr e) →
    Blames ast.Has (Evaluator.expr rules scope e) (expr traced scope e)
  | .literal _ v, _ => blames_pure _
  | .name node x, has => blames_act has (failsAt_name scope x node.span)
  | .binary node op a b, has =>
    (blames_expr closed blame scope a (closed.parts _ has _ (.head _))).bind fun x =>
      (blames_expr closed blame scope b (closed.parts _ has _ (.tail _ (.head _)))).bind fun y =>
        blames_act has (failsAt_ofExcept node.span _)
  | .unary node op a, has =>
    (blames_expr closed blame scope a (closed.parts _ has _ (.head _))).bind fun x =>
      blames_act has (failsAt_ofExcept node.span _)
  | .call node f args, has =>
    (blames_expr closed blame scope f (closed.parts _ has _ (.head _))).bind fun callee =>
      (blames_exprs closed blame scope args fun e member =>
        closed.parts _ has _ (.tail _ (List.mem_map_of_mem member))).bind fun values => by
        cases callee with
        | function g => exact blame.call g values _ has
        | _ => exact blames_fail has _
  | .array _ items, has =>
    (blames_exprs closed blame scope items fun e member =>
      closed.parts _ has _ (List.mem_map_of_mem member)).bind fun values => blames_pure _
  | .index node a i, has =>
    (blames_expr closed blame scope a (closed.parts _ has _ (.head _))).bind fun target =>
      (blames_expr closed blame scope i (closed.parts _ has _ (.tail _ (.head _)))).bind fun key =>
        blames_act has (failsAt_ofExcept node.span _)
  | .function node f, has =>
    blames_act (m := fun _ => closure scope f.id) has (failsAt_closure scope f.id)

theorem blames_exprs (closed : ast.Closed) (blame : RulesBlame ast rules traced) (scope : ScopeId) :
    (es : List Expr) → (∀ e ∈ es, ast.Has (.expr e)) →
      Blames ast.Has (Evaluator.exprs rules scope es) (exprs traced scope es)
  | [], _ => blames_pure _
  | e :: es, has =>
    (blames_expr closed blame scope e (has e (.head _))).bind fun _ =>
      (blames_exprs closed blame scope es fun e member => has e (.tail _ member)).bind fun _ =>
        blames_pure _

end

mutual

theorem blames_stmt (closed : ast.Closed) (blame : RulesBlame ast rules traced) (scope : ScopeId) :
    (st : Stmt) → ast.Has (.stmt st) →
    Blames ast.Has (Evaluator.stmt rules scope st) (stmt traced scope st)
  | .expr _ e, has => blames_expr closed blame scope e (closed.parts _ has _ (.head _))
  | .declare node x e isConst, has =>
    (blames_expr closed blame scope e (closed.parts _ has _ (.head _))).bind fun v =>
      (blames_act has (failsAt_declare scope ⟨x, v, isConst⟩ node.span)).bind fun _ => blames_pure v
  | .assign node x e, has =>
    (blames_expr closed blame scope e (closed.parts _ has _ (.head _))).bind fun v =>
      (blames_act has (failsAt_assign scope x v node.span)).bind fun _ => blames_pure v
  | .function node x f, has =>
    (blames_act (m := fun _ => closure scope f.id) has (failsAt_closure scope f.id)).bind fun v =>
      (blames_act has (failsAt_declare scope ⟨x, v, false⟩ node.span)).bind fun _ => blames_pure v
  | .block _ b, has => by
    simp only [stmt, Evaluator.stmt, blame.reclaim]
    exact blames_inFrame fun child =>
      blames_block closed blame child b (closed.parts _ has _ (.head _))

theorem blames_stmts (closed : ast.Closed) (blame : RulesBlame ast rules traced) (scope : ScopeId)
    (last : Value) :
    (ss : List Stmt) → (∀ st ∈ ss, ast.Has (.stmt st)) →
      Blames ast.Has (Evaluator.stmts rules scope last ss) (stmts traced scope last ss)
  | [], _ => blames_pure last
  | st :: ss, has =>
    (blames_stmt closed blame scope st (has st (.head _))).bind fun v =>
      blames_stmts closed blame scope v ss fun st member => has st (.tail _ member)

theorem blames_block (closed : ast.Closed) (blame : RulesBlame ast rules traced) (scope : ScopeId) :
    (b : Block) → ast.Has (.block b) →
    Blames ast.Has (Evaluator.block rules scope b) (block traced scope b)
  | .mk _ ss, has =>
    blames_stmts closed blame scope .null ss fun _ member =>
      closed.parts _ has _ (List.mem_map_of_mem member)

end

theorem blames_keepItems {test : Value → Eval Value} {test' : Value → Traced Value}
    (tests : ∀ v, Blames ast.Has (test v) (test' v)) (items : List Value) :
    Blames ast.Has (Builtin.keepItems test items) (keepItems test' items) := by
  induction items with
  | nil => exact blames_pure []
  | cons v vs ih => exact (tests v).bind fun kept => ih.bind fun rest => blames_pure _

def EnterBlames (ast : Ast) (enter : Builtin.Enter) (traced : Enter) : Prop :=
  ∀ f env args p, ast.Has p → Blames ast.Has (enter f env args p.span) (traced f env args p)

theorem blames_filter {enter : Builtin.Enter} {traced : Enter}
    (enters : EnterBlames ast enter traced) (args : List Value) {p : Part} (has : ast.Has p) :
    Blames ast.Has (Builtin.filter ast.funcs enter args p.span)
      (filter ast.funcs traced args p) := by
  rcases args with _ | ⟨v, _ | ⟨u, _ | ⟨t, rest⟩⟩⟩
  case nil => exact blames_fail has _
  case cons.nil => cases v <;> exact blames_fail has _
  case cons.cons.cons =>
    cases v with
    | array items =>
      cases u with
      | function g => cases g <;> exact blames_fail has _
      | _ => exact blames_fail has _
    | _ => exact blames_fail has _
  case cons.cons.nil =>
    cases v with
    | array items =>
      cases u with
      | function g =>
        cases g with
        | builtin b =>
          refine (blames_keepItems (fun v => ?_) items).bind fun _ => blames_pure _
          exact blames_act has (Builtin.failsAt_perform [v] p.span b)
        | closure f env =>
          simp only [Builtin.filter, filter]
          cases ast.funcs[f]? with
          | none => exact blames_fail has _
          | some func =>
            dsimp only
            rcases func.params with _ | ⟨_, _ | _⟩
            · exact (blames_keepItems (fun _ => enters f env [] p has) items).bind fun _ =>
                blames_pure _
            · exact (blames_keepItems (fun v => enters f env [v] p has) items).bind fun _ =>
                blames_pure _
            · exact blames_fail has _
      | _ => exact blames_fail has _
    | _ => cases u <;> exact blames_fail has _

theorem blames_call {enter : Builtin.Enter} {traced : Enter} (enters : EnterBlames ast enter traced)
    (g : Callable) (args : List Value) (p : Part) (has : ast.Has p) :
    Blames ast.Has (Evaluator.call ast.funcs enter g args p.span)
      (call ast.funcs traced g args p) := by
  cases g with
  | closure f env => exact enters f env args p has
  | builtin b =>
    have performed := blames_act has (Builtin.failsAt_perform args p.span b)
    cases b with
    | arrayFilter => exact blames_filter enters args has
    | _ => exact performed

theorem blames_enter (closed : ast.Closed) (reclaim : Nat → Value → Scopes → Scopes) (depth : Nat) :
    EnterBlames ast (Evaluator.enter ast.funcs reclaim depth) (enter ast.funcs reclaim depth) := by
  -- One level less is left for the calls inside a call.
  induction depth with
  | zero =>
    intro f env args p has
    rw [Evaluator.enter, enter]
    cases ast.funcs[f]? with
    | none => exact blames_fail has _
    | some func =>
      dsimp only
      split <;> exact blames_fail has _
  | succ depth ih =>
    intro f env args p has
    rw [Evaluator.enter, enter]
    cases found : ast.funcs[f]? with
    | none => exact blames_fail has _
    | some func =>
      dsimp only
      split
      · exact blames_fail has _
      · have blame : RulesBlame ast
            ⟨Evaluator.call ast.funcs (Evaluator.enter ast.funcs reclaim depth), reclaim⟩
            ⟨call ast.funcs (enter ast.funcs reclaim depth), reclaim⟩ := ⟨blames_call ih, rfl⟩
        have node : ast.node? .func f = some (.func func) := congrArg (Option.map Part.func) found
        have body : ast.Has (.ofBody func.body) := closed.parts _ (closed.has node) _ (.head _)
        refine blames_inFrame fun frame =>
          (blames_act has (failsAt_bindParams frame p.span _ _)).bind fun _ => ?_
        generalize func.body = inner at body ⊢
        cases inner with
        | block b => exact blames_block closed blame frame b body
        | expr e => exact blames_expr closed blame frame e body

theorem rulesFor_blame (closed : ast.Closed) (reclaim : Nat → Value → Scopes → Scopes)
    (depth : Nat) :
    RulesBlame ast (Evaluator.rulesFor ast.funcs reclaim depth)
      (rulesFor ast.funcs reclaim depth) :=
  ⟨blames_call (blames_enter closed reclaim depth), rfl⟩

end Walk

end Traced

end ScriptKit
