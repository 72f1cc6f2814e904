import ScriptKit.Eval.Builtins
import ScriptKit.Eval.Operators

/-! Evaluating trees.

The evaluation of a tree follows the tree and leaves calls to `Rules.call`. A call enters the body
of a function, with one level less for the calls inside it, so both recursions end. -/

namespace ScriptKit

def Value.ofLiteral : Literal → Value
  | .integer n => .integer n
  | .text s => .text s
  | .boolean b => .boolean b
  | .null => .null

structure Rules where
  call : Callable → List Value → Span → Eval Value
  reclaim : Nat → Value → Scopes → Scopes

namespace Evaluator

/-- A variable of the chain of frames, or else a builtin. -/
def name (scope : ScopeId) (x : String) (span : Span) : Eval Value := do
  match (← Eval.scopes).resolve? scope x with
  | some v => return v
  | none =>
    match Builtin.ofName? x with
    | some b => return .function (.builtin b)
    | none => Eval.fail (.undefinedVariable x) span

mutual

def expr (rules : Rules) (scope : ScopeId) : Expr → Eval Value
  | .literal _ v => return .ofLiteral v
  | .name node x => name scope x node.span
  | .binary node op a b => do
    let x ← expr rules scope a
    let y ← expr rules scope b
    Eval.ofExcept node.span (Operators.binary op x y)
  | .unary node op a => do
    let x ← expr rules scope a
    Eval.ofExcept node.span (Operators.unary op x)
  | .call node f args => do
    let callee ← expr rules scope f
    let values ← exprs rules scope args
    match callee with
    | .function g => rules.call g values node.span
    | v => Eval.fail (.notCallable v.type) node.span
  | .array _ items => do
    return .array (← exprs rules scope items)
  | .index node a i => do
    let target ← expr rules scope a
    let key ← expr rules scope i
    Eval.ofExcept node.span (Operators.index target key)
  | .function _ f => Eval.closure scope f.id

def exprs (rules : Rules) (scope : ScopeId) : List Expr → Eval (List Value)
  | [] => return []
  | e :: es => do
    let v ← expr rules scope e
    let vs ← exprs rules scope es
    return v :: vs

def stmt (rules : Rules) (scope : ScopeId) : Stmt → Eval Value
  | .expr _ e => expr rules scope e
  | .declare node x e isConst => do
    let v ← expr rules scope e
    Eval.declare scope ⟨x, v, isConst⟩ node.span
    return v
  | .assign node x e => do
    let v ← expr rules scope e
    Eval.assign scope x v node.span
    return v
  | .function node x f => do
    let v ← Eval.closure scope f.id
    Eval.declare scope ⟨x, v, false⟩ node.span
    return v
  | .block _ b => Eval.inFrame rules.reclaim scope fun child => block rules child b

/-- Runs statements in order. The value is the last one's, or `last` if there are none. -/
def stmts (rules : Rules) (scope : ScopeId) (last : Value) : List Stmt → Eval Value
  | [] => return last
  | s :: ss => do
    let v ← stmt rules scope s
    stmts rules scope v ss

def block (rules : Rules) (scope : ScopeId) : Block → Eval Value
  | .mk _ ss => stmts rules scope .null ss

end

def bindParams (frame : ScopeId) (span : Span) : List String → List Value → Eval Unit
  | p :: ps, v :: vs => do
    Eval.declare frame ⟨p, v, false⟩ span
    bindParams frame span ps vs
  | _, _ => return

def call (funcs : Array Func) (enter : Builtin.Enter) :
    Callable → List Value → Span → Eval Value
  | .closure f env, args, span => enter f env args span
  | .builtin .arrayFilter, args, span => Builtin.filter funcs enter args span
  | .builtin b, args, span => b.perform args span

/-- Calls a closure: its body runs in a new frame under the one it was made in. `depth` is how many
calls may still stand inside one another. -/
def enter (funcs : Array Func) (reclaim : Nat → Value → Scopes → Scopes) (depth : Nat) :
    Builtin.Enter := fun f env args span =>
  match funcs[f]? with
  | none => Eval.fail (.missingFunction f) span
  | some func =>
    if args.length ≠ func.params.length then
      Eval.fail (.arityMismatch func.params.length args.length) span
    else
      match depth with
      | 0 => Eval.fail .stackOverflow span
      | depth + 1 =>
        let rules : Rules := ⟨call funcs (enter funcs reclaim depth), reclaim⟩
        Eval.inFrame reclaim env fun frame => do
          bindParams frame span func.params args
          match func.body with
          | .block b => block rules frame b
          | .expr e => expr rules frame e

def rulesFor (funcs : Array Func) (reclaim : Nat → Value → Scopes → Scopes) (depth : Nat) : Rules :=
  ⟨call funcs (enter funcs reclaim depth), reclaim⟩

end Evaluator

end ScriptKit
