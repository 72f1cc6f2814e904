import ScriptKit.Proofs.Eval.Builtins
import ScriptKit.Proofs.Eval.Stepwise
import ScriptKit.Proofs.Scope.Relinking
import ScriptKit.Proofs.Tree.Images

/-! Two catalogues, one the image of the other under a relocation, and runs in them.

The runs go step by step together. Only a closure that is printed tells them apart, since its text
has the number of its function. -/

namespace ScriptKit

def Sink.MayRefuse (sink : Sink) (message : String) : Prop :=
  ∃ sizes size, sink.refusal? sizes size = some message

theorem Sink.mayRefuse_of_write {sink : Sink} {text message : String}
    (refused : sink.write text = .error message) : sink.MayRefuse message := by
  unfold Sink.write at refused
  split at refused
  · cases refused
  · split at refused
    · rename_i answer
      cases refused
      exact ⟨_, _, answer⟩
    · cases refused

/-- What two outputs have in common, however much is written to them. -/
structure Bond where
  /-- The same texts are written to both. -/
  same : Prop
  /-- Neither refuses what the other takes. -/
  strict : Prop
  holds : Sink → Sink → Prop
  /-- The errors of the writers. -/
  messages : String → Prop
  written : ∀ {a b a' b' : Sink} {text text' : String}, holds a b → (same → text' = text) →
    a.write text = .ok a' → b.write text' = .ok b' → holds a' b'
  known : ∀ {a b : Sink} {message : String}, holds a b → a.MayRefuse message ∨ b.MayRefuse message →
      messages message
  refused : strict → ∀ {a b : Sink} {text text' : String}, holds a b → (same → text' = text) →
    ∀ message, a.write text = .error message ↔ b.write text' = .error message

structure World.Twin (f : FuncId → FuncId) (bond : Bond) (w w' : World) : Prop where
  scopes : w'.scopes = w.scopes.relink f
  out : bond.holds w.out w'.out
  input : w'.input = w.input

def RuntimeError.IsRefusal (e : RuntimeError) (messages : String → Prop) : Prop :=
  ∃ message, messages message ∧ e.kind = .io message

/-- The second result belongs to the first. Values of the one become those of the other by `g`. -/
inductive Eval.Alongside {α : Type} (r : Relocation) (bond : Bond) (g : α → α) :
    EStateM.Result RuntimeError World α → EStateM.Result RuntimeError World α → Prop where
  | ok {a : α} {w w' : World} : w.Twin r.func bond w' → Alongside r bond g (.ok a w) (.ok (g a) w')
  | error {e : RuntimeError} {w w' : World} : w.Twin r.func bond w' →
      Alongside r bond g (.error e w) (.error (e.move r) w')
  -- The runs part where only one of them may write.
  | left {e : RuntimeError} {w : World} {result : EStateM.Result RuntimeError World α} :
      ¬ bond.strict → e.IsRefusal bond.messages → Alongside r bond g (.error e w) result
  | right {e : RuntimeError} {w : World} {result : EStateM.Result RuntimeError World α} :
      ¬ bond.strict → e.IsRefusal bond.messages → Alongside r bond g result (.error e w)

namespace Eval

def Twins {α : Type} (r : Relocation) (bond : Bond) (g : α → α) (m m' : Eval α) : Prop :=
  ∀ w w', w.Twin r.func bond w' → Alongside r bond g (m w) (m' w')

variable {α β : Type} {r : Relocation} {bond : Bond} {g : α → α} {h : β → β}

theorem Twins.bind {m m' : Eval α} {k k' : α → Eval β} (first : Twins r bond g m m')
    (rest : ∀ a, Twins r bond h (k a) (k' (g a))) : Twins r bond h (m >>= k) (m' >>= k') := by
  intro w w' twin
  have together := first w w' twin
  simp only [Bind.bind, EStateM.bind]
  generalize m w = result at together
  generalize m' w' = result' at together
  cases together with
  | ok twin => exact rest _ _ _ twin
  | error twin => exact .error twin
  | left loose refused => exact .left loose refused
  | right loose refused => exact .right loose refused

theorem twins_pure (a : α) : Twins r bond g (pure a) (pure (g a)) :=
  fun _ _ twin => .ok twin

theorem twins_fail (kind : RuntimeErrorKind) (span : Span) :
    Twins r bond g (fail kind span) (fail kind (span.move r)) :=
  fun _ _ twin => .error twin

theorem twins_write {text text' : String} (texts : bond.same → text' = text) (span : Span) :
    Twins r bond id (write text span) (write text' (span.move r)) := by
  intro w w' twin
  simp only [write, run_get]
  cases here : w.out.write text with
  | error message =>
    have possible := bond.known twin.out (.inl (Sink.mayRefuse_of_write here))
    by_cases there : w'.out.write text' = .error message
    · rw [there]
      exact .error twin
    · exact .left (fun strict => there ((bond.refused strict twin.out texts message).mp here))
        ⟨message, possible, rfl⟩
  | ok out =>
    cases there : w'.out.write text' with
    | error message =>
      have possible := bond.known twin.out (.inr (Sink.mayRefuse_of_write there))
      refine .right (fun strict => ?_) ⟨message, possible, rfl⟩
      have refused := (bond.refused strict twin.out texts message).mpr there
      rw [here] at refused
      cases refused
    | ok out' => exact .ok ⟨twin.scopes, bond.written twin.out texts here there, twin.input⟩

theorem twins_readLine (span : Span) :
    Twins r bond id (readLine span) (readLine (span.move r)) := by
  intro w w' twin
  simp only [readLine, run_get, twin.input]
  split
  · exact .ok twin
  · have taken : World.Twin r.func bond { w with input := (takeLine w.input).2 }
        { w' with input := (takeLine w.input).2 } := ⟨twin.scopes, twin.out, rfl⟩
    cases decodeText? (dropLineEnd (takeLine w.input).1) with
    | some text => exact .ok taken
    | none => exact .error taken

end Eval

namespace Builtin
open Eval

variable {r : Relocation} {bond : Bond}

theorem twins_writeAll {args : List Value}
    (texts : bond.same → ∀ v ∈ args, (v.relink r.func).toText = v.toText) (ending : String)
    (span : Span) :
    Twins r bond (Value.relink r.func) (writeAll args ending span)
      (writeAll (args.map (Value.relink r.func)) ending (span.move r)) := by
  have shown : bond.same →
      (args.map (Value.relink r.func)).map Value.toText = args.map Value.toText := by
    intro holds
    rw [List.map_map]
    exact List.map_congr_left (texts holds)
  refine (twins_write (fun holds => ?_) span).bind fun _ => twins_pure Value.null
  rw [shown holds]

theorem twins_takeInput (span : Span) :
    Twins r bond (Value.relink r.func) (takeInput span) (takeInput (span.move r)) := by
  refine (twins_readLine span).bind fun line => ?_
  cases line with
  | some text => exact twins_pure (Value.text text)
  | none => exact twins_pure Value.null

theorem twins_readInput (args : List Value) (span : Span) :
    Twins r bond (Value.relink r.func) (readInput args span)
      (readInput (args.map (Value.relink r.func)) (span.move r)) := by
  match args with
  | [] => exact twins_takeInput span
  | [v] =>
    cases v with
    | text prompt => exact (twins_write (fun _ => rfl) span).bind fun _ => twins_takeInput span
    | _ => exact twins_fail _ span
  | v :: w :: rest =>
    simp only [List.map_cons, readInput_many, List.length_map]
    exact twins_fail _ span

theorem twins_leave (args : List Value) (span : Span) :
    Twins r bond (Value.relink r.func) (leave args span)
      (leave (args.map (Value.relink r.func)) (span.move r)) := by
  match args with
  | [] => exact twins_fail _ span
  | [v] =>
    cases v with
    | integer n =>
      simp only [List.map_cons, List.map_nil, Value.relink, Value.recast, leave]
      split
      · exact twins_fail _ span
      · exact twins_fail _ span
    | _ => exact twins_fail _ span
  | v :: w :: rest =>
    simp only [List.map_cons, leave_many, List.length_map]
    exact twins_fail _ span

theorem twins_perform (b : Builtin) (args : List Value) (span : Span)
    (texts : bond.same → b = .print ∨ b = .println →
      ∀ v ∈ args, (v.relink r.func).toText = v.toText) :
    Twins r bond (Value.relink r.func) (b.perform args span)
      (b.perform (args.map (Value.relink r.func)) (span.move r)) := by
  cases b with
  | println => exact twins_writeAll (fun holds => texts holds (.inr rfl)) "\n" span
  | print => exact twins_writeAll (fun holds => texts holds (.inl rfl)) "" span
  | array | vector =>
    simp only [perform, ← Value.relink_array]
    exact twins_pure _
  | arrayFilter =>
    simp only [perform, wrongCount, List.length_map]
    exact twins_fail _ span
  | read => exact twins_readInput args span
  | exit => exact twins_leave args span

end Builtin

namespace Stepwise

section Moving

variable (r : Relocation)

def Purpose.move : Purpose → Purpose
  | .read span => .read (span.move r)
  | .write v span => .write (v.relink r.func) (span.move r)

def Use.move : Use → Use
  | .array => .array
  | .call callee span => .call (callee.relink r.func) (span.move r)

def Control.move : Control → Control
  | .expr scope id => .expr scope (r.number .expr id)
  | .stmt scope id => .stmt scope (r.number .stmt id)
  | .block scope id => .block scope (r.number .block id)
  | .nest parent id => .nest parent (r.number .block id)
  | .seek frame x purpose => .seek frame x (purpose.move r)
  | .capture scope func => .capture scope (r.func func)
  | .declare scope b span => .declare scope (b.relink r.func) (span.move r)
  | .call g args span => .call (g.relink r.func) (args.map (Value.relink r.func)) (span.move r)
  | .bind frame func params args span =>
    .bind frame (r.func func) params (args.map (Value.relink r.func)) (span.move r)
  | .value v => .value (v.relink r.func)
  | .error e => .error (e.move r)

def Waiting.move : Waiting → Waiting
  | .rightOperand scope op rhs span => .rightOperand scope op (r.number .expr rhs) (span.move r)
  | .binary op lhs span => .binary op (lhs.relink r.func) (span.move r)
  | .unary op span => .unary op (span.move r)
  | .callee scope args span => .callee scope (args.map (r.number .expr)) (span.move r)
  | .gather scope use done rest =>
    .gather scope (use.move r) (done.map (Value.relink r.func)) (rest.map (r.number .expr))
  | .key scope i span => .key scope (r.number .expr i) (span.move r)
  | .index target span => .index (target.relink r.func) (span.move r)
  | .declare scope x isConst span => .declare scope x isConst (span.move r)
  | .assign scope x span => .assign scope x (span.move r)
  | .stmts scope rest => .stmts scope (rest.map (r.number .stmt))
  | .filter predicate takesItem span item kept rest =>
    .filter (predicate.relink r.func) takesItem (span.move r) (item.relink r.func)
      (kept.map (Value.relink r.func)) (rest.map (Value.relink r.func))
  | .frame mark isCall => .frame mark isCall

def Plan.move (plan : Plan) : Plan :=
  (plan.1.move r, plan.2.map (Waiting.move r))

end Moving

section Plans

variable {r : Relocation}

theorem ofExcept_move (span : Span) (answer : Except RuntimeErrorKind Value) :
    ofExcept (span.move r) (answer.map (Value.relink r.func)) = (ofExcept span answer).move r := by
  cases answer <;> rfl

theorem finish_move (values : List Value) (use : Use) :
    (use.move r).finish (values.map (Value.relink r.func)) = (use.finish values).move r := by
  cases use with
  | array => simp only [Use.move, Use.finish, Control.move, Value.relink_array]
  | call callee span => cases callee <;> rfl

theorem gather_move (scope : ScopeId) (use : Use) (done : List Value) (es : List Nat) :
    gather scope (use.move r) (done.map (Value.relink r.func)) (es.map (r.number .expr)) =
      (gather scope use done es).move r := by
  cases es with
  | nil => exact congrArg (·, []) (finish_move done use)
  | cons e es => rfl

theorem filterNext_move (predicate : Callable) (takesItem : Bool) (span : Span)
    (kept items : List Value) :
    filterNext (predicate.relink r.func) takesItem (span.move r) (kept.map (Value.relink r.func))
        (items.map (Value.relink r.func)) =
      (filterNext predicate takesItem span kept items).move r := by
  cases items with
  | nil =>
    simp only [List.map_nil, filterNext, Plan.move, Control.move, Value.relink_array]
  | cons v vs => cases takesItem <;> rfl

theorem planExpr_move (scope : ScopeId) (e : Expr) :
    planExpr scope (e.move r) = (planExpr scope e).move r := by
  have numbers : ∀ es : List Expr, (es.map (Expr.move r)).map (·.id) =
      (es.map (·.id)).map (r.number .expr) := by
    intro es
    simp only [List.map_map, Function.comp_def, Expr.id_move]
  cases e with
  | literal node v => cases v <;> rfl
  | name node x => rfl
  | binary node op a b | index node a b =>
    simp only [Expr.move, planExpr, Expr.id_move]
    rfl
  | unary node op a =>
    simp only [Expr.move, planExpr, Expr.id_move]
    rfl
  | call node f args =>
    simp only [Expr.move, planExpr, Expr.id_move, Expr.moveAll_eq_map, numbers]
    rfl
  | array node items =>
    simp only [Expr.move, planExpr, Expr.moveAll_eq_map, numbers]
    exact gather_move scope .array [] _
  | function node f =>
    simp only [Expr.move, planExpr, Func.id_move]
    rfl

theorem planStmt_move (scope : ScopeId) (s : Stmt) :
    planStmt scope (s.move r) = (planStmt scope s).move r := by
  cases s <;> simp only [Stmt.move, planStmt, Expr.id_move, Func.id_move, Block.id_move] <;> rfl

theorem planBlock_move (scope : ScopeId) (b : Block) :
    planBlock scope (b.move r) = (planBlock scope b).move r := by
  have numbers : (b.stmts.map (Stmt.move r)).map (·.id) =
      (b.stmts.map (·.id)).map (r.number .stmt) := by
    simp only [List.map_map, Function.comp_def, Stmt.id_move]
  simp only [planBlock, Block.stmts_move, numbers]
  rfl

theorem planBody_move (frame : ScopeId) (body : Body) :
    planBody frame (body.move r) = (planBody frame body).move r := by
  cases body <;> simp only [Body.move, planBody, Expr.id_move, Block.id_move] <;> rfl

theorem binary_relink (injective : Function.Injective r.func) (op : BinaryOp) (a b : Value) :
    Operators.binary op (a.relink r.func) (b.relink r.func) =
      (Operators.binary op a b).map (Value.relink r.func) := by
  have same : Operators.binary op (a.relink r.func) (b.relink r.func) =
      Operators.binary op a b := by
    apply Operators.binary_recast
    intro c _ d _ equal
    obtain ⟨func, env⟩ := Prod.mk.inj equal
    exact Prod.ext (injective func) env
  rw [same]
  cases done : Operators.binary op a b with
  | error kind => rfl
  | ok v =>
    exact congrArg Except.ok (Value.recast_of_no_closures (Operators.binary_no_closures done)).symm

theorem unary_relink (op : UnaryOp) (a : Value) :
    Operators.unary op (a.relink r.func) = (Operators.unary op a).map (Value.relink r.func) := by
  rw [Value.relink, Operators.unary_recast]
  cases done : Operators.unary op a with
  | error kind => rfl
  | ok v =>
    exact congrArg Except.ok (Value.recast_of_no_closures (Operators.unary_no_closures done)).symm

theorem resume_move (injective : Function.Injective r.func) (v : Value) (waiting : Waiting) :
    resume (v.relink r.func) (waiting.move r) = (resume v waiting).move r := by
  cases waiting with
  | binary op lhs span =>
    simp only [Waiting.move, resume, binary_relink injective, ofExcept_move]
    rfl
  | unary op span =>
    simp only [Waiting.move, resume, unary_relink, ofExcept_move]
    rfl
  | index target span =>
    have same : Operators.index (target.relink r.func) (v.relink r.func) =
        (Operators.index target v).map (Value.relink r.func) := Operators.index_recast target v
    simp only [Waiting.move, resume, same, ofExcept_move]
    rfl
  | callee scope args span => exact gather_move scope (.call v span) [] args
  | gather scope use done rest =>
    have more : done.map (Value.relink r.func) ++ [v.relink r.func] =
        (done ++ [v]).map (Value.relink r.func) := by
      simp only [List.map_append, List.map_cons, List.map_nil]
    simp only [Waiting.move, resume, more, gather_move]
  | filter predicate takesItem span item kept rest =>
    have truthy : (v.relink r.func).isTruthy = v.isTruthy := Value.isTruthy_recast _ v
    have more : (if v.isTruthy then kept.map (Value.relink r.func) ++ [item.relink r.func]
        else kept.map (Value.relink r.func)) =
        (if v.isTruthy then kept ++ [item] else kept).map (Value.relink r.func) := by
      split
      · simp only [List.map_append, List.map_cons, List.map_nil]
      · rfl
    simp only [Waiting.move, resume, truthy, more, filterNext_move]
  | stmts scope rest => cases rest <;> rfl
  | _ => rfl

end Plans

def Control.PrintsClosure : Control → Prop
  | .call (.builtin .print) args _ | .call (.builtin .println) args _ => ∃ v ∈ args, v.closures ≠ []
  | _ => False

structure Config.Twin (r : Relocation) (bond : Bond) (c c' : Config) : Prop where
  control : c'.control = c.control.move r
  stack : c'.stack = c.stack.map (Waiting.move r)
  depth : c'.depth = c.depth
  world : c.world.Twin r.func bond c'.world

/-- Nothing is said once the first run has asked for something that does not exist. -/
def Step.Twin (r : Relocation) (bond : Bond) : Step → Step → Prop
  | .next c, .next c' => c.Twin r bond c'
  | .ended answer w, .ended answer' w' =>
    answer' = (answer.map (Value.relink r.func)).mapError (RuntimeError.move r) ∧
    w.Twin r.func bond w'
  | .dangling, _ => True
  | _, _ => False

def Step.Refused (messages : String → Prop) : Step → Prop
  | .next c => ∃ e, c.control = .error e ∧ e.IsRefusal messages
  | .ended answer _ => ∃ e, answer = .error e ∧ e.IsRefusal messages
  | .dangling => False

/-- The steps belong together, or an output was full in one of the runs only. -/
def Step.Together (r : Relocation) (bond : Bond) (x x' : Step) : Prop :=
  x.Twin r bond x' ∨ ¬ bond.strict ∧ (x.Refused bond.messages ∨ x'.Refused bond.messages)

namespace Config.Twin

variable {r : Relocation} {bond : Bond} {c c' : Config} (twin : c.Twin r bond c')
include twin

theorem follow (plan : Plan) : Step.Twin r bond (c.follow plan) (c'.follow (plan.move r)) where
  control := rfl
  stack := by simp only [Plan.move, twin.stack, List.map_append]
  depth := twin.depth
  world := twin.world

theorem follow? {plan plan' : Option Plan}
    (planned : ∀ {p}, plan = some p → plan' = some (p.move r)) :
    Step.Twin r bond (c.follow? plan) (c'.follow? plan') := by
  cases plan with
  | none => trivial
  | some p =>
    rw [planned rfl]
    exact twin.follow p

/-- Both runs look up a node under its number, and plan what to do with it. -/
theorem followNode {α : Type} {node node' : Option α} {move : α → α} {plan : α → Plan}
    (moved : ∀ {a}, node = some a → node' = some (move a))
    (planned : ∀ a, plan (move a) = (plan a).move r) :
    Step.Twin r bond (c.follow? (node.map plan)) (c'.follow? (node'.map plan)) := by
  apply twin.follow?
  intro p found
  obtain ⟨a, here, rfl⟩ := Option.map_eq_some_iff.mp found
  rw [moved here, Option.map_some, planned]

theorem followIn (s : Scopes) (control : Control) :
    Step.Twin r bond (c.followIn s control) (c'.followIn (s.relink r.func) (control.move r)) where
  control := rfl
  stack := twin.stack
  depth := twin.depth
  world := ⟨rfl, twin.world.out, twin.world.input⟩

theorem fail (kind : RuntimeErrorKind) (span : Span) : Step.Twin r bond
    (c.follow (fail kind span, [])) (c'.follow (Stepwise.fail kind (span.move r), [])) :=
  twin.follow (Stepwise.fail kind span, [])

theorem openFrame (parent : ScopeId) (isCall : Bool) {control control' : ScopeId → Control}
    (moved : ∀ i, control' i = (control i).move r) :
    Step.Twin r bond (c.openFrame parent isCall control) (c'.openFrame parent isCall control') := by
  have size : c'.world.scopes.size = c.world.scopes.size := by
    rw [twin.world.scopes, Scopes.size_relink]
  refine ⟨?_, ?_, ?_, ?_, twin.world.out, twin.world.input⟩
  · simp only [size, moved]
  · simp only [size, twin.stack, List.map_cons, Waiting.move]
  · simp only [twin.depth]
  · simp only [twin.world.scopes, Scopes.push_relink]

theorem closeFrame (mark : Nat) (isCall : Bool) (result : Value) (rest : List Waiting) :
    Step.Twin r bond (c.closeFrame mark isCall result rest)
      (c'.closeFrame mark isCall (result.relink r.func) (rest.map (Waiting.move r))) := by
  refine ⟨twin.control, rfl, ?_, ?_, twin.world.out, twin.world.input⟩
  · simp only [twin.depth]
  · simp only [twin.world.scopes, Scopes.release_relink]

theorem frames (i : ScopeId) :
    c'.world.scopes.frames[i]? = c.world.scopes.frames[i]?.map (Frame.relink r.func) := by
  rw [twin.world.scopes, Scopes.getElem?_relink]

theorem update (i : ScopeId) (frame : Frame) (control : Control) : Step.Twin r bond
    (c.followIn ⟨c.world.scopes.frames.setIfInBounds i frame⟩ control)
    (c'.followIn ⟨c'.world.scopes.frames.setIfInBounds i (frame.relink r.func)⟩
      (control.move r)) := by
  rw [twin.world.scopes, Scopes.update_relink]
  exact twin.followIn _ control

theorem seek (i : ScopeId) (x : String) (purpose : Purpose) :
    Step.Twin r bond (c.seek i x purpose) (c'.seek i x (purpose.move r)) := by
  simp only [Config.seek, twin.frames]
  cases c.world.scopes.frames[i]? with
  | none => trivial
  | some frame =>
    have looked : (frame.relink r.func).table.get? x =
        (frame.table.get? x).map (Binding.relink r.func) :=
      SymbolTable.get?_mapValues _ frame.table x
    have parent : (frame.relink r.func).parent = frame.parent := rfl
    simp only [Option.map_some, looked, parent]
    cases frame.table.get? x with
    | some b =>
      cases purpose with
      | read span => exact twin.follow (.value b.value, [])
      | write v span =>
        have constant : (b.relink r.func).isConst = b.isConst := rfl
        have table : (frame.relink r.func).table.set x (v.relink r.func) =
            (frame.table.set x v).mapValues (Value.relink r.func) :=
          SymbolTable.set_mapValues _ frame.table x v
        simp only [Option.map_some, Purpose.move, constant, table]
        split
        · exact twin.fail _ span
        · exact twin.update i { frame with table := frame.table.set x v } (.value v)
    | none =>
      cases frame.parent with
      | some above => exact twin.follow (.seek above x purpose, [])
      | none =>
        cases purpose with
        | read span =>
          simp only [Option.map_none, Purpose.move]
          cases Builtin.ofName? x with
          | some b => exact twin.follow (.value (.function (.builtin b)), [])
          | none => exact twin.fail _ span
        | write v span => exact twin.fail _ span

theorem declare (scope : ScopeId) (b : Binding) (span : Span) (control : Control) :
    Step.Twin r bond (c.declare scope b span control)
      (c'.declare scope (b.relink r.func) (span.move r) (control.move r)) := by
  simp only [Config.declare, twin.frames]
  cases c.world.scopes.frames[scope]? with
  | none => trivial
  | some frame =>
    have inserted : (frame.relink r.func).table.insert? (b.relink r.func) =
        (frame.table.insert? b).map (SymbolTable.mapValues (Value.relink r.func)) :=
      SymbolTable.insert?_mapValues _ frame.table b
    simp only [Option.map_some, inserted]
    cases frame.table.insert? b with
    | none => exact twin.fail _ span
    | some table => exact twin.update scope { frame with table } control

theorem capture (scope : ScopeId) (func : FuncId) :
    Step.Twin r bond (c.capture scope func) (c'.capture scope (r.func func)) := by
  simp only [Config.capture, twin.frames]
  cases c.world.scopes.frames[scope]? with
  | none => trivial
  | some frame =>
    simp only [Option.map_some, twin.world.scopes, Scopes.capture_relink]
    exact twin.followIn _ (.value (.function (.closure func scope)))

theorem perform (b : Builtin) (args : List Value) (span : Span)
    (texts : bond.same → b = .print ∨ b = .println →
      ∀ v ∈ args, (v.relink r.func).toText = v.toText) :
    Step.Together r bond (c.perform b args span)
      (c'.perform b (args.map (Value.relink r.func)) (span.move r)) := by
  have together := Builtin.twins_perform b args span texts _ _ twin.world
  unfold Config.perform
  generalize b.perform args span c.world = result at together
  generalize b.perform (args.map (Value.relink r.func)) (span.move r) c'.world = result' at together
  cases together with
  | ok worlds => exact .inl ⟨rfl, twin.stack, twin.depth, worlds⟩
  | error worlds => exact .inl ⟨rfl, twin.stack, twin.depth, worlds⟩
  | left loose refused => exact .inr ⟨loose, .inl ⟨_, rfl, refused⟩⟩
  | right loose refused => exact .inr ⟨loose, .inr ⟨_, rfl, refused⟩⟩

end Config.Twin

section Lockstep

variable {r : Relocation} {bond : Bond} {ast ast' : Ast} {limit : Nat} {c c' : Config}

theorem arity?_move (moves : ast.Moves r ast') {g : Callable} {n : Nat}
    (known : arity? ast.funcs g = some n) :
    arity? ast'.funcs (g.relink r.func) = some n := by
  cases g with
  | builtin b => exact known
  | closure f env =>
    obtain ⟨func, found, rfl⟩ := Option.map_eq_some_iff.mp known
    refine Option.map_eq_some_iff.mpr ⟨func.move r, moves.func found, ?_⟩
    rw [Func.params_move]

theorem planFilter_count (funcs : Array Func) (span : Span) {args : List Value}
    (other : args.length ≠ 2) :
    planFilter funcs span args =
      some (fail (.builtinArity .arrayFilter "2" args.length) span, []) := by
  unfold planFilter
  split
  · exact absurd rfl other
  · exact absurd rfl other
  · rfl

theorem planFilter_move (moves : ast.Moves r ast') {span : Span} {args : List Value} {plan : Plan}
    (planned : planFilter ast.funcs span args = some plan) :
    planFilter ast'.funcs (span.move r) (args.map (Value.relink r.func)) = some (plan.move r) := by
  by_cases two : args.length = 2
  · match args, two with
    | [v, w], _ =>
      by_cases both : ∃ items g, v = .array items ∧ w = .function g
      · obtain ⟨items, g, rfl, rfl⟩ := both
        obtain ⟨n, known, rfl⟩ := Option.map_eq_some_iff.mp planned
        simp only [List.map_cons, List.map_nil, Value.relink_array, Value.relink_function,
          planFilter, arity?_move moves known, Option.map_some]
        split
        · rfl
        · rw [← filterNext_move]
          rfl
      · cases v <;> cases w <;> first | (cases planned; rfl) | exact (both ⟨_, _, rfl, rfl⟩).elim
  · rw [planFilter_count _ _ two, Option.some.injEq] at planned
    subst planned
    rw [planFilter_count _ _ (by rwa [List.length_map]), List.length_map]
    rfl

theorem Config.Twin.call (moves : ast.Moves r ast') (twin : c.Twin r bond c') (args : List Value)
    (span : Span) (g : Callable)
    (quiet : bond.same → (∀ i, r.func i = i) ∨ ¬ (Control.call g args span).PrintsClosure) :
    Step.Together r bond (c.call ast.funcs limit args span g)
      (c'.call ast'.funcs limit (args.map (Value.relink r.func)) (span.move r)
        (g.relink r.func)) := by
  cases g with
  | closure f env =>
    left
    simp only [Callable.relink, Callable.recast, Config.call]
    cases found : ast.funcs[f]? with
    | none => trivial
    | some func =>
      simp only [moves.func found, Func.params_move, List.length_map, twin.depth]
      split
      · exact twin.fail _ span
      · split
        · exact twin.fail _ span
        · exact twin.openFrame env true fun _ => rfl
  | builtin b =>
    by_cases filters : b = .arrayFilter
    · subst filters
      left
      exact twin.follow? (planFilter_move moves)
    · have texts : bond.same → b = .print ∨ b = .println →
          ∀ v ∈ args, (v.relink r.func).toText = v.toText := by
        intro same prints v member
        apply Value.toText_recast
        intro closure inside
        rcases quiet same with kept | silent
        · exact kept closure.1
        · have printed : (Control.call (.builtin b) args span).PrintsClosure := by
            rcases prints with rfl | rfl <;> exact ⟨v, member, List.ne_nil_of_mem inside⟩
          exact absurd printed silent
      have performed := twin.perform b args span texts
      cases b with
      | arrayFilter => exact absurd rfl filters
      | _ => exact performed

theorem Config.Twin.body (moves : ast.Moves r ast') (twin : c.Twin r bond c') (frame : ScopeId)
    (f : FuncId) :
    Step.Twin r bond (c.body ast.funcs frame f) (c'.body ast'.funcs frame (r.func f)) := by
  apply twin.followNode moves.func
  intro func
  rw [Func.body_move, planBody_move]

theorem Config.Twin.bind (moves : ast.Moves r ast') (twin : c.Twin r bond c') {frame : ScopeId}
    {f : FuncId} {params : List String} {args : List Value} {span : Span}
    (doing : c.control = .bind frame f params args span) :
    Step.Twin r bond (step ast limit c) (step ast' limit c') := by
  unfold step
  rw [twin.control, doing]
  cases params with
  | nil => exact twin.body moves frame f
  | cons p ps =>
    cases args with
    | nil => exact twin.body moves frame f
    | cons v vs => exact twin.declare frame ⟨p, v, false⟩ span (.bind frame f ps vs span)

theorem Config.Twin.value (injective : Function.Injective r.func) (twin : c.Twin r bond c')
    {v : Value} (doing : c.control = .value v) :
    Step.Twin r bond (step ast limit c) (step ast' limit c') := by
  unfold step
  rw [twin.control, twin.stack, doing]
  cases c.stack with
  | nil => exact ⟨rfl, twin.world⟩
  | cons waiting rest =>
    have popped : Config.Twin r bond { c with stack := rest }
        { c' with stack := rest.map (Waiting.move r) } :=
      ⟨twin.control, rfl, twin.depth, twin.world⟩
    have resumed := popped.follow (resume v waiting)
    rw [← resume_move injective] at resumed
    cases waiting with
    | frame mark isCall => exact twin.closeFrame mark isCall v rest
    | _ => exact resumed

theorem Config.Twin.error (twin : c.Twin r bond c') {e : RuntimeError}
    (doing : c.control = .error e) :
    Step.Twin r bond (step ast limit c) (step ast' limit c') := by
  unfold step
  rw [twin.control, twin.stack, doing]
  cases c.stack with
  | nil => exact ⟨rfl, twin.world⟩
  | cons waiting rest =>
    have popped : Config.Twin r bond ⟨.error e, rest, c.depth, c.world⟩
        ⟨.error (e.move r), rest.map (Waiting.move r), c'.depth, c'.world⟩ :=
      ⟨rfl, rfl, twin.depth, twin.world⟩
    cases waiting with
    | frame mark isCall => exact twin.closeFrame mark isCall .null rest
    | _ => exact popped

theorem step_together (moves : ast.Moves r ast') (injective : Function.Injective r.func)
    (twin : c.Twin r bond c')
    (quiet : bond.same → (∀ i, r.func i = i) ∨ ¬ c.control.PrintsClosure) :
    Step.Together r bond (step ast limit c) (step ast' limit c') := by
  cases doing : c.control
  case value v => exact .inl (twin.value injective doing)
  case error e => exact .inl (twin.error doing)
  case bind frame f params args span => exact .inl (twin.bind moves doing)
  all_goals
    unfold step
    rw [twin.control, doing]
  case call g args span =>
    rw [doing] at quiet
    exact twin.call moves args span g quiet
  case expr scope id => exact .inl (twin.followNode moves.expr (planExpr_move scope))
  case stmt scope id => exact .inl (twin.followNode moves.stmt (planStmt_move scope))
  case block scope id => exact .inl (twin.followNode moves.block (planBlock_move scope))
  case nest parent id => exact .inl (twin.openFrame parent false fun _ => rfl)
  case seek frame x purpose => exact .inl (twin.seek frame x purpose)
  case capture scope func => exact .inl (twin.capture scope func)
  case declare scope b span => exact .inl (twin.declare scope b span (.value b.value))

theorem step_refused {messages : String → Prop} (c : Config)
    (refused : (Step.next c).Refused messages) :
    (step ast limit c).Refused messages := by
  obtain ⟨e, doing, refusal⟩ := refused
  unfold step
  rw [doing]
  cases c.stack with
  | nil => exact ⟨e, rfl, refusal⟩
  | cons waiting rest =>
    cases waiting with
    | frame mark isCall => exact ⟨e, doing, refusal⟩
    | _ => exact ⟨e, rfl, refusal⟩

theorem run_refused {messages : String → Prop} {c : Config}
    (refused : (step ast limit c).Refused messages) (n : Nat) :
    (run ast limit (n + 1) c).Refused messages := by
  unfold run
  generalize step ast limit c = taken at refused ⊢
  cases taken with
  | next d => exact run_preserves step_refused n refused
  | ended answer w => exact refused
  | dangling => exact refused

/-- Two runs that begin together go on together, until one of them may not write. -/
theorem run_together (moves : ast.Moves r ast') (injective : Function.Injective r.func) (n : Nat)
    (twin : c.Twin r bond c')
    (quiet : bond.same → (∀ i, r.func i = i) ∨
      ∀ m d, run ast limit m c = .next d → ¬ d.control.PrintsClosure) :
    Step.Together r bond (run ast limit n c) (run ast' limit n c') := by
  induction n generalizing c c' with
  | zero => exact .inl twin
  | succ n ih =>
    have taken : Step.Together r bond (step ast limit c) (step ast' limit c') :=
      step_together moves injective twin fun same => (quiet same).imp id fun never => never 0 c rfl
    rcases taken with together | ⟨loose, refused | refused⟩
    · unfold run
      generalize after' : step ast' limit c' = next' at together ⊢
      cases after : step ast limit c with
      | dangling => exact .inl trivial
      | ended answer w =>
        rw [after] at together
        cases next' with
        | ended answer' w' => exact .inl together
        | next d' | dangling => exact together.elim
      | next d =>
        rw [after] at together
        cases next' with
        | ended answer' w' | dangling => exact together.elim
        | next d' =>
          apply ih together
          intro same
          refine (quiet same).imp id fun never m e reached => never (m + 1) e ?_
          simp only [run, after, reached]
    · exact .inr ⟨loose, .inl (run_refused refused n)⟩
    · exact .inr ⟨loose, .inr (run_refused refused n)⟩

theorem run_ended_more {n : Nat} {answer : Except RuntimeError Value} {w : World}
    (ended : run ast limit n c = .ended answer w) (k : Nat) :
    run ast limit (n + k) c = .ended answer w := by
  induction n generalizing c with
  | zero => cases ended
  | succ n ih =>
    rw [Nat.succ_add]
    unfold run at ended ⊢
    cases after : step ast limit c with
    | dangling =>
      rw [after] at ended
      cases ended
    | ended answer' w' =>
      rw [after] at ended
      exact ended
    | next d =>
      rw [after] at ended
      exact ih ended

/-- Two runs that begin together and come to an end do so with the same answer, unless an output was
full in one of them only. -/
theorem ended_together (moves : ast.Moves r ast') (injective : Function.Injective r.func)
    (twin : c.Twin r bond c')
    (quiet : bond.same → (∀ i, r.func i = i) ∨
      ∀ m d, run ast limit m c = .next d → ¬ d.control.PrintsClosure)
    {n n' : Nat} {answer answer' : Except RuntimeError Value} {w w' : World}
    (ended : run ast limit n c = .ended answer w)
    (ended' : run ast' limit n' c' = .ended answer' w') :
    Step.Together r bond (.ended answer w) (.ended answer' w') := by
  have together : Step.Together r bond (run ast limit (n + n') c) (run ast' limit (n + n') c') :=
    run_together moves injective (n + n') twin quiet
  have later := run_ended_more ended' n
  rw [Nat.add_comm] at later
  rw [run_ended_more ended n', later] at together
  exact together

end Lockstep

end Stepwise

end ScriptKit
