import ScriptKit.Eval.Basic

/-! Evaluation in single steps, on numbers of nodes.

Nothing here recurses: what is still to be done stands on a stack, nodes are looked up by number
each time, and a variable is sought frame by frame along the parents. So a run may be without end,
and a number that leads nowhere shows as `Step.dangling`. -/

namespace ScriptKit.Stepwise

inductive Purpose where
  | read (span : Span)
  | write (value : Value) (span : Span)

inductive Use where
  | array
  | call (callee : Value) (span : Span)

inductive Control where
  | expr (scope : ScopeId) (id : Nat)
  | stmt (scope : ScopeId) (id : Nat)
  | block (scope : ScopeId) (id : Nat)
  /-- Opens a frame and runs a block in it. -/
  | nest (parent : ScopeId) (id : Nat)
  | seek (frame : ScopeId) (name : String) (purpose : Purpose)
  | capture (scope : ScopeId) (func : FuncId)
  | declare (scope : ScopeId) (b : Binding) (span : Span)
  | call (callee : Callable) (args : List Value) (span : Span)
  /-- Makes the parameters variables, then runs the body. -/
  | bind (frame : ScopeId) (func : FuncId) (params : List String) (args : List Value) (span : Span)
  | value (v : Value)
  | error (e : RuntimeError)

inductive Waiting where
  | rightOperand (scope : ScopeId) (op : BinaryOp) (rhs : Nat) (span : Span)
  | binary (op : BinaryOp) (lhs : Value) (span : Span)
  | unary (op : UnaryOp) (span : Span)
  | callee (scope : ScopeId) (args : List Nat) (span : Span)
  | gather (scope : ScopeId) (use : Use) (done : List Value) (rest : List Nat)
  | key (scope : ScopeId) (key : Nat) (span : Span)
  | index (target : Value) (span : Span)
  | declare (scope : ScopeId) (name : String) (isConst : Bool) (span : Span)
  | assign (scope : ScopeId) (name : String) (span : Span)
  | stmts (scope : ScopeId) (rest : List Nat)
  /-- A predicate was called for `item`. -/
  | filter (predicate : Callable) (takesItem : Bool) (span : Span) (item : Value)
      (kept rest : List Value)
  /-- A block or a call ends here, and frames from `mark` on are given back. -/
  | frame (mark : Nat) (isCall : Bool)

/-- `depth` is how many calls stand inside one another. -/
structure Config where
  control : Control
  stack : List Waiting
  depth : Nat
  world : World

inductive Step where
  | next (c : Config)
  | ended (answer : Except RuntimeError Value) (world : World)
  /-- A node or a frame was asked for that does not exist. -/
  | dangling

def fail (kind : RuntimeErrorKind) (span : Span) : Control :=
  .error ⟨kind, some span⟩

def ofExcept (span : Span) : Except RuntimeErrorKind Value → Control
  | .ok v => .value v
  | .error kind => fail kind span

def Use.finish (values : List Value) : Use → Control
  | array => .value (.array values)
  | call (.function g) span => .call g values span
  | call v span => fail (.notCallable v.type) span

abbrev Plan := Control × List Waiting

def gather (scope : ScopeId) (use : Use) (done : List Value) : List Nat → Plan
  | [] => (use.finish done, [])
  | e :: es => (.expr scope e, [.gather scope use done es])

def filterNext (predicate : Callable) (takesItem : Bool) (span : Span) (kept : List Value) :
    List Value → Plan
  | [] => (.value (.array kept), [])
  | v :: vs =>
    (.call predicate (if takesItem then [v] else []) span,
      [.filter predicate takesItem span v kept vs])

def planExpr (scope : ScopeId) : Expr → Plan
  | .literal _ v => (.value (.ofLiteral v), [])
  | .name node x => (.seek scope x (.read node.span), [])
  | .binary node op a b => (.expr scope a.id, [.rightOperand scope op b.id node.span])
  | .unary node op a => (.expr scope a.id, [.unary op node.span])
  | .call node f args => (.expr scope f.id, [.callee scope (args.map (·.id)) node.span])
  | .array _ items => gather scope .array [] (items.map (·.id))
  | .index node a i => (.expr scope a.id, [.key scope i.id node.span])
  | .function _ f => (.capture scope f.id, [])

def planStmt (scope : ScopeId) : Stmt → Plan
  | .expr _ e => (.expr scope e.id, [])
  | .declare node x e isConst => (.expr scope e.id, [.declare scope x isConst node.span])
  | .assign node x e => (.expr scope e.id, [.assign scope x node.span])
  | .function node x f => (.capture scope f.id, [.declare scope x false node.span])
  | .block _ b => (.nest scope b.id, [])

def planBlock (scope : ScopeId) (b : Block) : Plan :=
  (.value .null, [.stmts scope (b.stmts.map (·.id))])

def planBody (frame : ScopeId) : Body → Plan
  | .block b => (.block frame b.id, [])
  | .expr e => (.expr frame e.id, [])

/-- What a value that was waited for leads to. Frames are given back by `step`. -/
def resume (v : Value) : Waiting → Plan
  | .rightOperand scope op rhs span => (.expr scope rhs, [.binary op v span])
  | .binary op lhs span => (ofExcept span (Operators.binary op lhs v), [])
  | .unary op span => (ofExcept span (Operators.unary op v), [])
  | .callee scope args span => gather scope (.call v span) [] args
  | .gather scope use done rest => gather scope use (done ++ [v]) rest
  | .key scope key span => (.expr scope key, [.index v span])
  | .index target span => (ofExcept span (Operators.index target v), [])
  | .declare scope x isConst span => (.declare scope ⟨x, v, isConst⟩ span, [])
  | .assign scope x span => (.seek scope x (.write v span), [])
  | .stmts _ [] => (.value v, [])
  | .stmts scope (s :: ss) => (.stmt scope s, [.stmts scope ss])
  | .filter predicate takesItem span item kept rest =>
    filterNext predicate takesItem span (if v.isTruthy then kept ++ [item] else kept) rest
  | .frame .. => (.value v, [])

def arity? (funcs : Array Func) : Callable → Option Nat
  | .builtin _ => some 1
  | .closure f _ => funcs[f]?.map (·.params.length)

/-- How an array is filtered. There is no plan if the predicate is missing. -/
def planFilter (funcs : Array Func) (span : Span) : List Value → Option Plan
  | [.array items, .function g] =>
    (arity? funcs g).map fun n =>
      if 1 < n then
        (fail (.builtinArgument .arrayFilter "a function of at most one parameter") span, [])
      else filterNext g (n == 1) span [] items
  | [_, _] => some (fail (.builtinArgument .arrayFilter "an array and a function") span, [])
  | args => some (fail (.builtinArity .arrayFilter "2" args.length) span, [])

namespace Config

def follow (c : Config) (plan : Plan) : Step :=
  .next { c with control := plan.1, stack := plan.2 ++ c.stack }

/-- A plan is missing only where a node is. -/
def follow? (c : Config) : Option Plan → Step
  | none => .dangling
  | some plan => c.follow plan

def followIn (c : Config) (scopes : Scopes) (control : Control) : Step :=
  .next { c with control, world := { c.world with scopes } }

def openFrame (c : Config) (parent : ScopeId) (isCall : Bool) (control : ScopeId → Control) :
    Step :=
  .next
    { control := control c.world.scopes.size
      stack := .frame c.world.scopes.size isCall :: c.stack
      depth := if isCall then c.depth + 1 else c.depth
      world := { c.world with scopes := c.world.scopes.push parent } }

def closeFrame (c : Config) (mark : Nat) (isCall : Bool) (result : Value) (rest : List Waiting) :
    Step :=
  .next
    { control := c.control
      stack := rest
      depth := if isCall then c.depth - 1 else c.depth
      world := { c.world with scopes := c.world.scopes.release mark result } }

def seek (c : Config) (id : ScopeId) (x : String) (purpose : Purpose) : Step :=
  match c.world.scopes.frames[id]? with
  | none => .dangling
  | some frame =>
    match frame.table.get? x, frame.parent, purpose with
    | some b, _, .read _ => c.follow (.value b.value, [])
    | some b, _, .write v span =>
      if b.isConst then c.follow (fail (.constViolation x) span, [])
      else
        c.followIn ⟨c.world.scopes.frames.setIfInBounds id
          { frame with table := frame.table.set x v }⟩
          (.value v)
    | none, some parent, purpose => c.follow (.seek parent x purpose, [])
    | none, none, .read span =>
      match Builtin.ofName? x with
      | some b => c.follow (.value (.function (.builtin b)), [])
      | none => c.follow (fail (.undefinedVariable x) span, [])
    | none, none, .write _ span => c.follow (fail (.undefinedVariable x) span, [])

def declare (c : Config) (scope : ScopeId) (b : Binding) (span : Span) (control : Control) : Step :=
  match c.world.scopes.frames[scope]? with
  | none => .dangling
  | some frame =>
    match frame.table.insert? b with
    | none => c.follow (fail (.alreadyDeclared b.name) span, [])
    | some table =>
      c.followIn ⟨c.world.scopes.frames.setIfInBounds scope { frame with table }⟩ control

def capture (c : Config) (scope : ScopeId) (func : FuncId) : Step :=
  match c.world.scopes.frames[scope]? with
  | none => .dangling
  | some _ => c.followIn (c.world.scopes.capture scope) (.value (.function (.closure func scope)))

def perform (c : Config) (b : Builtin) (args : List Value) (span : Span) : Step :=
  match b.perform args span c.world with
  | .ok v world => .next { c with control := .value v, world }
  | .error e world => .next { c with control := .error e, world }

def call (funcs : Array Func) (limit : Nat) (c : Config) (args : List Value) (span : Span) :
    Callable → Step
  | .closure f env =>
    match funcs[f]? with
    | none => .dangling
    | some func =>
      if args.length ≠ func.params.length then
        c.follow (fail (.arityMismatch func.params.length args.length) span, [])
      else if limit ≤ c.depth then c.follow (fail .stackOverflow span, [])
      else c.openFrame env true fun frame => .bind frame f func.params args span
  | .builtin .arrayFilter => c.follow? (planFilter funcs span args)
  | .builtin b => c.perform b args span

def body (funcs : Array Func) (c : Config) (frame : ScopeId) (f : FuncId) : Step :=
  c.follow? (funcs[f]?.map fun func => planBody frame func.body)

end Config

/-- One step. At most `limit` calls may stand inside one another. -/
def step (ast : Ast) (limit : Nat) (c : Config) : Step :=
  match c.control, c.stack with
  | .expr scope id, _ => c.follow? (ast.exprs[id]?.map (planExpr scope))
  | .stmt scope id, _ => c.follow? (ast.stmts[id]?.map (planStmt scope))
  | .block scope id, _ => c.follow? (ast.blocks[id]?.map (planBlock scope))
  | .nest parent id, _ => c.openFrame parent false fun child => .block child id
  | .seek frame x purpose, _ => c.seek frame x purpose
  | .capture scope func, _ => c.capture scope func
  | .declare scope b span, _ => c.declare scope b span (.value b.value)
  | .call g args span, _ => c.call ast.funcs limit args span g
  | .bind frame f (p :: ps) (v :: vs) span, _ =>
    c.declare frame ⟨p, v, false⟩ span (.bind frame f ps vs span)
  | .bind frame f _ _ _, _ => c.body ast.funcs frame f
  | .value v, [] => .ended (.ok v) c.world
  | .value v, .frame mark isCall :: rest => c.closeFrame mark isCall v rest
  | .value v, waiting :: rest => { c with stack := rest }.follow (resume v waiting)
  | .error e, [] => .ended (.error e) c.world
  -- Nothing comes out of frames in which something failed.
  | .error _, .frame mark isCall :: rest => c.closeFrame mark isCall .null rest
  | .error _, _ :: rest => .next { c with stack := rest }

def run (ast : Ast) (limit : Nat) : Nat → Config → Step
  | 0, c => .next c
  | n + 1, c =>
    match step ast limit c with
    | .next c => run ast limit n c
    | last => last

/-- What every step preserves holds after any number of steps. -/
theorem run_preserves {ast : Ast} {limit : Nat} {good : Step → Prop}
    (preserved : ∀ c, good (.next c) → good (step ast limit c)) (n : Nat) {c : Config}
    (holds : good (.next c)) : good (run ast limit n c) := by
  induction n generalizing c with
  | zero => exact holds
  | succ n ih =>
    have taken := preserved c holds
    unfold run
    generalize step ast limit c = next at taken ⊢
    cases next with
    | next d => exact ih taken
    | ended answer w => exact taken
    | dangling => exact taken

def start (id : Nat) (world : World) : Config :=
  ⟨.block Scopes.globalId id, [], 0, world⟩

end ScriptKit.Stepwise
