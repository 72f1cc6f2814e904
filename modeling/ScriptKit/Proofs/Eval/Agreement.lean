import Mathlib.Logic.Relation
import ScriptKit.Proofs.Eval.Bounds

/-! Single steps come to the end, with what the evaluation of trees gives.

Trees and the depth left for calls only get smaller, so the evaluation of trees has a result. Each
part of it is matched by finitely many steps, which leave the stack below as it was. -/

namespace ScriptKit.Stepwise

abbrev Reaches (ast : Ast) (limit : Nat) : Config → Config → Prop :=
  Relation.ReflTransGen fun c d => step ast limit c = .next d

/-- The configuration in which a result is handed to what waits for it. -/
def land (stack : List Waiting) (depth : Nat) : EStateM.Result RuntimeError World Value → Config
  | .ok v w => ⟨.value v, stack, depth, w⟩
  | .error e w => ⟨.error e, stack, depth, w⟩

def Step.ofResult : EStateM.Result RuntimeError World Value → Step
  | .ok v w => .ended (.ok v) w
  | .error e w => .ended (.error e) w

/-- Wherever the plan is sound, following it comes to the result of `m`, at the same stack and
depth. -/
def Does (ast : Ast) (limit depth : Nat) (plan : Plan) (m : Eval Value) : Prop :=
  ∀ stack w, Config.Sound ast ⟨plan.1, plan.2 ++ stack, depth, w⟩ →
    Reaches ast limit ⟨plan.1, plan.2 ++ stack, depth, w⟩ (land stack depth (m w))

section Reaching

variable {ast : Ast} {limit : Nat} {c d : Config}

theorem Reaches.sound (reaches : Reaches ast limit c d) (closed : ast.Closed)
    (sound : c.Sound ast) :
    d.Sound ast := by
  induction reaches with
  | refl => exact sound
  | tail _ taken ih =>
    have safe := step_safe closed limit ih
    rw [taken] at safe
    exact safe

theorem Config.Sound.head {e : Config} (sound : c.Sound ast) (closed : ast.Closed)
    (taken : step ast limit c = .next d) (rest : d.Sound ast → Reaches ast limit d e) :
    Reaches ast limit c e := by
  have safe := step_safe closed limit sound
  rw [taken] at safe
  exact .head taken (rest safe)

theorem run_of_reaches {depth : Nat} {r : EStateM.Result RuntimeError World Value}
    (reaches : Reaches ast limit c (land [] depth r)) :
    ∃ n, run ast limit n c = .ofResult r := by
  induction reaches using Relation.ReflTransGen.head_induction_on with
  | refl => exact ⟨1, by cases r <;> rfl⟩
  | head taken _ ih =>
    obtain ⟨n, ended⟩ := ih
    exact ⟨n + 1, by simp only [run, taken, ended]⟩

end Reaching

def Waiting.isFrame : Waiting → Bool
  | .frame .. => true
  | _ => false

section Plans

variable {ast : Ast} {limit depth : Nat} {scope : ScopeId} {span : Span}

theorem step_value {k : Waiting} (plain : k.isFrame = false) (v : Value) (stack : List Waiting)
    (w : World) : step ast limit ⟨.value v, k :: stack, depth, w⟩ =
      .next ⟨(resume v k).1, (resume v k).2 ++ stack, depth, w⟩ := by
  cases k with
  | frame mark isCall => cases plain
  | _ => rfl

theorem step_error {k : Waiting} (plain : k.isFrame = false) (e : RuntimeError)
    (stack : List Waiting) (w : World) : step ast limit ⟨.error e, k :: stack, depth, w⟩ =
      .next ⟨.error e, stack, depth, w⟩ := by
  cases k with
  | frame mark isCall => cases plain
  | _ => rfl

theorem does_pure (v : Value) : Does ast limit depth (.value v, []) (pure v) :=
  fun _ _ _ => .refl

theorem does_fail (kind : RuntimeErrorKind) (span : Span) :
    Does ast limit depth (fail kind span, []) (Eval.fail kind span) :=
  fun _ _ _ => .refl

theorem does_ofExcept (r : Except RuntimeErrorKind Value) (span : Span) :
    Does ast limit depth (ofExcept span r, []) (Eval.ofExcept span r) := by
  cases r with
  | error kind => exact does_fail kind span
  | ok v => exact does_pure v

theorem Does.head {plan plan' : Plan} {m : Eval Value} (closed : ast.Closed)
    (taken : ∀ stack w, step ast limit ⟨plan.1, plan.2 ++ stack, depth, w⟩ =
      .next ⟨plan'.1, plan'.2 ++ stack, depth, w⟩)
    (rest : Does ast limit depth plan' m) : Does ast limit depth plan m :=
  fun stack w sound => sound.head closed (taken stack w) (rest stack w)

theorem Does.bind {control : Control} {k : Waiting} {m : Eval Value} {f : Value → Eval Value}
    (closed : ast.Closed) (plain : k.isFrame = false) (first : Does ast limit depth (control, []) m)
    (rest : ∀ v, Does ast limit depth (resume v k) (f v)) :
    Does ast limit depth (control, [k]) (m >>= f) := by
  intro stack w sound
  have before := first (k :: stack) w sound
  have reached := before.sound closed sound
  refine before.trans ?_
  -- What waits takes the value up, or lets the error pass.
  simp only [Bind.bind, EStateM.bind]
  cases ended : m w with
  | error e w' => exact .single (step_error plain e stack w')
  | ok v w' =>
    rw [ended] at reached
    exact reached.head closed (step_value plain v stack w') (rest v stack w')

end Plans

section Variables

variable {ast : Ast} {limit depth : Nat}

def Purpose.act (scope : ScopeId) (x : String) : Purpose → Eval Value
  | .read span => Evaluator.name scope x span
  | .write v span => do
    Eval.assign scope x v span
    return v

theorem act_congr {w : World} {i j : ScopeId} {x : String}
    (same : w.scopes.owner? x i = w.scopes.owner? x j) (purpose : Purpose) :
    purpose.act i x w = purpose.act j x w := by
  cases purpose with
  | read span =>
    simp only [Purpose.act, Evaluator.name, Eval.run_scopes, Scopes.resolve?, Scopes.lookup?, same]
  | write v span =>
    simp only [Purpose.act, Eval.assign_eq, bind_assoc, Eval.run_scopes, Scopes.assign_eq, same]

theorem does_seek (closed : ast.Closed) (id : ScopeId) (x : String) (purpose : Purpose) :
    Does ast limit depth (.seek id x purpose, []) (purpose.act id x) := by
  -- The search goes from a frame to an older one, so it ends.
  induction id using Nat.strongRecOn with
  | ind id ih =>
    intro stack w sound
    have inside : id < w.scopes.size := by
      cases purpose <;> exact sound.control.2.1 id (List.mem_singleton_self id)
    have here := Array.getElem?_eq_getElem inside
    generalize w.scopes.frames[id] = frame at here
    have older := (sound.scopes.frames id frame here).older
    have taken : step ast limit ⟨.seek id x purpose, stack, depth, w⟩ =
      Config.seek ⟨.seek id x purpose, stack, depth, w⟩ id x purpose := rfl
    cases got : frame.table.get? x with
    | some b =>
      refine .single (taken.trans ?_)
      cases purpose with
      | read span =>
        have value : w.scopes.resolve? id x = some b.value := by
          rw [Scopes.resolve?, Scopes.lookup?_here here got, Option.map_some]
        simp only [Config.seek, here, got, Purpose.act, Evaluator.name, Eval.run_scopes, value]
        rfl
      | write v span =>
        have owner := Scopes.owner?_here here got
        by_cases constant : b.isConst = true
        · simp only [Config.seek, here, got, Purpose.act, Eval.assign_eq, bind_assoc,
            Eval.run_scopes, Scopes.assign_eq, owner, Option.bind_some, if_pos constant]
          rfl
        · simp only [Config.seek, here, got, Purpose.act, Eval.assign_eq, bind_assoc,
            Eval.run_scopes, Scopes.assign_eq, owner, Option.bind_some, if_neg constant,
            Correspondence.modify_eq_set _ here]
          rfl
    | none =>
      cases up : frame.parent with
      | some p =>
        have owner := Scopes.owner?_parent here got up (older p up)
        rw [act_congr owner]
        refine sound.head closed (taken.trans ?_) (ih p (older p up) stack w)
        simp only [Config.seek, here, got, up]
        rfl
      | none =>
        refine .single (taken.trans ?_)
        cases purpose with
        | read span =>
          have unset : w.scopes.resolve? id x = none := by
            rw [Scopes.resolve?, Scopes.lookup?_outermost here got up, Option.map_none]
          simp only [Config.seek, here, got, up, Purpose.act, Evaluator.name, Eval.run_scopes,
            unset]
          cases Builtin.ofName? x <;> rfl
        | write v span =>
          have owner := Scopes.owner?_outermost here got up
          simp only [Config.seek, here, got, up, Purpose.act, Eval.assign_eq, bind_assoc,
            Eval.run_scopes, Scopes.assign_eq, owner]
          rfl

/-- Makes a variable, and goes on with `control` if there was none of the name. -/
theorem reaches_declare {c : Config} {scope : ScopeId} {b : Binding} {span : Span}
    {control : Control} {m : Eval Value} (closed : ast.Closed) (sound : c.Sound ast)
    (inside : scope < c.world.scopes.size)
    (taken : step ast limit c = c.declare scope b span control)
    (rest : Does ast limit c.depth (control, []) m) :
    Reaches ast limit c
      (land c.stack c.depth ((do Eval.declare scope b span; m : Eval Value) c.world)) := by
  have here := Array.getElem?_eq_getElem inside
  generalize c.world.scopes.frames[scope] = frame at here
  cases inserted : frame.table.insert? b with
  | none =>
    refine .single (taken.trans ?_)
    simp only [Config.declare, here, inserted, Eval.declare_eq, bind_assoc, Eval.run_scopes,
      Scopes.declare_eq]
    rfl
  | some table =>
    have after : (do Eval.declare scope b span; m : Eval Value) c.world =
        m { c.world with scopes :=
          ⟨c.world.scopes.frames.setIfInBounds scope { frame with table }⟩ } := by
      simp only [Eval.declare_eq, bind_assoc, Eval.run_scopes, Scopes.declare_eq, here, inserted]
      rfl
    rw [after]
    refine sound.head closed (taken.trans ?_) (rest c.stack _)
    simp only [Config.declare, here, inserted]
    rfl

theorem does_declare (closed : ast.Closed) (scope : ScopeId) (b : Binding) (span : Span) :
    Does ast limit depth (.declare scope b span, [])
      (do Eval.declare scope b span; return b.value) := by
  intro stack w sound
  have inside := sound.control.2.1 scope (List.mem_singleton_self scope)
  exact reaches_declare closed sound inside rfl (does_pure b.value)

theorem does_capture (scope : ScopeId) (func : FuncId) :
    Does ast limit depth (.capture scope func, []) (Eval.closure scope func) := by
  intro stack w sound
  have inside : scope < w.scopes.size := sound.control.2.1 scope (List.mem_singleton_self scope)
  have here := Array.getElem?_eq_getElem inside
  apply Relation.ReflTransGen.single
  simp only [List.nil_append, step, Config.capture, here]
  rfl

end Variables

section Frames

variable {ast : Ast} {limit : Nat} {c : Config}

/-- What is done in a new frame, up to where frames are given back. -/
theorem reaches_inFrame {parent : ScopeId} {isCall : Bool} {control : ScopeId → Control}
    {body : ScopeId → Eval Value} (closed : ast.Closed) (sound : c.Sound ast)
    (opens : step ast limit c = c.openFrame parent isCall control)
    (does : ∀ frame, Does ast limit (if isCall then c.depth + 1 else c.depth) (control frame, [])
      (body frame)) :
    Reaches ast limit c (land c.stack c.depth
      (Eval.inFrame Scopes.release parent body c.world)) := by
  refine sound.head closed opens fun inner => ?_
  refine .trans (does _ (.frame c.world.scopes.size isCall :: c.stack) _ inner) (.single ?_)
  have back : (if isCall then (if isCall then c.depth + 1 else c.depth) - 1
      else if isCall then c.depth + 1 else c.depth) = c.depth := by
    cases isCall <;> rfl
  simp only [Eval.inFrame]
  cases body c.world.scopes.size { c.world with scopes := c.world.scopes.push parent } with
  | ok v w => simp only [land, step, Config.closeFrame, back]
  | error e w => simp only [land, step, Config.closeFrame, back]

theorem does_nest {depth : Nat} {parent : ScopeId} {id : Nat} {body : ScopeId → Eval Value}
    (closed : ast.Closed) (does : ∀ child,
      Does ast limit depth (.block child id, []) (body child)) :
    Does ast limit depth (.nest parent id, []) (Eval.inFrame Scopes.release parent body) := by
  intro stack w sound
  have opens : step ast limit ⟨.nest parent id, stack, depth, w⟩ =
    Config.openFrame ⟨.nest parent id, stack, depth, w⟩ parent false fun child =>
      .block child id := rfl
  exact reaches_inFrame closed sound opens does

end Frames

section Trees

variable {ast : Ast} {limit depth : Nat} {rules : Rules}

def CallsAgree (ast : Ast) (limit depth : Nat) (rules : Rules) : Prop :=
  ∀ g args span, Does ast limit depth (.call g args span, []) (rules.call g args span)

theorem does_finish (calls : CallsAgree ast limit depth rules) (callee : Value) (span : Span)
    (values : List Value) : Does ast limit depth ((Use.call callee span).finish values, [])
      (match callee with
        | .function g => rules.call g values span
        | v => Eval.fail (.notCallable v.type) span) := by
  cases callee with
  | function g => exact calls g values span
  | _ => exact does_fail _ span

theorem Does.ofExpr {scope : ScopeId} {e : Expr} {m : Eval Value} (closed : ast.Closed)
    (has : ast.Has (.expr e)) (rest : Does ast limit depth (planExpr scope e) m) :
    Does ast limit depth (.expr scope e.id, []) m := by
  refine .head closed (fun stack w => ?_) rest
  simp only [List.nil_append, step, Ast.has_expr.mp has, Option.map_some]
  rfl

theorem Does.ofStmt {scope : ScopeId} {st : Stmt} {m : Eval Value} (closed : ast.Closed)
    (has : ast.Has (.stmt st)) (rest : Does ast limit depth (planStmt scope st) m) :
    Does ast limit depth (.stmt scope st.id, []) m := by
  refine .head closed (fun stack w => ?_) rest
  simp only [List.nil_append, step, Ast.has_stmt.mp has, Option.map_some]
  rfl

theorem Does.ofBlock {scope : ScopeId} {b : Block} {m : Eval Value} (closed : ast.Closed)
    (has : ast.Has (.block b))
    (rest : Does ast limit depth (resume .null (.stmts scope (b.stmts.map (·.id)))) m) :
    Does ast limit depth (.block scope b.id, []) m := by
  have plan : Does ast limit depth (planBlock scope b) m :=
    .head closed (fun stack w => step_value rfl .null stack w) rest
  refine .head closed (fun stack w => ?_) plan
  simp only [List.nil_append, step, Ast.has_block.mp has, Option.map_some]
  rfl

mutual

theorem does_expr (closed : ast.Closed) (calls : CallsAgree ast limit depth rules)
    (reclaim : rules.reclaim = Scopes.release) (scope : ScopeId) :
    (e : Expr) → ast.Has (.expr e) →
      Does ast limit depth (.expr scope e.id, []) (Evaluator.expr rules scope e)
  | .literal _ v, has => .ofExpr closed has (does_pure (.ofLiteral v))
  | .name node x, has => .ofExpr closed has (does_seek closed scope x (.read node.span))
  | .binary _ _ a b, has => by
    have left := closed.parts _ has (.expr a) (by simp [Part.parts, Part.ofExpr])
    have right := closed.parts _ has (.expr b) (by simp [Part.parts, Part.ofExpr])
    refine .ofExpr closed has
      (.bind closed rfl (does_expr closed calls reclaim scope a left) fun x => ?_)
    refine .bind closed rfl (does_expr closed calls reclaim scope b right) fun y => ?_
    exact does_ofExcept _ _
  | .unary _ _ a, has => by
    have operand := closed.parts _ has (.expr a) (by simp [Part.parts, Part.ofExpr])
    refine .ofExpr closed has
      (.bind closed rfl (does_expr closed calls reclaim scope a operand) fun x => ?_)
    exact does_ofExcept _ _
  | .call node f args, has => by
    have function := closed.parts _ has (.expr f) (by simp [Part.parts, Part.ofExpr])
    have given : ∀ a ∈ args, ast.Has (.expr a) := fun a member =>
      closed.parts _ has (.expr a) (by simp [Part.parts, Part.ofExpr, member])
    refine .ofExpr closed has
      (.bind closed rfl (does_expr closed calls reclaim scope f function) fun callee => ?_)
    refine does_exprs closed calls reclaim scope ?_ args given
    exact does_finish calls callee node.span
  | .array _ items, has => by
    have given : ∀ a ∈ items, ast.Has (.expr a) := fun a member =>
      closed.parts _ has (.expr a) (by simp [Part.parts, Part.ofExpr, member])
    refine .ofExpr closed has ?_
    exact does_exprs closed calls reclaim scope (fun vs => does_pure (.array vs)) items given
  | .index _ a i, has => by
    have target := closed.parts _ has (.expr a) (by simp [Part.parts, Part.ofExpr])
    have key := closed.parts _ has (.expr i) (by simp [Part.parts, Part.ofExpr])
    refine .ofExpr closed has
      (.bind closed rfl (does_expr closed calls reclaim scope a target) fun x => ?_)
    refine .bind closed rfl (does_expr closed calls reclaim scope i key) fun y => ?_
    exact does_ofExcept _ _
  | .function _ f, has => .ofExpr closed has (does_capture scope f.id)

theorem does_exprs (closed : ast.Closed) (calls : CallsAgree ast limit depth rules)
    (reclaim : rules.reclaim = Scopes.release) (scope : ScopeId) {use : Use} {done : List Value}
    {f : List Value → Eval Value}
    (rest : ∀ values, Does ast limit depth (use.finish (done ++ values), []) (f values)) :
    (es : List Expr) → (∀ e ∈ es, ast.Has (.expr e)) →
      Does ast limit depth (gather scope use done (es.map (·.id)))
        (Evaluator.exprs rules scope es >>= f)
  | [], _ => by
    have nothing := rest []
    rw [List.append_nil] at nothing
    exact nothing
  | e :: es, has => by
    obtain ⟨first, others⟩ := List.forall_mem_cons.mp has
    simp only [Evaluator.exprs, bind_assoc, pure_bind]
    refine .bind closed rfl (does_expr closed calls reclaim scope e first) fun v => ?_
    refine does_exprs closed calls reclaim scope (fun values => ?_) es others
    rw [List.append_assoc]
    exact rest (v :: values)

end

mutual

theorem does_stmt (closed : ast.Closed) (calls : CallsAgree ast limit depth rules)
    (reclaim : rules.reclaim = Scopes.release) (scope : ScopeId) :
    (st : Stmt) → ast.Has (.stmt st) →
      Does ast limit depth (.stmt scope st.id, []) (Evaluator.stmt rules scope st)
  | .expr _ e, has => by
    have value := closed.parts _ has (.expr e) (by simp [Part.parts, Part.ofStmt])
    exact .ofStmt closed has (does_expr closed calls reclaim scope e value)
  | .declare node x e isConst, has => by
    have value := closed.parts _ has (.expr e) (by simp [Part.parts, Part.ofStmt])
    refine .ofStmt closed has
      (.bind closed rfl (does_expr closed calls reclaim scope e value) fun v => ?_)
    exact does_declare closed scope ⟨x, v, isConst⟩ node.span
  | .assign node x e, has => by
    have value := closed.parts _ has (.expr e) (by simp [Part.parts, Part.ofStmt])
    refine .ofStmt closed has
      (.bind closed rfl (does_expr closed calls reclaim scope e value) fun v => ?_)
    exact does_seek closed scope x (.write v node.span)
  | .function node x f, has => by
    refine .ofStmt closed has (.bind closed rfl (does_capture scope f.id) fun v => ?_)
    exact does_declare closed scope ⟨x, v, false⟩ node.span
  | .block _ b, has => by
    have inner := closed.parts _ has (.block b) (by simp [Part.parts, Part.ofStmt])
    simp only [Evaluator.stmt, reclaim]
    refine .ofStmt closed has (does_nest closed fun child => ?_)
    exact does_block closed calls reclaim child b inner

theorem does_stmts (closed : ast.Closed) (calls : CallsAgree ast limit depth rules)
    (reclaim : rules.reclaim = Scopes.release) (scope : ScopeId) (last : Value) :
    (ss : List Stmt) → (∀ st ∈ ss, ast.Has (.stmt st)) →
      Does ast limit depth (resume last (.stmts scope (ss.map (·.id))))
        (Evaluator.stmts rules scope last ss)
  | [], _ => does_pure last
  | st :: ss, has => by
    obtain ⟨first, others⟩ := List.forall_mem_cons.mp has
    exact .bind closed rfl (does_stmt closed calls reclaim scope st first) fun v =>
      does_stmts closed calls reclaim scope v ss others

theorem does_block (closed : ast.Closed) (calls : CallsAgree ast limit depth rules)
    (reclaim : rules.reclaim = Scopes.release) (scope : ScopeId) :
    (b : Block) → ast.Has (.block b) →
      Does ast limit depth (.block scope b.id, []) (Evaluator.block rules scope b)
  | .mk id ss, has => by
    have inner : ∀ st ∈ ss, ast.Has (.stmt st) := fun st member =>
      closed.parts _ has (.stmt st) (List.mem_map_of_mem member)
    exact .ofBlock closed has (does_stmts closed calls reclaim scope .null ss inner)

end

theorem does_body (closed : ast.Closed) (calls : CallsAgree ast limit depth rules)
    (reclaim : rules.reclaim = Scopes.release) (frame : ScopeId) {f : Func}
    (has : ast.Has (.func f)) :
    Does ast limit depth (planBody frame f.body)
      (match f.body with
        | .block b => Evaluator.block rules frame b
        | .expr e => Evaluator.expr rules frame e) := by
  have inner := closed.parts _ has (.ofBody f.body) (List.mem_singleton_self _)
  generalize f.body = part at inner ⊢
  cases part with
  | block b => exact does_block closed calls reclaim frame b inner
  | expr e => exact does_expr closed calls reclaim frame e inner

end Trees

section Calls

variable {ast : Ast} {limit depth : Nat}

theorem does_bind {f : FuncId} {func : Func} {m : Eval Value} (closed : ast.Closed)
    (here : ast.funcs[f]? = some func) (frame : ScopeId) (span : Span)
    (body : Does ast limit depth (planBody frame func.body) m) (ps : List String)
    (vs : List Value) :
    Does ast limit depth (.bind frame f ps vs span, [])
      (do Evaluator.bindParams frame span ps vs; m) := by
  have enters : ∀ ps vs, Evaluator.bindParams frame span ps vs = pure () →
      (∀ c : Config, step ast limit { c with control := .bind frame f ps vs span } =
        Config.body ast.funcs { c with control := .bind frame f ps vs span } frame f) →
      Does ast limit depth (.bind frame f ps vs span, [])
        (do Evaluator.bindParams frame span ps vs; m) := by
    intro ps vs nothing taken
    rw [nothing, pure_bind]
    refine .head closed (fun stack w =>
      (taken ⟨.bind frame f ps vs span, stack, depth, w⟩).trans ?_) body
    simp only [Config.body, here]
    rfl
  induction ps generalizing vs with
  | nil => exact enters [] vs rfl fun c => rfl
  | cons p ps ih =>
    cases vs with
    | nil => exact enters (p :: ps) [] rfl fun c => rfl
    | cons v vs =>
      intro stack w sound
      have inside := sound.control.2.1 frame (List.mem_singleton_self frame)
      simp only [Evaluator.bindParams, bind_assoc]
      exact reaches_declare closed sound inside rfl (ih vs)

def EntersAgree (ast : Ast) (limit depth : Nat) (enter : Builtin.Enter) : Prop :=
  ∀ f env args span,
    Does ast limit depth (.call (.closure f env) args span, []) (enter f env args span)

theorem does_filterNext {g : Callable} {takesItem : Bool} {test : Value → Eval Value} {span : Span}
    (closed : ast.Closed)
    (tests : ∀ v, Does ast limit depth (.call g (if takesItem then [v] else []) span, []) (test v))
    (kept items : List Value) :
    Does ast limit depth (filterNext g takesItem span kept items)
      (do return .array (kept ++ (← Builtin.keepItems test items))) := by
  induction items generalizing kept with
  | nil =>
    simp only [Builtin.keepItems, pure_bind, List.append_nil]
    exact does_pure (.array kept)
  | cons v vs ih =>
    simp only [Builtin.keepItems, bind_assoc, pure_bind]
    refine .bind closed rfl (tests v) fun verdict => ?_
    cases wanted : verdict.isTruthy with
    | false =>
      simp only [resume, wanted, Bool.false_eq_true, if_false]
      exact ih kept
    | true =>
      have later := ih (kept ++ [v])
      simp only [List.append_assoc, List.singleton_append] at later
      simp only [resume, wanted, if_true]
      exact later

theorem does_perform (b : Builtin) (args : List Value) (span : Span) (other : b ≠ .arrayFilter) :
    Does ast limit depth (.call (.builtin b) args span, []) (b.perform args span) := by
  intro stack w sound
  apply Relation.ReflTransGen.single
  have taken : step ast limit ⟨.call (.builtin b) args span, stack, depth, w⟩ =
      Config.perform ⟨.call (.builtin b) args span, stack, depth, w⟩ b args span := by
    cases b with
    | arrayFilter => exact absurd rfl other
    | _ => rfl
  refine taken.trans ?_
  unfold Config.perform
  cases b.perform args span w <;> rfl

theorem Does.ofPlanFilter {args : List Value} {span : Span} {plan : Plan} {m : Eval Value}
    (closed : ast.Closed) (planned : planFilter ast.funcs span args = some plan)
    (rest : Does ast limit depth plan m) :
    Does ast limit depth (.call (.builtin .arrayFilter) args span, []) m := by
  refine .head closed (fun stack w => ?_) rest
  simp only [List.nil_append, step, Config.call, planned]
  rfl

theorem does_test (closed : ast.Closed) (b : Builtin) (v : Value) (span : Span) :
    Does ast limit depth (.call (.builtin b) [v] span, []) (b.perform [v] span) := by
  by_cases same : b = .arrayFilter
  -- As a predicate it has one argument too few.
  · subst same
    exact .ofPlanFilter closed (by cases v <;> rfl) (does_fail _ span)
  · exact does_perform b [v] span same

theorem does_filter {enter : Builtin.Enter} (closed : ast.Closed)
    (enters : EntersAgree ast limit depth enter) (args : List Value) (span : Span) :
    Does ast limit depth (.call (.builtin .arrayFilter) args span, [])
      (Builtin.filter ast.funcs enter args span) := by
  intro stack w sound
  suffices Does ast limit depth (.call (.builtin .arrayFilter) args span, [])
    (Builtin.filter ast.funcs enter args span) from this stack w sound
  unfold Builtin.filter
  split
  · rename_i items b
    exact .ofPlanFilter closed rfl
      (does_filterNext closed (fun v => does_test closed b v span) [] items)
  · rename_i items f env
    have known : f < ast.funcs.size := by
      have held := sound.control.2.2 (.function (.closure f env)) (by simp [Control.refs])
      exact (held (f, env) (by simp)).1
    have here := Array.getElem?_eq_getElem known
    generalize ast.funcs[f] = func at here
    simp only [here]
    split
    · rename_i none
      refine .ofPlanFilter closed (by simp [planFilter, arity?, here, none]; rfl) ?_
      exact does_filterNext closed (fun v => enters f env [] span) [] items
    · rename_i p one
      refine .ofPlanFilter closed (by simp [planFilter, arity?, here, one]; rfl) ?_
      exact does_filterNext closed (fun v => enters f env [v] span) [] items
    · rename_i notNone notOne
      have many : 1 < func.params.length := by
        cases params : func.params with
        | nil => exact absurd params notNone
        | cons p rest =>
          cases rest with
          | nil => exact absurd params (notOne p)
          | cons q rest => simp
      exact .ofPlanFilter closed (by simp [planFilter, arity?, here, many]) (does_fail _ span)
  · rename_i a b notBuiltin notClosure
    refine .ofPlanFilter closed ?_ (does_fail _ span)
    unfold planFilter
    split
    · rename_i items g same
      cases same
      cases g with
      | builtin b => exact (notBuiltin items b rfl rfl).elim
      | closure f env => exact (notClosure items f env rfl rfl).elim
    · rfl
    · rename_i notTwo
      exact (notTwo a b rfl).elim
  · rename_i notBuiltin notClosure notTwo
    refine .ofPlanFilter closed ?_ (does_fail _ span)
    unfold planFilter
    split
    · exact (notTwo _ _ rfl).elim
    · exact (notTwo _ _ rfl).elim
    · rfl

theorem calls_agree {enter : Builtin.Enter} {reclaim : Nat → Value → Scopes → Scopes}
    (closed : ast.Closed) (enters : EntersAgree ast limit depth enter) :
    CallsAgree ast limit depth ⟨Evaluator.call ast.funcs enter, reclaim⟩ := by
  intro g args span
  cases g with
  | closure f env => exact enters f env args span
  | builtin b =>
    cases b with
    | arrayFilter => exact does_filter closed enters args span
    | _ => exact does_perform _ args span (by simp)

theorem does_enter (closed : ast.Closed) {left : Nat} (budget : left + depth = limit)
    (inner : ∀ less, left = less + 1 → CallsAgree ast limit (depth + 1)
      ⟨Evaluator.call ast.funcs (Evaluator.enter ast.funcs Scopes.release less), Scopes.release⟩) :
    EntersAgree ast limit depth (Evaluator.enter ast.funcs Scopes.release left) := by
  intro f env args span stack w sound
  have known : f < ast.count .func := by
    have held := sound.control.2.2 (.function (.closure f env)) (by simp [Control.refs])
    exact (held (f, env) (by simp)).1
  obtain ⟨_, found, has⟩ := closed.exists_node known
  obtain ⟨func, here, rfl⟩ := Option.map_eq_some_iff.mp found
  rw [Evaluator.enter, here]
  dsimp only
  by_cases arity : args.length ≠ func.params.length
  · rw [if_pos arity]
    apply Relation.ReflTransGen.single
    simp only [List.nil_append, step, Config.call, here, if_pos arity]
    rfl
  · rw [if_neg arity]
    cases left with
    | zero =>
      have full : limit ≤ depth := by omega
      apply Relation.ReflTransGen.single
      simp only [List.nil_append, step, Config.call, here, if_neg arity, if_pos full]
      rfl
    | succ less =>
      have room : ¬limit ≤ depth := by omega
      have opens : step ast limit ⟨.call (.closure f env) args span, stack, depth, w⟩ =
          Config.openFrame ⟨.call (.closure f env) args span, stack, depth, w⟩ env true
            fun frame => .bind frame f func.params args span := by
        simp only [step, Config.call, here, if_neg arity, if_neg room]
      refine reaches_inFrame closed sound opens fun frame => ?_
      exact does_bind closed here frame span
        (does_body closed (inner less rfl) rfl frame has) func.params args

theorem enters_agree (closed : ast.Closed) (left : Nat) (budget : left + depth = limit) :
    EntersAgree ast limit depth (Evaluator.enter ast.funcs Scopes.release left) := by
  -- One level less is left for the calls inside a call, and with none left a call fails.
  induction left generalizing depth with
  | zero => exact does_enter closed budget fun less same => nomatch same
  | succ left ih =>
    refine does_enter closed budget fun less same => ?_
    cases same
    exact calls_agree closed (ih (by omega))

end Calls

/-- A run of a block in the global frame ends, with what the evaluation of its tree gives. -/
theorem run_ends {ast : Ast} (closed : ast.Closed) (limit : Nat) {b : Block}
    (has : ast.Has (.block b)) {w : World} (sound : w.scopes.Sound ast.funcs.size) :
    ∃ n, run ast limit n (start b.id w) = .ofResult
      (Evaluator.block (Evaluator.rulesFor ast.funcs Scopes.release limit) Scopes.globalId b
        w) := by
  have calls : CallsAgree ast limit 0 (Evaluator.rulesFor ast.funcs Scopes.release limit) :=
    calls_agree closed (enters_agree closed limit (Nat.add_zero limit))
  exact run_of_reaches
    (does_block closed calls rfl Scopes.globalId b has [] w (sound_start sound has.lt))

end ScriptKit.Stepwise
