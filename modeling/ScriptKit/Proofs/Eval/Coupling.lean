import ScriptKit.Eval.Basic
import ScriptKit.Proofs.Tree.Relocation
import ScriptKit.Proofs.Tree.Spelling
import ScriptKit.Proofs.Value.Renaming

/-! Two runs of one program, up to the spelling of its names, the places of its nodes and the
numbers of its frames.

What the evaluation of a tree asks of the world is done by a handful of steps. If a way in which
computations belong together is respected by these, then it is respected by every program: the proof
goes along the tree, and from a call of some depth to the next deeper one. -/

namespace ScriptKit

/-- What computations give, with the frames that closures in it were made in. -/
class Framed (α : Type) where
  rename : (ScopeId → ScopeId) → α → α
  envs : α → List ScopeId
  rename_id : ∀ a, rename id a = a
  rename_congr : ∀ {f g : ScopeId → ScopeId} (a : α), (∀ e ∈ envs a, f e = g e) →
    rename f a = rename g a

instance : Framed Value := ⟨Value.rename, Value.envs, Value.rename_id, Value.rename_congr⟩

instance : Framed (List Value) where
  rename f vs := vs.map (Value.rename f)
  envs vs := vs.flatMap Value.envs
  rename_id vs := by rw [show Value.rename id = id from funext Value.rename_id, List.map_id]
  rename_congr vs same := List.map_congr_left fun v member =>
    Value.rename_congr v fun e inside => same e (List.mem_flatMap.mpr ⟨v, member, inside⟩)

instance : Framed Unit := ⟨fun _ a => a, fun _ => [], fun _ => rfl, fun _ _ => rfl⟩

instance : Framed (Option String) := ⟨fun _ a => a, fun _ => [], fun _ => rfl, fun _ _ => rfl⟩

/-- Which frames of two runs belong together, from one time to the next. -/
structure Pairing where
  Time : Type
  later : Time → Time → Prop
  /-- As seen from a frame, a time at which a frame opened from it is at hand. -/
  inner : Time → Time → Prop
  /-- The number that a frame of the first run has in the second. -/
  rename : Time → ScopeId → ScopeId
  live : Time → ScopeId → Prop
  /-- Closures at hand were made in these frames. -/
  home : Time → ScopeId → Prop
  /-- Variables may be declared in these frames. -/
  own : Time → ScopeId → Prop
  later_refl : ∀ t, later t t
  later_trans : ∀ {t u v}, later t u → later u v → later t v
  inner_of_later : ∀ {t u}, later t u → inner t u
  live_of_home : ∀ {t i}, home t i → live t i
  live_of_own : ∀ {t i}, own t i → live t i
  live_mono : ∀ {t u i}, inner t u → live t i → live u i
  home_mono : ∀ {t u i}, inner t u → home t i → home u i
  own_mono : ∀ {t u i}, later t u → own t i → own u i
  rename_eq : ∀ {t u i}, inner t u → live t i → rename u i = rename t i
  distinct : ∀ {t i j}, home t i → home t j → rename t i = rename t j → i = j

namespace Pairing

def Alike (p : Pairing) {α : Type} [Framed α] (t : p.Time) (a b : α) : Prop :=
  b = Framed.rename (p.rename t) a ∧ ∀ e ∈ Framed.envs a, p.home t e

def Sees (p : Pairing) (t : p.Time) (i j : ScopeId) : Prop :=
  j = p.rename t i ∧ p.live t i

def Owns (p : Pairing) (t : p.Time) (i j : ScopeId) : Prop :=
  j = p.rename t i ∧ p.own t i

variable {p : Pairing} {t u : p.Time} {i j : ScopeId}

theorem Alike.mono {α : Type} [Framed α] {a b : α} (alike : p.Alike t a b) (inner : p.inner t u) :
    p.Alike u a b := by
  obtain ⟨rfl, home⟩ := alike
  refine ⟨Framed.rename_congr a fun e member => ?_, fun e member =>
    p.home_mono inner (home e member)⟩
  exact (p.rename_eq inner (p.live_of_home (home e member))).symm

theorem Sees.mono (sees : p.Sees t i j) (inner : p.inner t u) : p.Sees u i j :=
  ⟨sees.1.trans (p.rename_eq inner sees.2).symm, p.live_mono inner sees.2⟩

theorem Owns.sees (owns : p.Owns t i j) : p.Sees t i j :=
  ⟨owns.1, p.live_of_own owns.2⟩

theorem Owns.mono (owns : p.Owns t i j) (later : p.later t u) : p.Owns u i j :=
  ⟨(owns.sees.mono (p.inner_of_later later)).1, p.own_mono later owns.2⟩

theorem alike_unit : p.Alike t () () :=
  ⟨rfl, fun _ member => (List.not_mem_nil member).elim⟩

theorem alike_line (line : Option String) : p.Alike t line line :=
  ⟨rfl, fun _ member => (List.not_mem_nil member).elim⟩

section Values

variable {v w : Value} {vs ws : List Value}

theorem alike_of_no_envs (plain : v.envs = []) : p.Alike t v v := by
  refine ⟨(Value.rename_of_no_envs plain).symm, fun e member => ?_⟩
  rw [show Framed.envs v = [] from plain] at member
  cases member

theorem alike_array_iff : p.Alike t (Value.array vs) (.array ws) ↔ p.Alike t vs ws := by
  unfold Alike
  simp only [Framed.rename, Framed.envs, Value.rename_array, Value.envs_array, Value.array.injEq]

theorem alike_nil : p.Alike t ([] : List Value) [] :=
  ⟨rfl, fun _ member => (List.not_mem_nil member).elim⟩

theorem Alike.cons (first : p.Alike t v w) (rest : p.Alike t vs ws) :
    p.Alike t (v :: vs) (w :: ws) := by
  refine ⟨by rw [first.1, rest.1]; rfl, fun e member => ?_⟩
  rcases List.mem_append.mp member with inside | inside
  · exact first.2 e inside
  · exact rest.2 e inside

theorem Alike.uncons (alike : p.Alike t (v :: vs) ws) :
    ∃ w ws', ws = w :: ws' ∧ p.Alike t v w ∧ p.Alike t vs ws' :=
  ⟨_, _, alike.1, ⟨rfl, fun e inside => alike.2 e (List.mem_append_left _ inside)⟩,
    ⟨rfl, fun e inside => alike.2 e (List.mem_append_right _ inside)⟩⟩

theorem Alike.length_eq (alike : p.Alike t vs ws) : ws.length = vs.length := by
  rw [alike.1]
  exact List.length_map _

theorem Alike.isTruthy_eq (alike : p.Alike t v w) : w.isTruthy = v.isTruthy := by
  rw [alike.1]
  exact Value.isTruthy_rename _ v

theorem Alike.toText_eq (alike : p.Alike t vs ws) : ws.map Value.toText = vs.map Value.toText := by
  rw [alike.1]
  exact List.map_map.trans (List.map_congr_left fun v _ => Value.toText_rename _ v)

theorem Alike.separates (alike : p.Alike t v w) {v' w' : Value} (alike' : p.Alike t v' w') :
    Value.Separates (p.rename t) v v' :=
  fun i inside j inside' => p.distinct (alike.2 i inside) (alike'.2 j inside')

theorem Alike.sees {f : FuncId} {env : ScopeId}
    (alike : p.Alike t (Value.function (.closure f env)) w) :
    w = .function (.closure f (p.rename t env)) ∧ p.Sees t env (p.rename t env) :=
  ⟨alike.1, rfl, p.live_of_home (alike.2 env List.mem_cons_self)⟩

end Values

end Pairing

/-- How computations of two runs belong together. The second run has its names spelled by `spell`
and its nodes moved by `r`. Frames are given back by `reclaim` in the first run and by `reclaim'` in
the second. -/
structure Coupling (spell : String → String) (r : Relocation)
    (reclaim reclaim' : Nat → Value → Scopes → Scopes) extends Pairing where
  numbers : ∀ i, r.number .func i = i
  /-- Spans that may stand for each other. -/
  near : Span → Span → Prop
  near_move : ∀ span : Span, near span (span.move r)
  /-- The first run may lack functions that the second has. -/
  lenient : Prop
  holds : {α : Type} → [Framed α] → Time → Eval α → Eval α → Prop
  pure : ∀ {α : Type} [Framed α] {t : Time} {a b : α}, toPairing.Alike t a b →
      holds t (pure a) (pure b)
  bind : ∀ {α β : Type} [Framed α] [Framed β] {t : Time} {m m' : Eval α} {k k' : α → Eval β},
    holds t m m' → (∀ {u a b}, later t u → toPairing.Alike u a b → holds u (k a) (k' b)) →
    holds t (m >>= k) (m' >>= k')
  fail : ∀ {α : Type} [Framed α] {t : Time} (kind : RuntimeErrorKind) {span span' : Span},
    near span span' → holds t (Eval.fail kind span : Eval α) (Eval.fail (kind.respell spell) span')
  missing : lenient → ∀ {t : Time} (f : FuncId) (span : Span) (m' : Eval Value),
    holds t (Eval.fail (.missingFunction f) span) m'
  name : ∀ {t : Time} {i j : ScopeId} (x : String) {span span' : Span}, toPairing.Sees t i j →
    near span span' → holds t (Evaluator.name i x span) (Evaluator.name j (spell x) span')
  closure : ∀ {t : Time} {i j : ScopeId} (func : FuncId), toPairing.Sees t i j →
    holds t (Eval.closure i func) (Eval.closure j func)
  declare : ∀ {t : Time} {i j : ScopeId} (x : String) {v w : Value} (isConst : Bool)
    {span span' : Span}, toPairing.Owns t i j → toPairing.Alike t v w → near span span' →
    holds t (Eval.declare i ⟨x, v, isConst⟩ span) (Eval.declare j ⟨spell x, w, isConst⟩ span')
  assign : ∀ {t : Time} {i j : ScopeId} (x : String) {v w : Value} {span span' : Span},
    toPairing.Sees t i j → toPairing.Alike t v w → near span span' →
    holds t (Eval.assign i x v span) (Eval.assign j (spell x) w span')
  write : ∀ {t : Time} (text : String) {span span' : Span}, near span span' →
    holds t (Eval.write text span) (Eval.write text span')
  readLine : ∀ {t : Time} {span span' : Span}, near span span' →
    holds t (Eval.readLine span) (Eval.readLine span')
  inFrame : ∀ {t : Time} {i j : ScopeId} {body body' : ScopeId → Eval Value}, toPairing.Sees t i j →
    (∀ {u k l}, inner t u → toPairing.Owns u k l → holds u (body k) (body' l)) →
    holds t (Eval.inFrame reclaim i body) (Eval.inFrame reclaim' j body')

namespace Operators

variable {spell : String → String} {kind : RuntimeErrorKind}

theorem integers_nameless {op : BinaryOp} {m n : Int64} (failed : integers op m n = .error kind) :
    kind.respell spell = kind := by
  unfold integers at failed
  split at failed
  case h_4 | h_5 =>
    split at failed
    · cases failed
      rfl
    · cases failed
  all_goals cases failed

theorem floats_nameless {op : BinaryOp} {x y : Float} (failed : floats op x y = .error kind) :
    kind.respell spell = kind := by
  unfold floats at failed
  split at failed
  case h_4 | h_5 =>
    split at failed
    · cases failed
      rfl
    · cases failed
  all_goals cases failed

theorem binary_nameless {op : BinaryOp} {a b : Value} (failed : binary op a b = .error kind) :
    kind.respell spell = kind := by
  unfold binary at failed
  split at failed
  · cases failed
  · cases failed
  · exact integers_nameless failed
  · unfold texts at failed
    split at failed <;> cases failed
    rfl
  · split at failed
    · exact floats_nameless failed
    · cases failed
      rfl

theorem unary_nameless {op : UnaryOp} {a : Value} (failed : unary op a = .error kind) :
    kind.respell spell = kind := by
  unfold unary at failed
  split at failed <;> cases failed
  rfl

theorem index_nameless {target i : Value} (failed : index target i = .error kind) :
    kind.respell spell = kind := by
  unfold index at failed
  split at failed
  · split at failed <;> cases failed
    rfl
  · split at failed <;> cases failed
    rfl
  · cases failed
    rfl

end Operators

namespace Builtin

theorem readInput_many (v u : Value) (rest : List Value) (span : Span) :
    readInput (v :: u :: rest) span =
      Eval.fail (.builtinArity .read "0 or 1" (rest.length + 2)) span := by
  cases v <;> rfl

theorem leave_many (v u : Value) (rest : List Value) (span : Span) :
    leave (v :: u :: rest) span =
      Eval.fail (.builtinArity .exit "0 or 1" (rest.length + 2)) span := by
  cases v <;> rfl

theorem filter_many {enter : Enter} (funcs : Array Func) (v u t : Value) (rest : List Value)
    (span : Span) : filter funcs enter (v :: u :: t :: rest) span =
      Eval.fail (.builtinArity .arrayFilter "2" (rest.length + 3)) span := by
  cases v with
  | array items =>
    cases u with
    | function g => cases g <;> rfl
    | _ => rfl
  | _ => rfl

end Builtin

namespace Coupling

variable {spell : String → String} {r : Relocation}
  {reclaim reclaim' : Nat → Value → Scopes → Scopes} {c : Coupling spell r reclaim reclaim'}
  {t : c.Time} {span span' : Span}

theorem null : c.holds t (Pure.pure Value.null : Eval Value) (Pure.pure .null) :=
  c.pure (Pairing.alike_of_no_envs rfl)

theorem ofExcept {x y : Except RuntimeErrorKind Value} (near : c.near span span')
    (same : y = x.map (Value.rename (c.rename t)))
    (home : ∀ v, x = .ok v → ∀ e ∈ v.envs, c.home t e)
    (nameless : ∀ {kind}, x = .error kind → kind.respell spell = kind) :
    c.holds t (Eval.ofExcept span x) (Eval.ofExcept span' y) := by
  subst same
  cases x with
  | ok v => exact c.pure ⟨rfl, home v rfl⟩
  | error kind =>
    have failed : c.holds t (Eval.fail kind span : Eval Value)
        (Eval.fail (kind.respell spell) span') :=
      c.fail kind near
    rwa [nameless rfl] at failed

/-- An operator whose result is the same in both runs since it holds no closure. -/
theorem ofExcept_plain {x y : Except RuntimeErrorKind Value} (near : c.near span span')
    (same : y = x) (plain : ∀ v, x = .ok v → v.envs = [])
    (nameless : ∀ {kind}, x = .error kind → kind.respell spell = kind) :
    c.holds t (Eval.ofExcept span x) (Eval.ofExcept span' y) := by
  apply ofExcept near _ _ nameless
  · rw [same]
    cases x with
    | ok v => exact congrArg Except.ok (Value.rename_of_no_envs (plain v rfl)).symm
    | error kind => rfl
  · intro v done e member
    rw [plain v done] at member
    cases member

section Builtins

variable {vs ws : List Value} (alike : c.Alike t vs ws) (near : c.near span span')

include near

theorem takeInput : c.holds t (Builtin.takeInput span) (Builtin.takeInput span') := by
  refine c.bind (c.readLine near) fun {u line line'} _ same => ?_
  obtain rfl : line' = line := same.1
  cases line' with
  | some text => exact c.pure (Pairing.alike_of_no_envs rfl)
  | none => exact null

include alike

theorem writeAll (ending : String) :
    c.holds t (Builtin.writeAll vs ending span) (Builtin.writeAll ws ending span') := by
  unfold Builtin.writeAll
  rw [alike.toText_eq]
  exact c.bind (c.write _ near) fun _ _ => null

theorem readInput : c.holds t (Builtin.readInput vs span) (Builtin.readInput ws span') := by
  obtain ⟨rfl, -⟩ := alike
  rcases vs with _ | ⟨v, _ | ⟨u, rest⟩⟩
  · exact takeInput near
  · cases v with
    | text prompt => exact c.bind (c.write prompt near) fun _ _ => takeInput near
    | _ => exact c.fail _ near
  · simp only [Framed.rename, List.map_cons, Builtin.readInput_many, List.length_map]
    exact c.fail _ near

theorem leave : c.holds t (Builtin.leave vs span) (Builtin.leave ws span') := by
  obtain ⟨rfl, -⟩ := alike
  rcases vs with _ | ⟨v, _ | ⟨u, rest⟩⟩
  · exact c.fail _ near
  · cases v with
    | integer n =>
      simp only [Framed.rename, Builtin.leave, List.map_cons, List.map_nil, Value.rename]
      split
      · exact c.fail _ near
      · exact c.fail _ near
    | _ => exact c.fail _ near
  · simp only [Framed.rename, List.map_cons, Builtin.leave_many, List.length_map]
    exact c.fail _ near

theorem perform (b : Builtin) : c.holds t (b.perform vs span) (b.perform ws span') := by
  cases b with
  | println => exact writeAll alike near "\n"
  | print => exact writeAll alike near ""
  | array | vector => exact c.pure (Pairing.alike_array_iff.mpr alike)
  | arrayFilter =>
    simp only [Builtin.perform, Builtin.wrongCount, alike.length_eq]
    exact c.fail _ near
  | read => exact readInput alike near
  | exit => exact leave alike near

omit near

/-- Items are held while a test runs on one of them. They were made before, so they stay usable. -/
theorem keepItems {test test' : Value → Eval Value}
    (tests : ∀ {u v w}, c.later t u → c.Alike u v w → c.holds u (test v) (test' w)) :
    c.holds t (Builtin.keepItems test vs) (Builtin.keepItems test' ws) := by
  induction vs generalizing t ws with
  | nil =>
    obtain ⟨rfl, -⟩ := alike
    exact c.pure Pairing.alike_nil
  | cons v vs ih =>
    obtain ⟨w, ws, rfl, first, rest⟩ := alike.uncons
    refine c.bind (tests (c.later_refl t) first) fun {u kept kept'} later answer => ?_
    have inner := c.inner_of_later later
    refine c.bind (ih (rest.mono inner) fun more => tests (c.later_trans later more)) ?_
    intro u' items items' more kept_items
    rw [answer.isTruthy_eq]
    apply c.pure
    split
    · exact ((first.mono inner).mono (c.inner_of_later more)).cons kept_items
    · exact kept_items

theorem kept {test test' : Value → Eval Value}
    (tests : ∀ {u v w}, c.later t u → c.Alike u v w → c.holds u (test v) (test' w)) :
    c.holds t (do return Value.array (← Builtin.keepItems test vs))
      (do return .array (← Builtin.keepItems test' ws)) :=
  c.bind (keepItems alike tests) fun _ kept => c.pure (Pairing.alike_array_iff.mpr kept)

end Builtins

variable (c)

def Enters (enter enter' : Builtin.Enter) : Prop :=
  ∀ ⦃t f env env' vs ws span span'⦄, c.Sees t env env' → c.Alike t vs ws → c.near span span' →
    c.holds t (enter f env vs span) (enter' f env' ws span')

def Functions (funcs funcs' : Array Func) : Prop :=
  ∀ f : FuncId, (∃ func, funcs[f]? = some func ∧ funcs'[f]? = some ((func.respell spell).move r)) ∨
    funcs[f]? = none ∧ (funcs'[f]? = none ∨ c.lenient)

structure RulesHold (rules rules' : Rules) : Prop where
  first : rules.reclaim = reclaim
  second : rules'.reclaim = reclaim'
  call : ∀ ⦃t g g' vs ws span span'⦄, c.Alike t (Value.function g) (.function g') →
    c.Alike t vs ws → c.near span span' →
    c.holds t (rules.call g vs span) (rules'.call g' ws span')

variable {c}

section Trees

variable {rules rules' : Rules} {i j : ScopeId}

mutual

theorem RulesHold.expr (same : c.RulesHold rules rules') {t : c.Time} (sees : c.Sees t i j) :
    (e : Expr) → c.holds t (Evaluator.expr rules i e)
      (Evaluator.expr rules' j ((e.respell spell).move r))
  | .literal _ v => by cases v <;> exact c.pure (Pairing.alike_of_no_envs rfl)
  | .name node x => c.name x sees (c.near_move node.span)
  | .binary node op a b =>
    c.bind (same.expr sees a) fun later left =>
      c.bind (same.expr (sees.mono (c.inner_of_later later)) b) fun more right => by
        have left' := left.mono (c.inner_of_later more)
        rw [left'.1, right.1]
        exact ofExcept_plain (c.near_move node.span)
          (Operators.binary_rename op _ _ (left'.separates right))
          (fun _ => Operators.binary_no_envs) Operators.binary_nameless
  | .unary node op a =>
    c.bind (same.expr sees a) fun _ operand => by
      rw [operand.1]
      exact ofExcept_plain (c.near_move node.span) (Operators.unary_rename _ op _)
        (fun _ => Operators.unary_no_envs) Operators.unary_nameless
  | .call node f args =>
    c.bind (same.expr sees f) fun {_ v _} later callee =>
      c.bind (same.exprs (sees.mono (c.inner_of_later later)) args) fun more values => by
        have held := callee.mono (c.inner_of_later more)
        have named := held.1
        subst named
        cases v with
        | function g => exact same.call held values (c.near_move node.span)
        | _ => exact c.fail _ (c.near_move node.span)
  | .array _ items =>
    c.bind (same.exprs sees items) fun _ values => c.pure (Pairing.alike_array_iff.mpr values)
  | .index node a k =>
    c.bind (same.expr sees a) fun later target =>
      c.bind (same.expr (sees.mono (c.inner_of_later later)) k) fun more key => by
        have target' := target.mono (c.inner_of_later more)
        rw [target'.1, key.1]
        exact ofExcept (c.near_move node.span) (Operators.index_rename _ _ _)
          (fun _ done e member => target'.2 e (Operators.index_envs done e member))
          Operators.index_nameless
  | .function _ f => by
    simp only [Evaluator.expr, Expr.respell, Expr.move, Func.id_move, Func.id_respell, c.numbers]
    exact c.closure f.id sees

theorem RulesHold.exprs (same : c.RulesHold rules rules') {t : c.Time} (sees : c.Sees t i j) :
    (es : List Expr) → c.holds t (Evaluator.exprs rules i es)
      (Evaluator.exprs rules' j (Expr.moveAll r (Expr.respellAll spell es)))
  | [] => c.pure Pairing.alike_nil
  | e :: es =>
    c.bind (same.expr sees e) fun later first =>
      c.bind (same.exprs (sees.mono (c.inner_of_later later)) es) fun more rest =>
        c.pure ((first.mono (c.inner_of_later more)).cons rest)

end

/-- What is made a variable is also the value of the statement. -/
theorem declared {m m' : Eval Value} (holds : c.holds t m m') (owns : c.Owns t i j) (x : String)
    (isConst : Bool) (near : c.near span span') :
    c.holds t (do let v ← m; Eval.declare i ⟨x, v, isConst⟩ span; return v)
      (do let v ← m'; Eval.declare j ⟨spell x, v, isConst⟩ span'; return v) :=
  c.bind holds fun later value =>
    c.bind (c.declare x isConst (owns.mono later) value near) fun more _ =>
      c.pure (value.mono (c.inner_of_later more))

mutual

theorem RulesHold.stmt (same : c.RulesHold rules rules') {t : c.Time} {i j : ScopeId}
    (owns : c.Owns t i j) : (s : Stmt) → c.holds t (Evaluator.stmt rules i s)
      (Evaluator.stmt rules' j ((s.respell spell).move r))
  | .expr _ e => same.expr owns.sees e
  | .declare node x e isConst =>
    declared (same.expr owns.sees e) owns x isConst (c.near_move node.span)
  | .assign node x e =>
    c.bind (same.expr owns.sees e) fun later value =>
      c.bind (c.assign x (owns.sees.mono (c.inner_of_later later)) value (c.near_move node.span))
        fun more _ => c.pure (value.mono (c.inner_of_later more))
  | .function node x f => by
    simp only [Evaluator.stmt, Stmt.respell, Stmt.move, Func.id_move, Func.id_respell, c.numbers]
    exact declared (c.closure f.id owns.sees) owns x false (c.near_move node.span)
  | .block _ b => by
    simp only [Evaluator.stmt, Stmt.respell, Stmt.move, same.first, same.second]
    exact c.inFrame owns.sees fun _ child => same.block child b

theorem RulesHold.stmts (same : c.RulesHold rules rules') {t : c.Time} {i j : ScopeId}
    (owns : c.Owns t i j) {last last' : Value} (value : c.Alike t last last') :
    (ss : List Stmt) → c.holds t (Evaluator.stmts rules i last ss)
      (Evaluator.stmts rules' j last' (Stmt.moveAll r (Stmt.respellAll spell ss)))
  | [] => c.pure value
  | s :: ss => c.bind (same.stmt owns s) fun later next => same.stmts (owns.mono later) next ss

theorem RulesHold.block (same : c.RulesHold rules rules') {t : c.Time} {i j : ScopeId}
    (owns : c.Owns t i j) : (b : Block) → c.holds t (Evaluator.block rules i b)
      (Evaluator.block rules' j ((b.respell spell).move r))
  | .mk _ ss => same.stmts owns (Pairing.alike_of_no_envs rfl) ss

end

end Trees

theorem bindParams {i j : ScopeId} (owns : c.Owns t i j) (near : c.near span span')
    (params : List String) {vs ws : List Value} (alike : c.Alike t vs ws) :
    c.holds t (Evaluator.bindParams i span params vs)
      (Evaluator.bindParams j span' (params.map spell) ws) := by
  induction params generalizing t vs ws with
  | nil => exact c.pure Pairing.alike_unit
  | cons p ps ih =>
    cases vs with
    | nil =>
      obtain ⟨rfl, -⟩ := alike
      exact c.pure Pairing.alike_unit
    | cons v vs =>
      obtain ⟨w, ws, rfl, first, rest⟩ := alike.uncons
      exact c.bind (c.declare p false owns first near) fun later _ =>
        ih (owns.mono later) (rest.mono (c.inner_of_later later))

section Calls

variable {funcs funcs' : Array Func} (functions : c.Functions funcs funcs')
  {enter enter' : Builtin.Enter} (enters : c.Enters enter enter')
  {vs ws : List Value} (alike : c.Alike t vs ws) (near : c.near span span')

include functions enters alike near

theorem filter : c.holds t (Builtin.filter funcs enter vs span)
    (Builtin.filter funcs' enter' ws span') := by
  rcases vs with _ | ⟨v, _ | ⟨u, _ | ⟨x, rest⟩⟩⟩
  · obtain ⟨rfl, -⟩ := alike
    exact c.fail _ near
  · obtain ⟨rfl, -⟩ := alike
    cases v <;> exact c.fail _ near
  · obtain ⟨v', _, rfl, first, alike⟩ := alike.uncons
    obtain ⟨u', _, rfl, second, alike⟩ := alike.uncons
    obtain rfl := alike.1
    cases v with
    | array items =>
      obtain ⟨items', rfl⟩ : ∃ items', v' = .array items' := ⟨_, first.1⟩
      have given := Pairing.alike_array_iff.mp first
      cases u with
      | function g =>
        cases g with
        | builtin b =>
          obtain rfl := second.1
          exact kept given fun _ item => perform (item.cons Pairing.alike_nil) near b
        | closure f env =>
          obtain ⟨rfl, sees⟩ := second.sees
          simp only [Framed.rename, List.map_nil, Builtin.filter]
          rcases functions f with ⟨func, found, found'⟩ | ⟨none, none' | lenient⟩
          · simp only [found, found', Func.params_move, Func.params_respell]
            rcases func.params with _ | ⟨q, _ | ⟨q', qs⟩⟩
            · exact kept given fun later _ =>
                enters (sees.mono (c.inner_of_later later)) Pairing.alike_nil near
            · exact kept given fun later item =>
                enters (sees.mono (c.inner_of_later later)) (item.cons Pairing.alike_nil) near
            · exact c.fail _ near
          · simp only [none, none']
            exact c.fail _ near
          · simp only [none]
            exact c.missing lenient f span _
      | _ =>
        obtain rfl := second.1
        exact c.fail _ near
    | _ =>
      obtain rfl := first.1
      obtain rfl := second.1
      cases u <;> exact c.fail _ near
  · obtain ⟨rfl, -⟩ := alike
    simp only [Framed.rename, List.map_cons, Builtin.filter_many, List.length_map]
    exact c.fail _ near

theorem call {g g' : Callable} (callee : c.Alike t (Value.function g) (.function g')) :
    c.holds t (Evaluator.call funcs enter g vs span)
      (Evaluator.call funcs' enter' g' ws span') := by
  cases g with
  | closure f env =>
    obtain ⟨named, sees⟩ := callee.sees
    cases named
    exact enters sees alike near
  | builtin b =>
    cases callee.1
    cases b with
    | arrayFilter => exact filter functions enters alike near
    | _ =>
      simp only [Evaluator.call, Callable.rename]
      exact perform alike near _

omit alike near

theorem Enters.rules : c.RulesHold ⟨Evaluator.call funcs enter, reclaim⟩
    ⟨Evaluator.call funcs' enter', reclaim'⟩ :=
  ⟨rfl, rfl, fun _ _ _ _ _ _ _ callee alike near => call functions enters alike near callee⟩

end Calls

section Entering

variable {funcs funcs' : Array Func} (functions : c.Functions funcs funcs')

include functions

/-- If calls inside a call belong together, so does the call itself. -/
theorem enter_succ {d d' : Nat}
    (inner : c.Enters (Evaluator.enter funcs reclaim d) (Evaluator.enter funcs' reclaim' d')) :
    c.Enters (Evaluator.enter funcs reclaim (d + 1))
      (Evaluator.enter funcs' reclaim' (d' + 1)) := by
  intro t f env env' vs ws span span' sees alike near
  have rules := Enters.rules functions inner
  simp only [Evaluator.enter]
  rcases functions f with ⟨func, found, found'⟩ | ⟨none, none' | lenient⟩
  · simp only [found, found', Func.params_move, Func.params_respell, Func.body_move,
      Func.body_respell, List.length_map, alike.length_eq]
    split
    · exact c.fail _ near
    · refine c.inFrame sees fun inside owns => ?_
      refine c.bind (bindParams owns near func.params (alike.mono inside)) fun later _ => ?_
      cases func.body with
      | block b => exact rules.block (owns.mono later) b
      | expr e => exact rules.expr (owns.mono later).sees e
  · simp only [none, none']
    exact c.fail _ near
  · simp only [none]
    exact c.missing lenient f span _

theorem enter_same (depth : Nat) :
    c.Enters (Evaluator.enter funcs reclaim depth) (Evaluator.enter funcs' reclaim' depth) := by
  induction depth with
  | zero =>
    intro t f env env' vs ws span span' sees alike near
    simp only [Evaluator.enter]
    rcases functions f with ⟨func, found, found'⟩ | ⟨none, none' | lenient⟩
    · simp only [found, found', Func.params_move, Func.params_respell, List.length_map,
        alike.length_eq]
      split <;> exact c.fail _ near
    · simp only [none, none']
      exact c.fail _ near
    · simp only [none]
      exact c.missing lenient f span _
  | succ depth ih => exact enter_succ functions ih

theorem rulesFor (depth : Nat) : c.RulesHold (Evaluator.rulesFor funcs reclaim depth)
    (Evaluator.rulesFor funcs' reclaim' depth) :=
  Enters.rules functions (enter_same functions depth)

end Entering

end Coupling

structure PlainCoupling (spell : String → String) (r : Relocation)
    (reclaim : Nat → Value → Scopes → Scopes) where
  numbers : ∀ i, r.number .func i = i
  near : Span → Span → Prop
  near_move : ∀ span : Span, near span (span.move r)
  lenient : Prop
  holds : {α : Type} → Eval α → Eval α → Prop
  pure : ∀ {α : Type} (a : α), holds (pure a) (pure a)
  bind : ∀ {α β : Type} {m m' : Eval α} {k k' : α → Eval β}, holds m m' →
    (∀ a, holds (k a) (k' a)) → holds (m >>= k) (m' >>= k')
  fail : ∀ {α : Type} (kind : RuntimeErrorKind) {span span' : Span}, near span span' →
    holds (Eval.fail kind span : Eval α) (Eval.fail (kind.respell spell) span')
  missing : lenient → ∀ (f : FuncId) (span : Span) (m' : Eval Value),
    holds (Eval.fail (.missingFunction f) span) m'
  name : ∀ (scope : ScopeId) (x : String) {span span' : Span}, near span span' →
    holds (Evaluator.name scope x span) (Evaluator.name scope (spell x) span')
  closure : ∀ (scope : ScopeId) (func : FuncId),
    holds (Eval.closure scope func) (Eval.closure scope func)
  declare : ∀ (scope : ScopeId) (b : Binding) {span span' : Span}, near span span' →
    holds (Eval.declare scope b span) (Eval.declare scope (b.respell spell) span')
  assign : ∀ (scope : ScopeId) (x : String) (v : Value) {span span' : Span}, near span span' →
    holds (Eval.assign scope x v span) (Eval.assign scope (spell x) v span')
  write : ∀ (text : String) {span span' : Span}, near span span' →
    holds (Eval.write text span) (Eval.write text span')
  readLine : ∀ {span span' : Span}, near span span' →
    holds (Eval.readLine span) (Eval.readLine span')
  inFrame : ∀ (parent : ScopeId) {body body' : ScopeId → Eval Value},
    (∀ frame, holds (body frame) (body' frame)) →
    holds (Eval.inFrame reclaim parent body) (Eval.inFrame reclaim parent body')

/-- All frames belong together with themselves, whenever. -/
def Pairing.same : Pairing where
  Time := Unit
  later _ _ := True
  inner _ _ := True
  rename _ := id
  live _ _ := True
  home _ _ := True
  own _ _ := True
  later_refl _ := trivial
  later_trans _ _ := trivial
  inner_of_later _ := trivial
  live_of_home _ := trivial
  live_of_own _ := trivial
  live_mono _ _ := trivial
  home_mono _ _ := trivial
  own_mono _ _ := trivial
  rename_eq _ _ := rfl
  distinct _ _ same := same

theorem Pairing.alike_same_iff {α : Type} [Framed α] {t : Unit} {a b : α} :
    Pairing.same.Alike t a b ↔ b = a := by
  have home : ∀ e ∈ Framed.envs a, Pairing.same.home t e := fun _ _ => trivial
  have kept : Framed.rename (Pairing.same.rename t) a = a := Framed.rename_id a
  unfold Alike
  rw [and_iff_left home, kept]

namespace PlainCoupling

variable {spell : String → String} {r : Relocation} {reclaim : Nat → Value → Scopes → Scopes}
  (p : PlainCoupling spell r reclaim)

def coupling : Coupling spell r reclaim reclaim where
  toPairing := .same
  numbers := p.numbers
  near := p.near
  near_move := p.near_move
  lenient := p.lenient
  holds _ m m' := p.holds m m'
  pure alike := by
    obtain rfl := Pairing.alike_same_iff.mp alike
    exact p.pure _
  bind first next := p.bind first fun a => next (u := ()) trivial (Pairing.alike_same_iff.mpr rfl)
  fail kind _ _ near := p.fail kind near
  missing lenient := p.missing lenient
  name x _ _ sees near := by
    obtain rfl := sees.1
    exact p.name _ x near
  closure func sees := by
    obtain rfl := sees.1
    exact p.closure _ func
  declare x _ _ isConst _ _ owns alike near := by
    obtain rfl := owns.1
    obtain rfl := Pairing.alike_same_iff.mp alike
    exact p.declare _ ⟨x, _, isConst⟩ near
  assign x _ _ _ _ sees alike near := by
    obtain rfl := sees.1
    obtain rfl := Pairing.alike_same_iff.mp alike
    exact p.assign _ x _ near
  write text _ _ near := p.write text near
  readLine near := p.readLine near
  inFrame sees inside := by
    obtain rfl := sees.1
    exact p.inFrame _ fun frame => inside (u := ()) trivial ⟨rfl, trivial⟩

def Enters (enter enter' : Builtin.Enter) : Prop :=
  ∀ f env args {span span'}, p.near span span' →
    p.holds (enter f env args span) (enter' f env args span')

variable {p}

theorem enters_iff {enter enter' : Builtin.Enter} :
    p.coupling.Enters enter enter' ↔ p.Enters enter enter' := by
  constructor
  · intro enters f env args span span' near
    exact enters (t := ()) ⟨rfl, trivial⟩ (Pairing.alike_same_iff.mpr rfl) near
  · rintro enters _ f env _ args _ span span' ⟨rfl, -⟩ alike near
    obtain rfl := Pairing.alike_same_iff.mp alike
    exact enters f _ _ near

theorem functions_map (funcs : Array Func) :
    p.coupling.Functions funcs (funcs.map fun f => (f.respell spell).move r) := by
  intro f
  rw [Array.getElem?_map]
  cases found : funcs[f]? with
  | some func => exact .inl ⟨func, rfl, rfl⟩
  | none => exact .inr ⟨rfl, .inl rfl⟩

theorem block {rules rules' : Rules} (same : p.coupling.RulesHold rules rules') (scope : ScopeId)
    (b : Block) : p.holds (Evaluator.block rules scope b)
      (Evaluator.block rules' scope ((b.respell spell).move r)) :=
  same.block (t := ()) ⟨rfl, trivial⟩ b

end PlainCoupling

end ScriptKit
