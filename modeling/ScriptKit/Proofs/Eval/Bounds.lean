import ScriptKit.Proofs.Eval.Builtins
import ScriptKit.Proofs.Eval.Stepwise
import ScriptKit.Proofs.Scope.Sound
import ScriptKit.Proofs.Tree.Catalogue

/-! No step asks for a node or a frame that does not exist.

What stands on the stack below the mark of a frame speaks only of frames below that mark. These are
left alone when frames from the mark on are given back, so it can be taken up again afterwards. -/

namespace ScriptKit

namespace Stepwise
open Scopes (Held Retains held_plain held_array)

structure Refs where
  nodes : List (Family × Nat) := []
  frames : List ScopeId := []
  values : List Value := []

def Control.refs : Control → Refs
  | .expr scope id => { nodes := [(.expr, id)], frames := [scope] }
  | .stmt scope id => { nodes := [(.stmt, id)], frames := [scope] }
  | .block scope id | .nest scope id => { nodes := [(.block, id)], frames := [scope] }
  | .seek frame _ (.read _) => { frames := [frame] }
  | .seek frame _ (.write v _) => { frames := [frame], values := [v] }
  | .capture scope func => { nodes := [(.func, func)], frames := [scope] }
  | .declare scope b _ => { frames := [scope], values := [b.value] }
  | .call g args _ => { values := .function g :: args }
  | .bind frame func _ args _ => { nodes := [(.func, func)], frames := [frame], values := args }
  | .value v => { values := [v] }
  | .error _ => {}

def Use.values : Use → List Value
  | .array => []
  | .call callee _ => [callee]

def Waiting.refs : Waiting → Refs
  | .rightOperand scope _ rhs _ => { nodes := [(.expr, rhs)], frames := [scope] }
  | .binary _ lhs _ => { values := [lhs] }
  | .unary .. => {}
  | .callee scope args _ => { nodes := args.map (Family.expr, ·), frames := [scope] }
  | .gather scope use done rest =>
    { nodes := rest.map (Family.expr, ·), frames := [scope], values := use.values ++ done }
  | .key scope id _ => { nodes := [(.expr, id)], frames := [scope] }
  | .index target _ => { values := [target] }
  | .declare scope .. | .assign scope .. => { frames := [scope] }
  | .stmts scope rest => { nodes := rest.map (Family.stmt, ·), frames := [scope] }
  | .filter predicate _ _ item kept rest =>
    { values := .function predicate :: item :: (kept ++ rest) }
  | .frame .. => {}

/-- The nodes exist, the frames are below `bound`, and so are the homes of all closures. -/
def Refs.Fine (ast : Ast) (s : Scopes) (bound : Nat) (r : Refs) : Prop :=
  (∀ n ∈ r.nodes, n.2 < ast.count n.1) ∧ (∀ i ∈ r.frames, i < bound) ∧
    ∀ v ∈ r.values, Held ast.funcs.size s bound v

/-- What stands below on the stack speaks of frames below this bound. -/
def Waiting.floor (bound : Nat) : Waiting → Nat
  | .frame mark _ => mark
  | _ => bound

def Stacked (ast : Ast) (s : Scopes) : Nat → List Waiting → Prop
  | _, [] => True
  | bound, k :: ks => k.refs.Fine ast s bound ∧ 0 < k.floor bound ∧ k.floor bound ≤ bound ∧
    Stacked ast s (k.floor bound) ks

structure Config.Sound (ast : Ast) (c : Config) : Prop where
  scopes : c.world.scopes.Sound ast.funcs.size
  control : c.control.refs.Fine ast c.world.scopes c.world.scopes.size
  stack : Stacked ast c.world.scopes c.world.scopes.size c.stack

def Step.Safe (ast : Ast) : Step → Prop
  | .next c => c.Sound ast
  | .ended answer w => w.scopes.Sound ast.funcs.size ∧
    ∀ v, answer = .ok v → Held ast.funcs.size w.scopes w.scopes.size v
  | .dangling => False

section Monotone

variable {ast : Ast} {s t : Scopes} {bound bound' : Nat}

theorem Refs.Fine.mono {r : Refs} (fine : r.Fine ast s bound) (retains : Retains bound s t)
    (wider : bound ≤ bound') : r.Fine ast t bound' :=
  ⟨fine.1, fun i member => Nat.lt_of_lt_of_le (fine.2.1 i member) wider,
    fun v member => (fine.2.2 v member).mono retains wider⟩

theorem Stacked.mono {ks : List Waiting} (stacked : Stacked ast s bound ks)
    (retains : Retains bound s t) (wider : bound ≤ bound') : Stacked ast t bound' ks := by
  induction ks generalizing bound bound' with
  | nil => trivial
  | cons k ks ih =>
    obtain ⟨fine, positive, low, rest⟩ := stacked
    refine ⟨fine.mono retains wider, ?_⟩
    have below : Retains (k.floor bound) s t := fun i inside => retains i (by omega)
    cases k with
    | frame mark isCall => exact ⟨positive, Nat.le_trans low wider, ih rest below (Nat.le_refl _)⟩
    | _ => exact ⟨Nat.lt_of_lt_of_le positive wider, Nat.le_refl _, ih rest below wider⟩

end Monotone

/-- The plan speaks of nothing that does not exist, and gives no frames back. -/
def Fits (ast : Ast) (s : Scopes) (bound : Nat) (plan : Plan) : Prop :=
  plan.1.refs.Fine ast s bound ∧ ∀ k ∈ plan.2, k.refs.Fine ast s bound ∧ k.floor bound = bound

section Plans

variable {ast : Ast} {s : Scopes} {bound : Nat} {scope : ScopeId} {span : Span}

theorem fine_values {vs : List Value} (held : ∀ v ∈ vs, Held ast.funcs.size s bound v) :
    Refs.Fine ast s bound { values := vs } :=
  ⟨List.forall_mem_nil _, List.forall_mem_nil _, held⟩

theorem fine_scope (inside : scope < bound) : Refs.Fine ast s bound { frames := [scope] } :=
  ⟨List.forall_mem_nil _, List.forall_mem_singleton.mpr inside, List.forall_mem_nil _⟩

theorem fine_node {family : Family} {id : Nat} (known : id < ast.count family)
    (inside : scope < bound) :
    Refs.Fine ast s bound { nodes := [(family, id)], frames := [scope] } :=
  ⟨List.forall_mem_singleton.mpr known, List.forall_mem_singleton.mpr inside, List.forall_mem_nil _⟩

theorem fine_nodes {family : Family} {ids : List Nat} {vs : List Value}
    (known : ∀ i ∈ ids, i < ast.count family) (inside : scope < bound)
    (held : ∀ v ∈ vs, Held ast.funcs.size s bound v) :
    Refs.Fine ast s bound { nodes := ids.map (family, ·), frames := [scope], values := vs } :=
  ⟨List.forall_mem_map.mpr known, List.forall_mem_singleton.mpr inside, held⟩

theorem fits_alone {control : Control} (fine : control.refs.Fine ast s bound) :
    Fits ast s bound (control, []) :=
  ⟨fine, List.forall_mem_nil _⟩

theorem fits_waiting {control : Control} {k : Waiting} (fine : control.refs.Fine ast s bound)
    (waits : k.refs.Fine ast s bound) (floor : k.floor bound = bound) :
    Fits ast s bound (control, [k]) :=
  ⟨fine, List.forall_mem_singleton.mpr ⟨waits, floor⟩⟩

theorem fits_fail (kind : RuntimeErrorKind) (span : Span) : Fits ast s bound (fail kind span, []) :=
  fits_alone (fine_values (List.forall_mem_nil _))

theorem fits_value {v : Value} (held : Held ast.funcs.size s bound v) :
    Fits ast s bound (.value v, []) :=
  fits_alone (fine_values (List.forall_mem_singleton.mpr held))

theorem fits_ofExcept {r : Except RuntimeErrorKind Value}
    (held : ∀ v, r = .ok v → Held ast.funcs.size s bound v) :
    Fits ast s bound (ofExcept span r, []) := by
  cases r with
  | error kind => exact fits_fail kind span
  | ok v => exact fits_value (held v rfl)

theorem fits_gather {use : Use} {done : List Value} {rest : List Nat} (inside : scope < bound)
    (callee : ∀ v ∈ use.values, Held ast.funcs.size s bound v)
    (values : ∀ v ∈ done, Held ast.funcs.size s bound v) (known : ∀ e ∈ rest, e < ast.exprs.size) :
    Fits ast s bound (gather scope use done rest) := by
  cases rest with
  | cons e es =>
    obtain ⟨first, others⟩ := List.forall_mem_cons.mp known
    exact fits_waiting (fine_node first inside)
      (fine_nodes others inside (List.forall_mem_append.mpr ⟨callee, values⟩)) rfl
  | nil =>
    cases use with
    | array => exact fits_value (held_array.mpr values)
    | call v span =>
      have callee := callee v (List.mem_singleton_self v)
      cases v with
      | function g => exact fits_alone (fine_values (List.forall_mem_cons.mpr ⟨callee, values⟩))
      | _ => exact fits_fail _ span

theorem fits_filterNext {g : Callable} {takesItem : Bool} {kept rest : List Value}
    (predicate : Held ast.funcs.size s bound (.function g))
    (chosen : ∀ v ∈ kept, Held ast.funcs.size s bound v)
    (items : ∀ v ∈ rest, Held ast.funcs.size s bound v) :
    Fits ast s bound (filterNext g takesItem span kept rest) := by
  cases rest with
  | nil => exact fits_value (held_array.mpr chosen)
  | cons v vs =>
    obtain ⟨item, others⟩ := List.forall_mem_cons.mp items
    have given : ∀ w ∈ (if takesItem then [v] else []), Held ast.funcs.size s bound w := by
      cases takesItem
      · exact List.forall_mem_nil _
      · exact List.forall_mem_singleton.mpr item
    have pending := List.forall_mem_append.mpr ⟨chosen, others⟩
    refine fits_waiting (fine_values (List.forall_mem_cons.mpr ⟨predicate, given⟩))
      (fine_values ?_) rfl
    exact List.forall_mem_cons.mpr ⟨predicate, List.forall_mem_cons.mpr ⟨item, pending⟩⟩

theorem fits_planExpr (closed : ast.Closed) {e : Expr} (has : ast.Has (.expr e))
    (inside : scope < bound) : Fits ast s bound (planExpr scope e) := by
  have parts := fun q member => (closed.parts _ has q member).lt
  cases e with
  | literal node v => exact fits_value (held_plain (by cases v <;> rfl))
  | name node x => exact fits_alone (fine_scope inside)
  | binary node op a b =>
    have left := parts (.expr a) (by simp [Part.parts, Part.ofExpr])
    have right := parts (.expr b) (by simp [Part.parts, Part.ofExpr])
    exact fits_waiting (fine_node left inside) (fine_node right inside) rfl
  | unary node op a =>
    have operand := parts (.expr a) (by simp [Part.parts, Part.ofExpr])
    exact fits_waiting (fine_node operand inside) (fine_values (List.forall_mem_nil _)) rfl
  | call node f args =>
    have callee := parts (.expr f) (by simp [Part.parts, Part.ofExpr])
    have known : ∀ i ∈ args.map (·.id), i < ast.exprs.size :=
      List.forall_mem_map.mpr fun a member =>
      parts (.expr a) (by simp [Part.parts, Part.ofExpr, member])
    exact fits_waiting (fine_node callee inside)
      (fine_nodes known inside (List.forall_mem_nil _)) rfl
  | array node items =>
    have known : ∀ i ∈ items.map (·.id), i < ast.exprs.size :=
      List.forall_mem_map.mpr fun a member =>
      parts (.expr a) (by simp [Part.parts, Part.ofExpr, member])
    exact fits_gather inside (List.forall_mem_nil _) (List.forall_mem_nil _) known
  | index node a i =>
    have target := parts (.expr a) (by simp [Part.parts, Part.ofExpr])
    have key := parts (.expr i) (by simp [Part.parts, Part.ofExpr])
    exact fits_waiting (fine_node target inside) (fine_node key inside) rfl
  | function node f =>
    have func := parts (.func f) (by simp [Part.parts, Part.ofExpr])
    exact fits_alone (fine_node func inside)

theorem fits_planStmt (closed : ast.Closed) {st : Stmt} (has : ast.Has (.stmt st))
    (inside : scope < bound) : Fits ast s bound (planStmt scope st) := by
  have parts := fun q member => (closed.parts _ has q member).lt
  cases st with
  | expr id e =>
    have value := parts (.expr e) (by simp [Part.parts, Part.ofStmt])
    exact fits_alone (fine_node value inside)
  | declare node x e isConst | assign node x e =>
    have value := parts (.expr e) (by simp [Part.parts, Part.ofStmt])
    exact fits_waiting (fine_node value inside) (fine_scope inside) rfl
  | function node x f =>
    have func := parts (.func f) (by simp [Part.parts, Part.ofStmt])
    exact fits_waiting (fine_node func inside) (fine_scope inside) rfl
  | block id b =>
    have body := parts (.block b) (by simp [Part.parts, Part.ofStmt])
    exact fits_alone (fine_node body inside)

theorem fits_planBlock (closed : ast.Closed) {b : Block} (has : ast.Has (.block b))
    (inside : scope < bound) : Fits ast s bound (planBlock scope b) := by
  have known : ∀ i ∈ b.stmts.map (·.id), i < ast.stmts.size :=
    List.forall_mem_map.mpr fun st member =>
      (closed.parts _ has (.stmt st) (List.mem_map_of_mem member)).lt
  exact fits_waiting (fine_values (List.forall_mem_singleton.mpr (held_plain rfl)))
    (fine_nodes known inside (List.forall_mem_nil _)) rfl

theorem fits_planBody (closed : ast.Closed) {f : Func} (has : ast.Has (.func f))
    (inside : scope < bound) : Fits ast s bound (planBody scope f.body) := by
  have body := (closed.parts _ has (.ofBody f.body) (List.mem_singleton_self _)).lt
  generalize f.body = part at body ⊢
  cases part with
  | block b => exact fits_alone (fine_node body inside)
  | expr e => exact fits_alone (fine_node body inside)

theorem fits_resume {v : Value} {k : Waiting} (held : Held ast.funcs.size s bound v)
    (waits : k.refs.Fine ast s bound) : Fits ast s bound (resume v k) := by
  obtain ⟨nodes, frames, values⟩ := waits
  cases k with
  | rightOperand scope op rhs span =>
    exact fits_waiting (fine_node (nodes _ (List.mem_singleton_self _))
      (frames _ (List.mem_singleton_self _))) (fine_values (List.forall_mem_singleton.mpr held)) rfl
  | binary op lhs span =>
    exact fits_ofExcept fun _ done => held_plain (Operators.binary_no_closures done)
  | unary op span => exact fits_ofExcept fun _ done => held_plain (Operators.unary_no_closures done)
  | callee scope args span =>
    exact fits_gather (frames _ (List.mem_singleton_self _)) (List.forall_mem_singleton.mpr held)
      (List.forall_mem_nil _) (List.forall_mem_map.mp nodes)
  | gather scope use done rest =>
    obtain ⟨callee, before⟩ := List.forall_mem_append.mp values
    exact fits_gather (frames _ (List.mem_singleton_self _)) callee
      (List.forall_mem_append.mpr ⟨before, List.forall_mem_singleton.mpr held⟩)
      (List.forall_mem_map.mp nodes)
  | key scope id span =>
    exact fits_waiting (fine_node (nodes _ (List.mem_singleton_self _))
      (frames _ (List.mem_singleton_self _))) (fine_values (List.forall_mem_singleton.mpr held)) rfl
  | index target span =>
    have container := values target (List.mem_singleton_self _)
    exact fits_ofExcept fun _ done c member => container c (Operators.index_closures done c member)
  | declare scope x isConst span =>
    exact fits_alone ⟨List.forall_mem_nil _, frames, List.forall_mem_singleton.mpr held⟩
  | assign scope x span =>
    exact fits_alone ⟨List.forall_mem_nil _, frames, List.forall_mem_singleton.mpr held⟩
  | stmts scope rest =>
    cases rest with
    | nil => exact fits_value held
    | cons st rest =>
      obtain ⟨first, others⟩ := List.forall_mem_cons.mp (List.forall_mem_map.mp nodes)
      have inside := frames _ (List.mem_singleton_self _)
      exact fits_waiting (fine_node first inside)
        (fine_nodes others inside (List.forall_mem_nil _)) rfl
  | filter g takesItem span item kept rest =>
    obtain ⟨predicate, pending⟩ := List.forall_mem_cons.mp values
    obtain ⟨tested, pending⟩ := List.forall_mem_cons.mp pending
    obtain ⟨chosen, others⟩ := List.forall_mem_append.mp pending
    apply fits_filterNext predicate _ others
    split
    · exact List.forall_mem_append.mpr ⟨chosen, List.forall_mem_singleton.mpr tested⟩
    · exact chosen
  | frame mark isCall => exact fits_value held

theorem fits_planFilter {args : List Value} (held : ∀ v ∈ args, Held ast.funcs.size s bound v) :
    ∃ plan, planFilter ast.funcs span args = some plan ∧ Fits ast s bound plan := by
  unfold planFilter
  split
  · rename_i items g
    obtain ⟨array, predicate⟩ := List.forall_mem_cons.mp held
    have predicate := List.forall_mem_singleton.mp predicate
    have known : ∃ n, arity? ast.funcs g = some n := by
      cases g with
      | builtin b => exact ⟨1, rfl⟩
      | closure f env =>
        have inside : f < ast.funcs.size := (predicate (f, env) (by simp)).1
        exact ⟨_, by rw [arity?, Array.getElem?_eq_getElem inside]; rfl⟩
    obtain ⟨n, arity⟩ := known
    refine ⟨_, by rw [arity]; rfl, ?_⟩
    dsimp only
    split
    · exact fits_fail _ span
    · exact fits_filterNext predicate (List.forall_mem_nil _) (held_array.mp array)
  · exact ⟨_, rfl, fits_fail _ span⟩
  · exact ⟨_, rfl, fits_fail _ span⟩

end Plans

section Steps

variable {ast : Ast} {c : Config}

theorem Stacked.append {s : Scopes} {bound : Nat} {ks ks' : List Waiting} (positive : 0 < bound)
    (fits : ∀ k ∈ ks, k.refs.Fine ast s bound ∧ k.floor bound = bound)
    (rest : Stacked ast s bound ks') : Stacked ast s bound (ks ++ ks') := by
  induction ks with
  | nil => exact rest
  | cons k ks ih =>
    obtain ⟨⟨fine, floor⟩, others⟩ := List.forall_mem_cons.mp fits
    refine ⟨fine, ?_⟩
    rw [floor]
    exact ⟨positive, Nat.le_refl _, ih others⟩

theorem safe_follow {plan : Plan} (scopes : c.world.scopes.Sound ast.funcs.size)
    (stack : Stacked ast c.world.scopes c.world.scopes.size c.stack)
    (fits : Fits ast c.world.scopes c.world.scopes.size plan) : (c.follow plan).Safe ast :=
  ⟨scopes, fits.1, stack.append scopes.positive fits.2⟩

theorem Config.Sound.follow {plan : Plan} (sound : c.Sound ast)
    (fits : Fits ast c.world.scopes c.world.scopes.size plan) : (c.follow plan).Safe ast :=
  safe_follow sound.scopes sound.stack fits

theorem Config.Sound.follow? {plan : Option Plan} (sound : c.Sound ast)
    (fits : ∃ p, plan = some p ∧ Fits ast c.world.scopes c.world.scopes.size p) :
    (c.follow? plan).Safe ast := by
  obtain ⟨p, rfl, fits⟩ := fits
  exact sound.follow fits

theorem Config.Sound.followIn {t : Scopes} {control : Control} (sound : c.Sound ast)
    (scopes : t.Sound ast.funcs.size) (retains : Retains c.world.scopes.size c.world.scopes t)
    (size : t.size = c.world.scopes.size) (fine : control.refs.Fine ast t t.size) :
    (c.followIn t control).Safe ast :=
  ⟨scopes, fine, sound.stack.mono retains (Nat.le_of_eq size.symm)⟩

theorem Config.Sound.openFrame {parent : ScopeId} {isCall : Bool} {control : ScopeId → Control}
    (sound : c.Sound ast) (inside : parent < c.world.scopes.size)
    (fine : (control c.world.scopes.size).refs.Fine ast (c.world.scopes.push parent)
      (c.world.scopes.push parent).size) : (c.openFrame parent isCall control).Safe ast := by
  -- The mark is the bound for the stack so far, and the new frame is just above it.
  refine ⟨sound.scopes.push inside, fine, ?_, sound.scopes.positive, ?_, ?_⟩
  · exact fine_values (List.forall_mem_nil _)
  · show c.world.scopes.size ≤ (c.world.scopes.push parent).size
    rw [Scopes.size_push]
    exact Nat.le_succ _
  · exact sound.stack.mono (Scopes.retains_push parent) (Nat.le_refl _)

theorem safe_closeFrame {mark : Nat} {isCall : Bool} {result : Value} {rest : List Waiting}
    (scopes : c.world.scopes.Sound ast.funcs.size)
    (stack : Stacked ast c.world.scopes c.world.scopes.size (.frame mark isCall :: rest))
    (held : Held ast.funcs.size c.world.scopes c.world.scopes.size result)
    (control : ∀ t : Scopes, Held ast.funcs.size t t.size result →
      c.control.refs.Fine ast t t.size) :
    (c.closeFrame mark isCall result rest).Safe ast := by
  obtain ⟨-, positive, below, lower⟩ := stack
  -- What is below on the stack speaks of frames below the mark only, and these stay.
  obtain ⟨sound, longer, retains, still⟩ := scopes.release positive below held
  exact ⟨sound, control _ still, lower.mono retains longer⟩

theorem Config.Sound.found {id : ScopeId} {frame : Frame} {x : String} {b : Binding}
    (sound : c.Sound ast) (here : c.world.scopes.frames[id]? = some frame)
    (got : frame.table.get? x = some b) :
    Held ast.funcs.size c.world.scopes c.world.scopes.size b.value := by
  have inside := sound.scopes.frames id frame here
  exact inside.held b ((SymbolTable.get?_eq_some_iff inside.proper).mp got).1

theorem Config.Sound.seek {id : ScopeId} {x : String} {purpose : Purpose} (sound : c.Sound ast)
    (fine : (Control.seek id x purpose).refs.Fine ast c.world.scopes c.world.scopes.size) :
    (c.seek id x purpose).Safe ast := by
  have inside : id < c.world.scopes.size := by
    cases purpose <;> exact fine.2.1 id (List.mem_singleton_self id)
  have outward : ∀ parent < id, (Control.seek parent x purpose).refs.Fine ast c.world.scopes
      c.world.scopes.size := by
    intro parent older
    have lower : ∀ i ∈ [parent], i < c.world.scopes.size :=
      List.forall_mem_singleton.mpr (Nat.lt_trans older inside)
    cases purpose <;> exact ⟨fine.1, lower, fine.2.2⟩
  have here := Array.getElem?_eq_getElem inside
  generalize c.world.scopes.frames[id] = frame at here
  unfold Config.seek
  simp only [here]
  split
  · rename_i b _ _ got
    exact sound.follow (fits_value (sound.found here got))
  · rename_i b _ v span got
    have held := fine.2.2 v (List.mem_singleton_self v)
    split
    · exact sound.follow (fits_fail _ span)
    · refine sound.followIn (sound.scopes.set here x held) (Scopes.retains_update here)
        (Scopes.size_update _) (fine_values (List.forall_mem_singleton.mpr ?_))
      exact held.mono (Scopes.retains_update here) (Nat.le_of_eq (Scopes.size_update _).symm)
  · rename_i parent _ up
    have older := (sound.scopes.frames id frame here).older parent up
    exact sound.follow (fits_alone (outward parent older))
  · rename_i span _ _
    split
    · exact sound.follow (fits_value (held_plain rfl))
    · exact sound.follow (fits_fail _ span)
  · exact sound.follow (fits_fail _ _)

theorem Config.Sound.declare {scope : ScopeId} {b : Binding} {span : Span} {control : Control}
    (sound : c.Sound ast) (inside : scope < c.world.scopes.size)
    (held : Held ast.funcs.size c.world.scopes c.world.scopes.size b.value)
    (fine : control.refs.Fine ast c.world.scopes c.world.scopes.size) :
    (c.declare scope b span control).Safe ast := by
  have here := Array.getElem?_eq_getElem inside
  generalize c.world.scopes.frames[scope] = frame at here
  unfold Config.declare
  simp only [here]
  split
  · exact sound.follow (fits_fail _ span)
  · rename_i table inserted
    exact sound.followIn (sound.scopes.insert here inserted held) (Scopes.retains_update here)
      (Scopes.size_update _)
      (fine.mono (Scopes.retains_update here) (Nat.le_of_eq (Scopes.size_update _).symm))

theorem Config.Sound.capture {scope : ScopeId} {func : FuncId} (sound : c.Sound ast)
    (inside : scope < c.world.scopes.size) (known : func < ast.funcs.size) :
    (c.capture scope func).Safe ast := by
  unfold Config.capture
  rw [Array.getElem?_eq_getElem inside]
  refine sound.followIn (sound.scopes.capture scope) (Scopes.retains_capture scope)
    (Scopes.size_capture _ _) (fine_values (List.forall_mem_singleton.mpr ?_))
  intro home member
  rw [Value.closures_closure, List.mem_singleton] at member
  subst member
  have made := Scopes.isHome_capture inside
  exact ⟨known, made.lt, made⟩

theorem Config.Sound.perform {b : Builtin} {args : List Value} {span : Span} (sound : c.Sound ast)
    (held : ∀ v ∈ args, Held ast.funcs.size c.world.scopes c.world.scopes.size v) :
    (c.perform b args span).Safe ast := by
  have steady := Builtin.steady_perform b args span c.world
  unfold Config.perform
  cases ended : b.perform args span c.world with
  | error e w =>
    rw [ended] at steady
    obtain ⟨same, -⟩ := steady
    exact ⟨same.symm ▸ sound.scopes, fine_values (List.forall_mem_nil _), same.symm ▸ sound.stack⟩
  | ok v w =>
    rw [ended] at steady
    obtain ⟨same, given⟩ := steady
    refine ⟨same.symm ▸ sound.scopes, fine_values (List.forall_mem_singleton.mpr ?_),
      same.symm ▸ sound.stack⟩
    intro home member
    obtain ⟨a, listed, inside⟩ := given home member
    exact same.symm ▸ held a listed home inside

theorem Config.Sound.call {limit : Nat} {g : Callable} {args : List Value} {span : Span}
    (sound : c.Sound ast)
    (callee : Held ast.funcs.size c.world.scopes c.world.scopes.size (.function g))
    (held : ∀ v ∈ args, Held ast.funcs.size c.world.scopes c.world.scopes.size v) :
    (c.call ast.funcs limit args span g).Safe ast := by
  unfold Config.call
  split
  · rename_i f env
    obtain ⟨known, inside, -⟩ := callee (f, env) (by simp)
    rw [Array.getElem?_eq_getElem known]
    dsimp only
    split
    · exact sound.follow (fits_fail _ span)
    · split
      · exact sound.follow (fits_fail _ span)
      · apply sound.openFrame inside
        have size := Scopes.size_push c.world.scopes env
        refine ⟨List.forall_mem_singleton.mpr known, List.forall_mem_singleton.mpr ?_, ?_⟩
        · rw [size]
          exact Nat.lt_succ_self _
        · intro v member
          exact (held v member).mono (Scopes.retains_push env) (by rw [size]; exact Nat.le_succ _)
  · exact sound.follow? (fits_planFilter held)
  · exact sound.perform held

theorem Config.Sound.body {frame : ScopeId} {f : FuncId} (closed : ast.Closed) (sound : c.Sound ast)
    (inside : frame < c.world.scopes.size) (known : f < ast.count .func) :
    (c.body ast.funcs frame f).Safe ast := by
  obtain ⟨_, found, has⟩ := closed.exists_node known
  obtain ⟨func, here, rfl⟩ := Option.map_eq_some_iff.mp found
  apply sound.follow?
  rw [here]
  exact ⟨_, rfl, fits_planBody closed has inside⟩

theorem step_safe (closed : ast.Closed) (limit : Nat) (sound : c.Sound ast) :
    (step ast limit c).Safe ast := by
  obtain ⟨control, stack, depth, world⟩ := c
  have ⟨scopes, fine, stacked⟩ := sound
  obtain ⟨nodes, frames, values⟩ := fine
  cases control with
  | expr scope id =>
    obtain ⟨_, found, has⟩ := closed.exists_node (nodes _ (List.mem_singleton_self _))
    obtain ⟨e, here, rfl⟩ := Option.map_eq_some_iff.mp found
    apply sound.follow?
    rw [here]
    exact ⟨_, rfl, fits_planExpr closed has (frames _ (List.mem_singleton_self _))⟩
  | stmt scope id =>
    obtain ⟨_, found, has⟩ := closed.exists_node (nodes _ (List.mem_singleton_self _))
    obtain ⟨st, here, rfl⟩ := Option.map_eq_some_iff.mp found
    apply sound.follow?
    rw [here]
    exact ⟨_, rfl, fits_planStmt closed has (frames _ (List.mem_singleton_self _))⟩
  | block scope id =>
    obtain ⟨_, found, has⟩ := closed.exists_node (nodes _ (List.mem_singleton_self _))
    obtain ⟨b, here, rfl⟩ := Option.map_eq_some_iff.mp found
    apply sound.follow?
    rw [here]
    exact ⟨_, rfl, fits_planBlock closed has (frames _ (List.mem_singleton_self _))⟩
  | nest parent id =>
    have known := nodes _ (List.mem_singleton_self _)
    simp only [step]
    apply sound.openFrame (frames _ (List.mem_singleton_self _))
    exact fine_node known (by rw [Scopes.size_push]; exact Nat.lt_succ_self _)
  | seek frame x purpose => exact sound.seek ⟨nodes, frames, values⟩
  | capture scope func =>
    exact sound.capture (frames _ (List.mem_singleton_self _)) (nodes _ (List.mem_singleton_self _))
  | declare scope b span =>
    have held := values _ (List.mem_singleton_self _)
    exact sound.declare (frames _ (List.mem_singleton_self _)) held (fine_values values)
  | call g args span =>
    obtain ⟨callee, held⟩ := List.forall_mem_cons.mp values
    exact sound.call callee held
  | bind frame f params args span =>
    have known := nodes _ (List.mem_singleton_self _)
    have inside := frames _ (List.mem_singleton_self _)
    match params, args with
    | p :: ps, v :: vs =>
      obtain ⟨first, others⟩ := List.forall_mem_cons.mp values
      exact sound.declare inside first ⟨nodes, frames, others⟩
    | [], _ => exact sound.body closed inside known
    | _ :: _, [] => exact sound.body closed inside known
  | value v =>
    have held := List.forall_mem_singleton.mp values
    cases stack with
    | nil => exact ⟨scopes, fun w same => Except.ok.inj same ▸ held⟩
    | cons k rest =>
      cases k with
      | frame mark isCall =>
        exact safe_closeFrame scopes stacked held fun t still =>
          fine_values (List.forall_mem_singleton.mpr still)
      | _ =>
        obtain ⟨waits, -, -, lower⟩ := stacked
        exact safe_follow scopes lower (fits_resume held waits)
  | error e =>
    cases stack with
    | nil => exact ⟨scopes, fun w same => nomatch same⟩
    | cons k rest =>
      cases k with
      | frame mark isCall =>
        exact safe_closeFrame scopes stacked (held_plain rfl) fun t _ =>
          fine_values (List.forall_mem_nil _)
      | _ => exact ⟨scopes, fine_values (List.forall_mem_nil _), stacked.2.2.2⟩

theorem run_safe (closed : ast.Closed) (limit n : Nat) (sound : c.Sound ast) :
    (run ast limit n c).Safe ast :=
  run_preserves (fun _ sound => step_safe closed limit sound) n sound

theorem sound_start {id : Nat} {w : World} (scopes : w.scopes.Sound ast.funcs.size)
    (known : id < ast.blocks.size) : (start id w).Sound ast :=
  ⟨scopes, fine_node known scopes.positive, trivial⟩

end Steps

end Stepwise

end ScriptKit
