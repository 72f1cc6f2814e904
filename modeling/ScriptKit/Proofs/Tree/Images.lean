import ScriptKit.Proofs.Tree.Relocation

/-! A catalogue as the image of another one, and relocations that leave a catalogue as it is. -/

namespace ScriptKit

abbrev Relocation.func (r : Relocation) : FuncId → FuncId :=
  r.number .func

def Ast.Moves (r : Relocation) (ast ast' : Ast) : Prop :=
  ∀ family i p, ast.node? family i = some p →
    ast'.node? family (r.number family i) = some (p.move r)

section Nodes

variable {r : Relocation} {ast ast' : Ast} (moves : ast.Moves r ast')
include moves

theorem Ast.Moves.expr {i : Nat} {e : Expr} (found : ast.exprs[i]? = some e) :
    ast'.exprs[r.number .expr i]? = some (e.move r) := by
  have node := moves .expr i (.expr e) (congrArg (Option.map Part.expr) found)
  simpa [Ast.node?, Part.move] using node

theorem Ast.Moves.stmt {i : Nat} {s : Stmt} (found : ast.stmts[i]? = some s) :
    ast'.stmts[r.number .stmt i]? = some (s.move r) := by
  have node := moves .stmt i (.stmt s) (congrArg (Option.map Part.stmt) found)
  simpa [Ast.node?, Part.move] using node

theorem Ast.Moves.block {i : Nat} {b : Block} (found : ast.blocks[i]? = some b) :
    ast'.blocks[r.number .block i]? = some (b.move r) := by
  have node := moves .block i (.block b) (congrArg (Option.map Part.block) found)
  simpa [Ast.node?, Part.move] using node

theorem Ast.Moves.func {i : Nat} {f : Func} (found : ast.funcs[i]? = some f) :
    ast'.funcs[r.func i]? = some (f.move r) := by
  have node := moves .func i (.func f) (congrArg (Option.map Part.func) found)
  simpa [Ast.node?, Part.move] using node

end Nodes

namespace Relocation

def offsets (r : Relocation) : Relocation :=
  ⟨fun _ i => i, r.offset, r.mono⟩

/-- Offsets behind `stop` are drawn back to it. -/
def upTo (stop : Nat) : Relocation :=
  ⟨fun _ i => i, min stop, fun le => by omega⟩

theorem upTo_andThen {r : Relocation} {stop : Nat} (fixed : ∀ x ≤ stop, r.offset x = x) :
    (upTo stop).andThen r.offsets = upTo stop := by
  apply Relocation.ext
  · rfl
  · funext x
    exact fixed _ (Nat.min_le_left stop x)

end Relocation

theorem Part.move_andThen (r q : Relocation) (p : Part) :
    p.move (r.andThen q) = (p.move r).move q := by
  cases p <;> simp only [Part.move, Expr.move_andThen, Stmt.move_andThen, Block.move_andThen,
    Func.move_andThen]

def Ast.Spanned (ast : Ast) : Prop :=
  ∀ family i p, ast.node? family i = some p → ∃ stop < ast.sourceEnd, p.move (.upTo stop) = p

def Ast.Fixes (ast : Ast) (r : Relocation) : Prop :=
  ∀ family i, i < ast.count family → r.number family i = i

section Fixed

variable {r : Relocation} {ast : Ast}

theorem Node.move_fixed {family : Family} {n : Node} (number : r.number family n.id = n.id) :
    n.move r family = n.move r.offsets family := by
  rw [Node.move, number]
  rfl

theorem Ast.Fixes.number_eq (fixes : ast.Fixes r) {p : Part} (has : ast.Has p) :
    r.number p.family p.number = p.number :=
  fixes _ _ has.lt

mutual

theorem Expr.move_fixed (closed : ast.Closed) (fixes : ast.Fixes r) :
    (e : Expr) → ast.Has (.expr e) → e.move r = e.move r.offsets
  | .literal n _, has | .name n _, has => by
    have number : r.number .expr n.id = n.id := fixes.number_eq has
    simp only [Expr.move, Node.move_fixed number]
  | .binary n _ a b, has | .index n a b, has => by
    have number : r.number .expr n.id = n.id := fixes.number_eq has
    have first := closed.parts _ has (.expr a) (by simp [Part.parts, Part.ofExpr])
    have second := closed.parts _ has (.expr b) (by simp [Part.parts, Part.ofExpr])
    simp only [Expr.move, Node.move_fixed number, Expr.move_fixed closed fixes a first,
      Expr.move_fixed closed fixes b second]
  | .unary n _ a, has => by
    have number : r.number .expr n.id = n.id := fixes.number_eq has
    have operand := closed.parts _ has (.expr a) (by simp [Part.parts, Part.ofExpr])
    simp only [Expr.move, Node.move_fixed number, Expr.move_fixed closed fixes a operand]
  | .call n f args, has => by
    have number : r.number .expr n.id = n.id := fixes.number_eq has
    have callee := closed.parts _ has (.expr f) (by simp [Part.parts, Part.ofExpr])
    have each : ∀ e ∈ args, ast.Has (.expr e) := fun e member =>
      closed.parts _ has (.expr e) (by simp [Part.parts, Part.ofExpr, member])
    simp only [Expr.move, Node.move_fixed number, Expr.move_fixed closed fixes f callee,
      Expr.moveAll_fixed closed fixes args each]
  | .array n items, has => by
    have number : r.number .expr n.id = n.id := fixes.number_eq has
    have each : ∀ e ∈ items, ast.Has (.expr e) := fun e member =>
      closed.parts _ has (.expr e) (by simp [Part.parts, Part.ofExpr, member])
    simp only [Expr.move, Node.move_fixed number, Expr.moveAll_fixed closed fixes items each]
  | .function n f, has => by
    have number : r.number .expr n.id = n.id := fixes.number_eq has
    have func := closed.parts _ has (.func f) (by simp [Part.parts, Part.ofExpr])
    simp only [Expr.move, Node.move_fixed number, Func.move_fixed closed fixes f func]

theorem Expr.moveAll_fixed (closed : ast.Closed) (fixes : ast.Fixes r) :
    (es : List Expr) → (∀ e ∈ es, ast.Has (.expr e)) → Expr.moveAll r es = Expr.moveAll r.offsets es
  | [], _ => rfl
  | e :: es, has => by
    obtain ⟨first, rest⟩ := List.forall_mem_cons.mp has
    simp only [Expr.moveAll, Expr.move_fixed closed fixes e first,
      Expr.moveAll_fixed closed fixes es rest]

theorem Stmt.move_fixed (closed : ast.Closed) (fixes : ast.Fixes r) :
    (s : Stmt) → ast.Has (.stmt s) → s.move r = s.move r.offsets
  | .expr id e, has => by
    have number : r.number .stmt id = id := fixes.number_eq has
    have value := closed.parts _ has (.expr e) (by simp [Part.parts, Part.ofStmt])
    simp only [Stmt.move, number, Expr.move_fixed closed fixes e value]
    rfl
  | .declare n _ e _, has | .assign n _ e, has => by
    have number : r.number .stmt n.id = n.id := fixes.number_eq has
    have value := closed.parts _ has (.expr e) (by simp [Part.parts, Part.ofStmt])
    simp only [Stmt.move, Node.move_fixed number, Expr.move_fixed closed fixes e value]
  | .function n _ f, has => by
    have number : r.number .stmt n.id = n.id := fixes.number_eq has
    have func := closed.parts _ has (.func f) (by simp [Part.parts, Part.ofStmt])
    simp only [Stmt.move, Node.move_fixed number, Func.move_fixed closed fixes f func]
  | .block id b, has => by
    have number : r.number .stmt id = id := fixes.number_eq has
    have body := closed.parts _ has (.block b) (by simp [Part.parts, Part.ofStmt])
    simp only [Stmt.move, number, Block.move_fixed closed fixes b body]
    rfl

theorem Stmt.moveAll_fixed (closed : ast.Closed) (fixes : ast.Fixes r) :
    (ss : List Stmt) → (∀ s ∈ ss, ast.Has (.stmt s)) → Stmt.moveAll r ss = Stmt.moveAll r.offsets ss
  | [], _ => rfl
  | s :: ss, has => by
    obtain ⟨first, rest⟩ := List.forall_mem_cons.mp has
    simp only [Stmt.moveAll, Stmt.move_fixed closed fixes s first,
      Stmt.moveAll_fixed closed fixes ss rest]

theorem Block.move_fixed (closed : ast.Closed) (fixes : ast.Fixes r) :
    (b : Block) → ast.Has (.block b) → b.move r = b.move r.offsets
  | .mk n ss, has => by
    have number : r.number .block n.id = n.id := fixes.number_eq has
    have each : ∀ s ∈ ss, ast.Has (.stmt s) := fun s member =>
      closed.parts _ has (.stmt s) (by simp [Part.parts, Block.stmts, member])
    simp only [Block.move, Node.move_fixed number, Stmt.moveAll_fixed closed fixes ss each]

theorem Func.move_fixed (closed : ast.Closed) (fixes : ast.Fixes r) :
    (f : Func) → ast.Has (.func f) → f.move r = f.move r.offsets
  | .mk n _ _ body, has => by
    have number : r.number .func n.id = n.id := fixes.number_eq has
    have inside := closed.parts _ has (.ofBody body) (by simp [Part.parts, Func.body])
    simp only [Func.move, Node.move_fixed number, Body.move_fixed closed fixes body inside]

theorem Body.move_fixed (closed : ast.Closed) (fixes : ast.Fixes r) :
    (body : Body) → ast.Has (.ofBody body) → body.move r = body.move r.offsets
  | .block b, has => by simp only [Body.move, Block.move_fixed closed fixes b has]
  | .expr e, has => by simp only [Body.move, Expr.move_fixed closed fixes e has]

end

theorem Part.move_fixed (closed : ast.Closed) (fixes : ast.Fixes r) (p : Part) (has : ast.Has p) :
    p.move r = p.move r.offsets := by
  cases p with
  | expr e => simp only [Part.move, Expr.move_fixed closed fixes e has]
  | stmt s => simp only [Part.move, Stmt.move_fixed closed fixes s has]
  | block b => simp only [Part.move, Block.move_fixed closed fixes b has]
  | func f => simp only [Part.move, Func.move_fixed closed fixes f has]

theorem Ast.Spanned.move_eq (spanned : ast.Spanned) (closed : ast.Closed) (fixes : ast.Fixes r)
    (offsets : ∀ x < ast.sourceEnd, r.offset x = x) {family : Family} {i : Nat} {p : Part}
    (found : ast.node? family i = some p) : p.move r = p := by
  obtain ⟨stop, inside, clamped⟩ := spanned family i p found
  have fixed : ∀ x ≤ stop, r.offset x = x := fun x le => offsets x (Nat.lt_of_le_of_lt le inside)
  calc
    p.move r = p.move r.offsets := Part.move_fixed closed fixes p (closed.has found)
    _ = (p.move (.upTo stop)).move r.offsets := by rw [clamped]
    _ = p.move (.upTo stop) := by rw [← Part.move_andThen, Relocation.upTo_andThen fixed]
    _ = p := clamped

end Fixed

end ScriptKit
