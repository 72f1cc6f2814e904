import ScriptKit.Eval.Error
import ScriptKit.Proofs.Tree.Catalogue
import ScriptKit.Tree.Parser

/-! Trees with other numbers and at other offsets.

A source that is read later gives the same tree, only that its nodes come behind those of the
catalogue and its bytes behind those of earlier sources. -/

namespace ScriptKit

@[ext] structure Relocation where
  number : Family → Nat → Nat
  offset : Nat → Nat
  mono : ∀ {i j}, i ≤ j → offset i ≤ offset j

namespace Relocation

def same : Relocation := ⟨fun _ i => i, fun i => i, fun le => le⟩

def andThen (r q : Relocation) : Relocation :=
  ⟨fun family i => q.number family (r.number family i), fun i => q.offset (r.offset i),
    fun le => q.mono (r.mono le)⟩

theorem number_same (family : Family) (i : Nat) : same.number family i = i := rfl

theorem number_andThen (r q : Relocation) (family : Family) (i : Nat) :
    (r.andThen q).number family i = q.number family (r.number family i) := rfl

def flat (number : Family → Nat → Nat) : Relocation :=
  ⟨number, fun _ => 0, fun _ => Nat.le_refl 0⟩

/-- Everything comes behind what a catalogue holds, and behind `start`. -/
def behind (base : Ast) (start : Nat) : Relocation :=
  ⟨fun family i => base.count family + i, (start + ·), fun le => Nat.add_le_add_left le start⟩

theorem behind_empty : behind {} 0 = same := by
  apply Relocation.ext
  · funext family i
    cases family <;> exact Nat.zero_add i
  · funext x
    exact Nat.zero_add x

end Relocation

section Moving

variable (r : Relocation)

def Span.move (s : Span) : Span :=
  ⟨r.offset s.start, r.offset s.stop⟩

def Node.move (family : Family) (n : Node) : Node :=
  ⟨r.number family n.id, n.span.move r⟩

/-- Places belong to a single source, so they change on their own. -/
def Token.move (place : Place → Place) (t : Token) : Token :=
  { t with span := t.span.move r, first := place t.first, last := place t.last }

def ParseError.move (place : Place → Place) (e : ParseError) : ParseError :=
  { e with span := e.span.move r, place := place e.place }

def LexError.move (e : LexError) : LexError :=
  { e with span := e.span.move r }

def RuntimeError.move (e : RuntimeError) : RuntimeError :=
  { e with span := e.span.map (Span.move r) }

def Error.move : Error → Error
  | .lex e => .lex (e.move r)
  | .parse e => .parse (e.move r id)
  | .runtime e => .runtime (e.move r)

mutual

def Expr.move : Expr → Expr
  | .literal n v => .literal (n.move r .expr) v
  | .name n x => .name (n.move r .expr) x
  | .binary n op a b => .binary (n.move r .expr) op a.move b.move
  | .unary n op a => .unary (n.move r .expr) op a.move
  | .call n f args => .call (n.move r .expr) f.move (Expr.moveAll args)
  | .array n items => .array (n.move r .expr) (Expr.moveAll items)
  | .index n a i => .index (n.move r .expr) a.move i.move
  | .function n f => .function (n.move r .expr) f.move

def Expr.moveAll : List Expr → List Expr
  | [] => []
  | e :: es => e.move :: Expr.moveAll es

def Stmt.move : Stmt → Stmt
  | .expr id e => .expr (r.number .stmt id) e.move
  | .declare n x e isConst => .declare (n.move r .stmt) x e.move isConst
  | .assign n x e => .assign (n.move r .stmt) x e.move
  | .function n x f => .function (n.move r .stmt) x f.move
  | .block id b => .block (r.number .stmt id) b.move

def Stmt.moveAll : List Stmt → List Stmt
  | [] => []
  | s :: ss => s.move :: Stmt.moveAll ss

def Block.move : Block → Block
  | .mk n ss => .mk (n.move r .block) (Stmt.moveAll ss)

def Func.move : Func → Func
  | .mk n name params body => .mk (n.move r .func) name params body.move

def Body.move : Body → Body
  | .block b => .block b.move
  | .expr e => .expr e.move

end

def Part.move : Part → Part
  | .expr e => .expr (e.move r)
  | .stmt s => .stmt (s.move r)
  | .block b => .block (b.move r)
  | .func f => .func (f.move r)

end Moving

section Small

variable {r q : Relocation}

@[simp] theorem Span.move_join (a b : Span) : (a.join b).move r = (a.move r).join (b.move r) := by
  have least : r.offset (min a.start b.start) = min (r.offset a.start) (r.offset b.start) := by
    rcases Nat.le_total a.start b.start with le | le
    · rw [Nat.min_eq_left le, Nat.min_eq_left (r.mono le)]
    · rw [Nat.min_eq_right le, Nat.min_eq_right (r.mono le)]
  have most : r.offset (max a.stop b.stop) = max (r.offset a.stop) (r.offset b.stop) := by
    rcases Nat.le_total a.stop b.stop with le | le
    · rw [Nat.max_eq_right le, Nat.max_eq_right (r.mono le)]
    · rw [Nat.max_eq_left le, Nat.max_eq_left (r.mono le)]
  simp only [Span.move, Span.join, least, most]


@[simp] theorem Expr.moveAll_eq_map (es : List Expr) :
    Expr.moveAll r es = es.map (Expr.move r) := by
  induction es with
  | nil => rfl
  | cons e es ih => simp only [Expr.moveAll, List.map_cons, ih]

@[simp] theorem Stmt.moveAll_eq_map (ss : List Stmt) :
    Stmt.moveAll r ss = ss.map (Stmt.move r) := by
  induction ss with
  | nil => rfl
  | cons s ss ih => simp only [Stmt.moveAll, List.map_cons, ih]

@[simp] theorem Expr.node_move (e : Expr) : (e.move r).node = e.node.move r .expr := by
  cases e <;> rfl

@[simp] theorem Expr.span_move (e : Expr) : (e.move r).span = e.span.move r := by
  simp [Expr.span, Node.move]

@[simp] theorem Expr.id_move (e : Expr) : (e.move r).id = r.number .expr e.id := by
  simp [Expr.id, Node.move]

@[simp] theorem Stmt.id_move (s : Stmt) : (s.move r).id = r.number .stmt s.id := by
  cases s <;> rfl

@[simp] theorem Block.node_move (b : Block) : (b.move r).node = b.node.move r .block := by
  cases b
  rfl

@[simp] theorem Block.span_move (b : Block) : (b.move r).span = b.span.move r := by
  simp [Block.span, Node.move]

@[simp] theorem Block.id_move (b : Block) : (b.move r).id = r.number .block b.id := by
  simp [Block.id, Node.move]

@[simp] theorem Block.stmts_move (b : Block) : (b.move r).stmts = b.stmts.map (Stmt.move r) := by
  cases b
  simp [Block.move, Block.stmts]

@[simp] theorem Func.id_move (f : Func) : (f.move r).id = r.number .func f.id := by
  cases f
  rfl

@[simp] theorem Func.params_move (f : Func) : (f.move r).params = f.params := by
  cases f
  rfl

@[simp] theorem Func.body_move (f : Func) : (f.move r).body = f.body.move r := by
  cases f
  rfl

end Small

section Laws

variable (r q : Relocation)

theorem Span.eq_move_same (s : Span) : s = s.move .same := rfl

theorem Error.move_andThen (e : Error) : e.move (r.andThen q) = (e.move r).move q := by
  cases e with
  | lex e => rfl
  | parse e => rfl
  | runtime e =>
    simp only [Error.move, RuntimeError.move, Option.map_map]
    rfl

theorem Node.move_same (family : Family) (n : Node) : n.move .same family = n := rfl

theorem Node.move_andThen (family : Family) (n : Node) :
    n.move (r.andThen q) family = (n.move r family).move q family := rfl

mutual

theorem Expr.move_same : (e : Expr) → e.move .same = e
  | .literal .. | .name .. => rfl
  | .binary _ _ a b | .index _ a b => by
    simp only [Expr.move, Expr.move_same a, Expr.move_same b, Node.move_same]
  | .unary _ _ a => by simp only [Expr.move, Expr.move_same a, Node.move_same]
  | .call _ f args => by
    simp only [Expr.move, Expr.move_same f, Expr.moveAll_same args, Node.move_same]
  | .array _ items => by simp only [Expr.move, Expr.moveAll_same items, Node.move_same]
  | .function _ f => by simp only [Expr.move, Func.move_same f, Node.move_same]

theorem Expr.moveAll_same : (es : List Expr) → Expr.moveAll .same es = es
  | [] => rfl
  | e :: es => by simp only [Expr.moveAll, Expr.move_same e, Expr.moveAll_same es]

theorem Stmt.move_same : (s : Stmt) → s.move .same = s
  | .expr _ e | .declare _ _ e _ | .assign _ _ e => by
    simp only [Stmt.move, Expr.move_same e, Node.move_same, Relocation.number_same]
  | .function _ _ f => by simp only [Stmt.move, Func.move_same f, Node.move_same]
  | .block _ b => by simp only [Stmt.move, Block.move_same b, Relocation.number_same]

theorem Stmt.moveAll_same : (ss : List Stmt) → Stmt.moveAll .same ss = ss
  | [] => rfl
  | s :: ss => by simp only [Stmt.moveAll, Stmt.move_same s, Stmt.moveAll_same ss]

theorem Block.move_same : (b : Block) → b.move .same = b
  | .mk _ ss => by simp only [Block.move, Stmt.moveAll_same ss, Node.move_same]

theorem Func.move_same : (f : Func) → f.move .same = f
  | .mk _ _ _ body => by simp only [Func.move, Body.move_same body, Node.move_same]

theorem Body.move_same : (body : Body) → body.move .same = body
  | .block b => by simp only [Body.move, Block.move_same b]
  | .expr e => by simp only [Body.move, Expr.move_same e]

end

mutual

theorem Expr.move_andThen : (e : Expr) → e.move (r.andThen q) = (e.move r).move q
  | .literal .. | .name .. => rfl
  | .binary _ _ a b | .index _ a b => by
    simp only [Expr.move, Expr.move_andThen a, Expr.move_andThen b, Node.move_andThen]
  | .unary _ _ a => by simp only [Expr.move, Expr.move_andThen a, Node.move_andThen]
  | .call _ f args => by
    simp only [Expr.move, Expr.move_andThen f, Expr.moveAll_andThen args, Node.move_andThen]
  | .array _ items => by simp only [Expr.move, Expr.moveAll_andThen items, Node.move_andThen]
  | .function _ f => by simp only [Expr.move, Func.move_andThen f, Node.move_andThen]

theorem Expr.moveAll_andThen : (es : List Expr) →
    Expr.moveAll (r.andThen q) es = Expr.moveAll q (Expr.moveAll r es)
  | [] => rfl
  | e :: es => by simp only [Expr.moveAll, Expr.move_andThen e, Expr.moveAll_andThen es]

theorem Stmt.move_andThen : (s : Stmt) → s.move (r.andThen q) = (s.move r).move q
  | .expr _ e | .declare _ _ e _ | .assign _ _ e => by
    simp only [Stmt.move, Expr.move_andThen e, Node.move_andThen, Relocation.number_andThen]
  | .function _ _ f => by simp only [Stmt.move, Func.move_andThen f, Node.move_andThen]
  | .block _ b => by simp only [Stmt.move, Block.move_andThen b, Relocation.number_andThen]

theorem Stmt.moveAll_andThen : (ss : List Stmt) →
    Stmt.moveAll (r.andThen q) ss = Stmt.moveAll q (Stmt.moveAll r ss)
  | [] => rfl
  | s :: ss => by simp only [Stmt.moveAll, Stmt.move_andThen s, Stmt.moveAll_andThen ss]

theorem Block.move_andThen : (b : Block) → b.move (r.andThen q) = (b.move r).move q
  | .mk _ ss => by simp only [Block.move, Stmt.moveAll_andThen ss, Node.move_andThen]

theorem Func.move_andThen : (f : Func) → f.move (r.andThen q) = (f.move r).move q
  | .mk _ _ _ body => by simp only [Func.move, Body.move_andThen body, Node.move_andThen]

theorem Body.move_andThen : (body : Body) → body.move (r.andThen q) = (body.move r).move q
  | .block b => by simp only [Body.move, Block.move_andThen b]
  | .expr e => by simp only [Body.move, Expr.move_andThen e]

end

end Laws

namespace Ast

def extend (base : Ast) (r : Relocation) (ast : Ast) : Ast where
  exprs := base.exprs ++ ast.exprs.map (Expr.move r)
  stmts := base.stmts ++ ast.stmts.map (Stmt.move r)
  blocks := base.blocks ++ ast.blocks.map (Block.move r)
  funcs := base.funcs ++ ast.funcs.map (Func.move r)
  sourceEnd := base.sourceEnd + ast.sourceEnd

variable (base : Ast) (r : Relocation)

@[simp] theorem count_extend (ast : Ast) (family : Family) :
    (base.extend r ast).count family = base.count family + ast.count family := by
  cases family <;> simp [extend, count]

theorem extend_empty : base.extend r {} = base := by
  simp [extend]

theorem extend_enter (ast : Ast) (p : Part) :
    base.extend r (ast.enter p) = (base.extend r ast).enter (p.move r) := by
  cases p <;> simp [extend, enter, Part.move]

theorem extend_same (ast : Ast) : ({} : Ast).extend .same ast = ast := by
  have exprs : Expr.move .same = id := funext Expr.move_same
  have stmts : Stmt.move .same = id := funext Stmt.move_same
  have blocks : Block.move .same = id := funext Block.move_same
  have funcs : Func.move .same = id := funext Func.move_same
  simp [extend, exprs, stmts, blocks, funcs]

theorem node?_extend (ast : Ast) (family : Family) (i : Nat) :
    (base.extend r ast).node? family i =
      if i < base.count family then base.node? family i
      else (ast.node? family (i - base.count family)).map (Part.move r) := by
  split
  · rename_i old
    cases family <;> simp only [count] at old <;>
      simp only [node?, extend, Array.getElem?_append, if_pos old]
  · rename_i new
    cases family <;> simp only [count] at new <;>
      simp only [node?, extend, count, Array.getElem?_append, if_neg new, Array.getElem?_map,
        Option.map_map] <;> rfl

end Ast

end ScriptKit
