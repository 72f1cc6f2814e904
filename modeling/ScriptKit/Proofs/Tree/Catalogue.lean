import ScriptKit.Tree.Basic

/-! The catalogue seen as one table of nodes, and when it is closed.

A catalogue is closed if every node is under its own number, and so is whatever the node is made
of. -/

namespace ScriptKit

inductive Family where
  | expr | stmt | block | func
deriving DecidableEq, Repr

inductive Part where
  | expr (e : Expr)
  | stmt (s : Stmt)
  | block (b : Block)
  | func (f : Func)

namespace Part

def family : Part → Family
  | expr _ => .expr
  | stmt _ => .stmt
  | block _ => .block
  | func _ => .func

def number : Part → Nat
  | expr e => e.id
  | stmt s => s.id
  | block b => b.id
  | func f => f.id

def ofBody : Body → Part
  | .block b => block b
  | .expr e => expr e

def ofExpr : Expr → List Part
  | .literal .. | .name .. => []
  | .binary _ _ a b | .index _ a b => [expr a, expr b]
  | .unary _ _ a => [expr a]
  | .call _ f args => expr f :: args.map expr
  | .array _ items => items.map expr
  | .function _ f => [func f]

def ofStmt : Stmt → List Part
  | .expr _ e | .declare _ _ e _ | .assign _ _ e => [expr e]
  | .function _ _ f => [func f]
  | .block _ b => [block b]

def parts : Part → List Part
  | expr e => ofExpr e
  | stmt s => ofStmt s
  | block b => b.stmts.map stmt
  | func f => [ofBody f.body]

end Part

namespace Ast

def count (ast : Ast) : Family → Nat
  | .expr => ast.exprs.size
  | .stmt => ast.stmts.size
  | .block => ast.blocks.size
  | .func => ast.funcs.size

theorem count_reserve (ast : Ast) (n : Nat) (family : Family) :
    (ast.reserve n).count family = ast.count family := by
  cases family <;> rfl

def node? (ast : Ast) : Family → Nat → Option Part
  | .expr, i => ast.exprs[i]?.map .expr
  | .stmt, i => ast.stmts[i]?.map .stmt
  | .block, i => ast.blocks[i]?.map .block
  | .func, i => ast.funcs[i]?.map .func

/-- The node is in the catalogue under its number. -/
def Has (ast : Ast) (p : Part) : Prop :=
  ast.node? p.family p.number = some p

section Has

variable {ast : Ast}

@[simp] theorem has_expr {e : Expr} : ast.Has (.expr e) ↔ ast.exprs[e.id]? = some e := by
  simp [Has, node?, Part.family, Part.number]

@[simp] theorem has_stmt {s : Stmt} : ast.Has (.stmt s) ↔ ast.stmts[s.id]? = some s := by
  simp [Has, node?, Part.family, Part.number]

@[simp] theorem has_block {b : Block} : ast.Has (.block b) ↔ ast.blocks[b.id]? = some b := by
  simp [Has, node?, Part.family, Part.number]

theorem isSome_node? (family : Family) (i : Nat) :
    (ast.node? family i).isSome ↔ i < ast.count family := by
  cases family <;> simp [node?, count]

theorem Has.lt {p : Part} (has : ast.Has p) : p.number < ast.count p.family :=
  (isSome_node? p.family p.number).mp (by rw [has]; rfl)

theorem family_of_node? {family : Family} {i : Nat} {p : Part}
    (found : ast.node? family i = some p) :
    p.family = family := by
  cases family <;> obtain ⟨_, _, rfl⟩ := Option.map_eq_some_iff.mp found <;> rfl

end Has

/-- Every node is under its number, and so is whatever it is made of. -/
structure Closed (ast : Ast) : Prop where
  numbered : ∀ family i p, ast.node? family i = some p → p.number = i
  parts : ∀ p, ast.Has p → ∀ q ∈ p.parts, ast.Has q

def Keeps (before after : Ast) : Prop :=
  ∀ family i p, before.node? family i = some p → after.node? family i = some p

theorem Keeps.refl (ast : Ast) : ast.Keeps ast :=
  fun _ _ _ found => found

theorem Keeps.trans {a b c : Ast} (first : a.Keeps b) (second : b.Keeps c) : a.Keeps c :=
  fun family i p found => second family i p (first family i p found)

theorem Keeps.has {before after : Ast} (keeps : before.Keeps after) {p : Part}
    (has : before.Has p) :
    after.Has p :=
  keeps _ _ p has

theorem Keeps.count_le {before after : Ast} (keeps : before.Keeps after) (family : Family) :
    before.count family ≤ after.count family := by
  apply Nat.le_of_not_lt
  intro fewer
  obtain ⟨p, found⟩ := Option.isSome_iff_exists.mp ((isSome_node? family _).mpr fewer)
  have kept : (after.node? family (after.count family)).isSome := by rw [keeps _ _ p found]; rfl
  exact Nat.lt_irrefl _ ((isSome_node? family _).mp kept)

theorem Closed.has {ast : Ast} (closed : ast.Closed) {family : Family} {i : Nat} {p : Part}
    (found : ast.node? family i = some p) : ast.Has p := by
  rw [Has, family_of_node? found, closed.numbered family i p found, found]

theorem Closed.exists_node {ast : Ast} (closed : ast.Closed) {family : Family} {i : Nat}
    (inside : i < ast.count family) : ∃ p, ast.node? family i = some p ∧ ast.Has p := by
  obtain ⟨p, found⟩ := Option.isSome_iff_exists.mp ((isSome_node? family i).mpr inside)
  exact ⟨p, found, closed.has found⟩

theorem closed_empty : ({} : Ast).Closed := by
  have empty : ∀ family i, ({} : Ast).node? family i = none := by
    intro family i
    cases family <;> simp [node?]
  constructor
  · intro family i p found
    simp [empty] at found
  · intro p has
    simp [Has, empty] at has

def enter (ast : Ast) : Part → Ast
  | .expr e => { ast with exprs := ast.exprs.push e }
  | .stmt s => { ast with stmts := ast.stmts.push s }
  | .block b => { ast with blocks := ast.blocks.push b }
  | .func f => { ast with funcs := ast.funcs.push f }

section Enter

variable {ast : Ast} {p : Part}

theorem node?_enter (ast : Ast) (p : Part) (family : Family) (i : Nat) :
    (ast.enter p).node? family i =
      if family = p.family ∧ i = ast.count family then some p else ast.node? family i := by
  cases p <;> cases family <;> simp [node?, enter, count, Part.family, Array.getElem?_push] <;>
    split <;> rfl

theorem keeps_enter (ast : Ast) (p : Part) : ast.Keeps (ast.enter p) := by
  intro family i q found
  have inside : i < ast.count family := (isSome_node? family i).mp (by rw [found]; rfl)
  rw [node?_enter, if_neg, found]
  omega

theorem has_enter (next : p.number = ast.count p.family) : (ast.enter p).Has p := by
  rw [Has, node?_enter, if_pos ⟨rfl, next⟩]

theorem closed_enter (closed : ast.Closed) (next : p.number = ast.count p.family)
    (parts : ∀ q ∈ p.parts, ast.Has q) : (ast.enter p).Closed := by
  constructor
  · intro family i q found
    rw [node?_enter] at found
    split at found
    · rename_i here
      cases found
      rw [next, here.2, here.1]
    · exact closed.numbered family i q found
  · intro q has r member
    have old : ast.Has r := by
      rw [Has, node?_enter] at has
      split at has
      · cases has
        exact parts r member
      · exact closed.parts q has r member
    exact (keeps_enter ast p).has old

end Enter

end Ast

end ScriptKit
