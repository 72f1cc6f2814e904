import ScriptKit.Eval.Error
import ScriptKit.Scope.Table

/-! Programs with other names.

Every name of a variable, a parameter or a function is spelled anew. Texts that a program writes
down as such are no names, and numbers and bytes of nodes stay. -/

namespace ScriptKit

section Respelling

variable (spell : String → String)

mutual

def Expr.respell : Expr → Expr
  | .literal n v => .literal n v
  | .name n x => .name n (spell x)
  | .binary n op a b => .binary n op a.respell b.respell
  | .unary n op a => .unary n op a.respell
  | .call n f args => .call n f.respell (Expr.respellAll args)
  | .array n items => .array n (Expr.respellAll items)
  | .index n a i => .index n a.respell i.respell
  | .function n f => .function n f.respell

def Expr.respellAll : List Expr → List Expr
  | [] => []
  | e :: es => e.respell :: Expr.respellAll es

def Stmt.respell : Stmt → Stmt
  | .expr id e => .expr id e.respell
  | .declare n x e isConst => .declare n (spell x) e.respell isConst
  | .assign n x e => .assign n (spell x) e.respell
  | .function n x f => .function n (spell x) f.respell
  | .block id b => .block id b.respell

def Stmt.respellAll : List Stmt → List Stmt
  | [] => []
  | s :: ss => s.respell :: Stmt.respellAll ss

def Block.respell : Block → Block
  | .mk n ss => .mk n (Stmt.respellAll ss)

def Func.respell : Func → Func
  | .mk n name params body => .mk n (name.map spell) (params.map spell) body.respell

def Body.respell : Body → Body
  | .block b => .block b.respell
  | .expr e => .expr e.respell

end

def Ast.respell (ast : Ast) : Ast where
  exprs := ast.exprs.map (Expr.respell spell)
  stmts := ast.stmts.map (Stmt.respell spell)
  blocks := ast.blocks.map (Block.respell spell)
  funcs := ast.funcs.map (Func.respell spell)
  sourceEnd := ast.sourceEnd

def Binding.respell (b : Binding) : Binding :=
  { b with name := spell b.name }

def RuntimeErrorKind.respell : RuntimeErrorKind → RuntimeErrorKind
  | undefinedVariable x => undefinedVariable (spell x)
  | alreadyDeclared x => alreadyDeclared (spell x)
  | constViolation x => constViolation (spell x)
  | kind => kind

def RuntimeError.respell (e : RuntimeError) : RuntimeError :=
  { e with kind := e.kind.respell spell }

end Respelling

section Small

variable {spell : String → String}

@[simp] theorem Func.id_respell (f : Func) : (f.respell spell).id = f.id := by
  cases f
  rfl

@[simp] theorem Func.params_respell (f : Func) : (f.respell spell).params = f.params.map spell := by
  cases f
  rfl

@[simp] theorem Func.body_respell (f : Func) : (f.respell spell).body = f.body.respell spell := by
  cases f
  rfl

end Small

section Unchanged

mutual

theorem Expr.respell_id : (e : Expr) → e.respell id = e
  | .literal .. | .name .. => rfl
  | .binary _ _ a b | .index _ a b => by
    simp only [Expr.respell, Expr.respell_id a, Expr.respell_id b]
  | .unary _ _ a => by simp only [Expr.respell, Expr.respell_id a]
  | .call _ f args => by simp only [Expr.respell, Expr.respell_id f, Expr.respellAll_id args]
  | .array _ items => by simp only [Expr.respell, Expr.respellAll_id items]
  | .function _ f => by simp only [Expr.respell, Func.respell_id f]

theorem Expr.respellAll_id : (es : List Expr) → Expr.respellAll id es = es
  | [] => rfl
  | e :: es => by simp only [Expr.respellAll, Expr.respell_id e, Expr.respellAll_id es]

theorem Stmt.respell_id : (s : Stmt) → s.respell id = s
  | .expr _ e | .declare _ _ e _ | .assign _ _ e => by
    simp only [Stmt.respell, Expr.respell_id e, id]
  | .function _ _ f => by simp only [Stmt.respell, Func.respell_id f, id]
  | .block _ b => by simp only [Stmt.respell, Block.respell_id b]

theorem Stmt.respellAll_id : (ss : List Stmt) → Stmt.respellAll id ss = ss
  | [] => rfl
  | s :: ss => by simp only [Stmt.respellAll, Stmt.respell_id s, Stmt.respellAll_id ss]

theorem Block.respell_id : (b : Block) → b.respell id = b
  | .mk _ ss => by simp only [Block.respell, Stmt.respellAll_id ss]

theorem Func.respell_id : (f : Func) → f.respell id = f
  | .mk _ name params body => by
    simp only [Func.respell, Option.map_id, List.map_id, Body.respell_id body, id]

theorem Body.respell_id : (body : Body) → body.respell id = body
  | .block b => by simp only [Body.respell, Block.respell_id b]
  | .expr e => by simp only [Body.respell, Expr.respell_id e]

end

theorem RuntimeErrorKind.respell_id (kind : RuntimeErrorKind) : kind.respell id = kind := by
  cases kind <;> rfl

end Unchanged

end ScriptKit
