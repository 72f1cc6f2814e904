import ScriptKit.Source.Span

/-! The tree of a program, and the catalogue of every node that was ever finished.

Nodes of one family (expressions, statements, blocks, functions) are numbered in the order in
which they were finished, so a node's number is its index in the catalogue and its parts come
before it. -/

namespace ScriptKit

inductive BinaryOp where
  | add | sub | mul | div | mod
  | eq | ne | lt | le | gt | ge
deriving DecidableEq, Repr

def BinaryOp.symbol : BinaryOp → String
  | add => "+"
  | sub => "-"
  | mul => "*"
  | div => "/"
  | mod => "%"
  | eq => "=="
  | ne => "!="
  | lt => "<"
  | le => "<="
  | gt => ">"
  | ge => ">="

inductive UnaryOp where
  | neg | not
deriving DecidableEq, Repr

def UnaryOp.symbol : UnaryOp → String
  | neg => "-"
  | not => "!"

inductive Literal where
  | integer (n : Int64)
  | text (s : String)
  | boolean (b : Bool)
  | null
deriving DecidableEq, Repr

/-- The number of a function in the catalogue. Closures carry it. -/
abbrev FuncId := Nat

structure Node where
  id : Nat
  span : Span
deriving DecidableEq, Repr, Inhabited

mutual

inductive Expr where
  | literal (node : Node) (value : Literal)
  | name (node : Node) (name : String)
  | binary (node : Node) (op : BinaryOp) (lhs rhs : Expr)
  | unary (node : Node) (op : UnaryOp) (operand : Expr)
  | call (node : Node) (callee : Expr) (args : List Expr)
  | array (node : Node) (items : List Expr)
  | index (node : Node) (target index : Expr)
  | function (node : Node) (func : Func)

/-- A statement. An expression and a block cover their own bytes. -/
inductive Stmt where
  | expr (id : Nat) (value : Expr)
  | declare (node : Node) (name : String) (value : Expr) (isConst : Bool)
  | assign (node : Node) (name : String) (value : Expr)
  | function (node : Node) (name : String) (func : Func)
  | block (id : Nat) (body : Block)

/-- A sequence of statements. A whole program is one too. -/
inductive Block where
  | mk (node : Node) (stmts : List Stmt)

/-- A function with its parameters. It has a name if a statement declares it. -/
inductive Func where
  | mk (node : Node) (name : Option String) (params : List String) (body : Body)

inductive Body where
  | block (body : Block)
  | expr (body : Expr)

end

namespace Expr

def node : Expr → Node
  | literal n _ | name n _ | binary n _ _ _ | unary n _ _ | call n _ _ | array n _ | index n _ _
  | function n _ => n

def id (e : Expr) : Nat := e.node.id

def span (e : Expr) : Span := e.node.span

end Expr

namespace Block

def node : Block → Node
  | mk n _ => n

def stmts : Block → List Stmt
  | mk _ ss => ss

def id (b : Block) : Nat := b.node.id

def span (b : Block) : Span := b.node.span

end Block

namespace Func

def node : Func → Node
  | mk n _ _ _ => n

def name : Func → Option String
  | mk _ name _ _ => name

def params : Func → List String
  | mk _ _ params _ => params

def body : Func → Body
  | mk _ _ _ body => body

def id (f : Func) : FuncId := f.node.id

def span (f : Func) : Span := f.node.span

end Func

namespace Body

def span : Body → Span
  | block b => b.span
  | expr e => e.span

end Body

namespace Stmt

def id : Stmt → Nat
  | expr n _ | block n _ => n
  | declare n _ _ _ | assign n _ _ | function n _ _ => n.id

def span : Stmt → Span
  | expr _ e => e.span
  | declare n _ _ _ | assign n _ _ | function n _ _ => n.span
  | block _ b => b.span

end Stmt

/-- The catalogue: every finished node, family by family, by number. The sources read so far take up
the offsets below `sourceEnd`, with one offset between any two. -/
structure Ast where
  exprs : Array Expr := #[]
  stmts : Array Stmt := #[]
  blocks : Array Block := #[]
  funcs : Array Func := #[]
  sourceEnd : Nat := 0

namespace Ast

/-- Sets the offsets of a source of `len` bytes aside. The source begins at the old end. -/
def reserve (ast : Ast) (len : Nat) : Ast :=
  { ast with sourceEnd := ast.sourceEnd + len + 1 }

end Ast

end ScriptKit
