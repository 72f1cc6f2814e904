import ScriptKit.Text.Numeral
import ScriptKit.Token.Basic
import ScriptKit.Tree.Basic

/-! Reading a tree off a list of tokens that ends with `endOfInput`.

Each level of precedence takes its operands from the next tighter one and groups to the left. Nodes
enter the catalogue as they are finished and stay there when the text turns out to be wrong later.
The parsers count down steps; `stepsFor` grants more of them than a list of tokens can use. -/

namespace ScriptKit

inductive ParseErrorKind where
  /-- A token that cannot stand here; `expected` says what could. -/
  | unexpectedToken (expected : String)
  /-- An integer above the largest one of 64 bits with a sign. -/
  | invalidInteger
  /-- The steps granted were used up. -/
  | unfinished
deriving DecidableEq, Repr

def ParseErrorKind.summary : ParseErrorKind → String
  | unexpectedToken _ => "unexpected token"
  | invalidInteger => "integer literal out of range"
  | unfinished => "unfinished"

structure ParseError where
  kind : ParseErrorKind
  found : String
  span : Span
  place : Place
deriving DecidableEq, Repr

namespace ParseError

def atToken (kind : ParseErrorKind) (t : Token) : ParseError :=
  ⟨kind, t.describe, t.span, t.first⟩

def message (e : ParseError) : String :=
  match e.kind with
  | .unexpectedToken expected =>
    e.kind.summary ++ " " ++ e.found ++ ", expecting " ++ expected
  | kind => kind.summary ++ " " ++ e.found

end ParseError

structure ParseState where
  tokens : List Token
  ast : Ast

/-- A failure keeps the state that it was reached in. -/
abbrev ParseM := EStateM ParseError ParseState

namespace Parser

def noToken : Token := ⟨.endOfInput, "", ⟨0, 0⟩, .origin, .origin⟩

def current (tokens : List Token) : Token :=
  tokens.headD noToken

def peek : ParseM Token :=
  return current (← get).tokens

/-- The kind of the token behind the next one. The last token is followed by itself. -/
def peekSecond : ParseM TokenKind :=
  return match (← get).tokens with
    | _ :: t :: _ => t.kind
    | tokens => (current tokens).kind

/-- Takes the next token. `endOfInput` is never passed. -/
def advance : ParseM Token :=
  modifyGet fun s =>
    match s.tokens with
    | t :: rest => if t.kind = .endOfInput then (t, s) else (t, { s with tokens := rest })
    | [] => (noToken, s)

def eat (kind : TokenKind) : ParseM Bool := do
  if (← peek).kind = kind then
    let _ ← advance
    return true
  else
    return false

def unexpected {α : Type} (expected : String) : ParseM α := do
  throw (.atToken (.unexpectedToken expected) (← peek))

def expect (kind : TokenKind) (expected : String) : ParseM Token := do
  if (← peek).kind = kind then advance else unexpected expected

def unfinished {α : Type} : ParseM α := do
  throw (.atToken .unfinished (← peek))

def newExpr (span : Span) (make : Node → Expr) : ParseM Expr :=
  modifyGet fun s =>
    let e := make ⟨s.ast.exprs.size, span⟩
    (e, { s with ast := { s.ast with exprs := s.ast.exprs.push e } })

def newStmt (make : Nat → Stmt) : ParseM Stmt :=
  modifyGet fun s =>
    let st := make s.ast.stmts.size
    (st, { s with ast := { s.ast with stmts := s.ast.stmts.push st } })

def newBlock (span : Span) (stmts : List Stmt) : ParseM Block :=
  modifyGet fun s =>
    let b := Block.mk ⟨s.ast.blocks.size, span⟩ stmts
    (b, { s with ast := { s.ast with blocks := s.ast.blocks.push b } })

def newFunc (span : Span) (name : Option String) (params : List String) (body : Body) :
    ParseM Func :=
  modifyGet fun s =>
    let f := Func.mk ⟨s.ast.funcs.size, span⟩ name params body
    (f, { s with ast := { s.ast with funcs := s.ast.funcs.push f } })

/-- The levels of binary operators, loosest first. -/
inductive Level where
  | equality | comparison | additive | multiplicative
deriving DecidableEq, Repr

namespace Level

def operator? : Level → TokenKind → Option BinaryOp
  | equality, .equal => some .eq
  | equality, .notEqual => some .ne
  | comparison, .less => some .lt
  | comparison, .lessEqual => some .le
  | comparison, .greater => some .gt
  | comparison, .greaterEqual => some .ge
  | additive, .plus => some .add
  | additive, .minus => some .sub
  | multiplicative, .star => some .mul
  | multiplicative, .slash => some .div
  | multiplicative, .percent => some .mod
  | _, _ => none

/-- The next tighter level. Unary operators bind tighter than all of them. -/
def tighter? : Level → Option Level
  | equality => some comparison
  | comparison => some additive
  | additive => some multiplicative
  | multiplicative => none

end Level

def unaryOp? : TokenKind → Option UnaryOp
  | .minus => some .neg
  | .bang => some .not
  | _ => none

def int64? (text : List Char) : Option Int64 := do
  let n ← Text.readInt? text
  if (Int64.ofInt n).toInt = n then some (Int64.ofInt n) else none

def params : Nat → ParseM (List String)
  | 0 => unfinished
  | n + 1 => do
    let param ← expect .identifier "a parameter name"
    if ← eat .rightParen then
      return [param.text]
    else
      let _ ← expect .comma ", or )"
      return param.text :: (← params n)

def paramList (n : Nat) : ParseM (List String) := do
  let _ ← expect .leftParen "("
  if ← eat .rightParen then return [] else params n

def literal? (t : Token) : Option Literal :=
  match t.kind with
  | .text => some (.text t.text)
  | .trueWord => some (.boolean true)
  | .falseWord => some (.boolean false)
  | .nullWord => some .null
  | _ => none

mutual

/-- One statement, with the semicolon that may follow it. -/
def statement : Nat → ParseM Stmt
  | 0 => unfinished
  | n + 1 => do
    let t ← peek
    let second ← peekSecond
    match t.kind, second with
    | .varWord, _ => declaration n false
    | .constWord, _ => declaration n true
    | .functionWord, .identifier => do
      let _ ← advance
      let name ← expect .identifier "a function name"
      let params ← paramList n
      let body ← block n
      let span := t.span.join body.span
      let func ← newFunc span (some name.text) params (.block body)
      newStmt fun id => .function ⟨id, span⟩ name.text func
    | .leftBrace, _ => do
      let body ← block n
      newStmt fun id => .block id body
    | .identifier, .assign => do
      let _ ← advance
      let _ ← expect .assign "="
      let value ← operation n .equality
      let _ ← eat .semicolon
      newStmt fun id => .assign ⟨id, t.span.join value.span⟩ t.text value
    | _, _ => do
      let value ← operation n .equality
      let _ ← eat .semicolon
      newStmt fun id => .expr id value

def declaration : Nat → Bool → ParseM Stmt
  | 0, _ => unfinished
  | n + 1, isConst => do
    let keyword ← advance
    let name ← expect .identifier "an identifier"
    let _ ← expect .assign "="
    let value ← operation n .equality
    let _ ← eat .semicolon
    newStmt fun id => .declare ⟨id, keyword.span.join value.span⟩ name.text value isConst

/-- Statements up to a token of kind `closing`, which stays. Semicolons between them are passed. -/
def statements : Nat → TokenKind → ParseM (List Stmt)
  | 0, _ => unfinished
  | n + 1, closing => do
    if ← eat .semicolon then
      statements n closing
    else
      let t ← peek
      if t.kind = closing then
        return []
      else if t.kind = .endOfInput then
        unexpected "\x7d"
      else
        let first ← statement n
        return first :: (← statements n closing)

def block : Nat → ParseM Block
  | 0 => unfinished
  | n + 1 => do
    let opening ← expect .leftBrace "\x7b"
    let stmts ← statements n .rightBrace
    let closing ← advance
    newBlock (opening.span.join closing.span) stmts

def operation : Nat → Level → ParseM Expr
  | 0, _ => unfinished
  | n + 1, level => do
    let lhs ← operand n level
    operationRest n level lhs

/-- Further operators of a level behind `lhs`; each takes all before it as its left side. -/
def operationRest : Nat → Level → Expr → ParseM Expr
  | 0, _, _ => unfinished
  | n + 1, level, lhs => do
    match level.operator? (← peek).kind with
    | none => return lhs
    | some op => do
      let _ ← advance
      let rhs ← operand n level
      let whole ← newExpr (lhs.span.join rhs.span) fun node => .binary node op lhs rhs
      operationRest n level whole

def operand : Nat → Level → ParseM Expr
  | 0, _ => unfinished
  | n + 1, level =>
    match level.tighter? with
    | some inner => operation n inner
    | none => unary n

def unary : Nat → ParseM Expr
  | 0 => unfinished
  | n + 1 => do
    match unaryOp? (← peek).kind with
    | none => do
      let head ← primary n
      trailers n head
    | some op => do
      let sign ← advance
      let operand ← unary n
      newExpr (sign.span.join operand.span) fun node => .unary node op operand

def trailers : Nat → Expr → ParseM Expr
  | 0, _ => unfinished
  | n + 1, head => do
    if ← eat .leftParen then
      let (args, close) ← items n .rightParen ")"
      let whole ← newExpr (head.span.join close) fun node => .call node head args
      trailers n whole
    else if ← eat .leftBracket then
      let index ← operation n .equality
      let close ← expect .rightBracket "]"
      let whole ← newExpr (head.span.join close.span) fun node => .index node head index
      trailers n whole
    else
      return head

/-- Expressions with commas between them, up to and including a token of kind `closing`, whose span
comes along. A comma may stand behind the last one. -/
def items : Nat → TokenKind → String → ParseM (List Expr × Span)
  | 0, _, _ => unfinished
  | n + 1, closing, expected => do
    let t ← peek
    if ← eat closing then
      return ([], t.span)
    else
      let item ← operation n .equality
      let t ← peek
      if ← eat closing then
        return ([item], t.span)
      else if ← eat .comma then
        let (rest, close) ← items n closing expected
        return (item :: rest, close)
      else
        unexpected expected

def primary : Nat → ParseM Expr
  | 0 => unfinished
  | n + 1 => do
    let t ← peek
    match literal? t with
    | some value => do
      let _ ← advance
      newExpr t.span fun node => .literal node value
    | none =>
      match t.kind with
      | .integer => do
        let _ ← advance
        match int64? t.text.toList with
        | some value => newExpr t.span fun node => .literal node (.integer value)
        | none => throw (.atToken .invalidInteger t)
      | .identifier => do
        let _ ← advance
        newExpr t.span fun node => .name node t.text
      | .leftParen => do
        let _ ← advance
        let inner ← operation n .equality
        let _ ← expect .rightParen ")"
        return inner
      | .leftBracket => do
        let _ ← advance
        let (elements, close) ← items n .rightBracket "]"
        newExpr (t.span.join close) fun node => .array node elements
      | .fnWord => do
        let _ ← advance
        let params ← paramList n
        let _ ← expect .arrow "=>"
        let body ← operation n .equality
        let span := t.span.join body.span
        let func ← newFunc span none params (.expr body)
        newExpr span fun node => .function node func
      | .functionWord => do
        let _ ← advance
        let params ← paramList n
        let body ← block n
        let span := t.span.join body.span
        let func ← newFunc span none params (.block body)
        newExpr span fun node => .function node func
      | _ => unexpected "an expression"

end

/-- Steps that suffice for any list of tokens: no more than a dozen parsers stand on one another
before a token is taken. -/
def stepsFor (tokens : List Token) : Nat :=
  16 * tokens.length + 16

def program (n : Nat) : ParseM Block := do
  let first ← peek
  let stmts ← statements n .endOfInput
  newBlock (first.span.join (← peek).span) stmts

def run {α : Type} (p : Nat → ParseM α) (tokens : List Token) (ast : Ast) :
    Except ParseError α × Ast :=
  match p (stepsFor tokens) ⟨tokens, ast⟩ with
  | .ok a s => (.ok a, s.ast)
  | .error e s => (.error e, s.ast)

end Parser

def parseProgram (tokens : List Token) (ast : Ast) : Except ParseError Block × Ast :=
  Parser.run Parser.program tokens ast

def parseExpr (tokens : List Token) (ast : Ast) : Except ParseError Expr × Ast :=
  Parser.run (fun n => Parser.operation n .equality) tokens ast

end ScriptKit
