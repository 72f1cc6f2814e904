import ScriptKit.Proofs.Tree.Relocation

/-! Programs without numbers and offsets, and the words they are written with.

Whatever is an operand, is called, indexed or passed, or is an item, stands in parentheses unless it
is a single word. A function with an arrow stands in parentheses everywhere. -/

namespace ScriptKit

def Relocation.nowhere : Relocation :=
  .flat fun _ _ => 0

namespace Written

mutual

inductive Term where
  /-- An integer that 64 bits with a sign can hold. -/
  | integer (n : Nat) (small : n < 9223372036854775808)
  | text (s : String)
  | boolean (b : Bool)
  | null
  | name (x : String)
  | binary (op : BinaryOp) (lhs rhs : Term)
  | unary (op : UnaryOp) (operand : Term)
  | call (callee : Term) (args : List Term)
  | array (items : List Term)
  | index (target key : Term)
  | lambda (params : List String) (body : Term)
  | function (params : List String) (body : List Command)

inductive Command where
  | expr (value : Term)
  | declare (name : String) (value : Term) (isConst : Bool)
  | assign (name : String) (value : Term)
  | function (name : String) (params : List String) (body : List Command)
  | block (body : List Command)

end

def node : Node := ⟨0, ⟨0, 0⟩⟩

mutual

/-- The tree of a term, with zero for all numbers and offsets. -/
def Term.tree : Term → Expr
  | .integer n _ => .literal node (.integer (Int64.ofNat n))
  | .text s => .literal node (.text s)
  | .boolean b => .literal node (.boolean b)
  | .null => .literal node .null
  | .name x => .name node x
  | .binary op a b => .binary node op a.tree b.tree
  | .unary op a => .unary node op a.tree
  | .call f args => .call node f.tree (Term.trees args)
  | .array items => .array node (Term.trees items)
  | .index a i => .index node a.tree i.tree
  | .lambda params body => .function node (.mk node none params (.expr body.tree))
  | .function params body =>
    .function node (.mk node none params (.block (.mk node (Command.trees body))))

def Term.trees : List Term → List Expr
  | [] => []
  | t :: ts => t.tree :: Term.trees ts

def Command.tree : Command → Stmt
  | .expr e => .expr 0 e.tree
  | .declare x e isConst => .declare node x e.tree isConst
  | .assign x e => .assign node x e.tree
  | .function x params body =>
    .function node x (.mk node (some x) params (.block (.mk node (Command.trees body))))
  | .block body => .block 0 (.mk node (Command.trees body))

def Command.trees : List Command → List Stmt
  | [] => []
  | c :: cs => c.tree :: Command.trees cs

end

/-- What a token shows, wherever it stands. -/
abbrev Word := TokenKind × String

def sign (kind : TokenKind) : Word := (kind, kind.describe)

def operator : BinaryOp → TokenKind
  | .add => .plus
  | .sub => .minus
  | .mul => .star
  | .div => .slash
  | .mod => .percent
  | .eq => .equal
  | .ne => .notEqual
  | .lt => .less
  | .le => .lessEqual
  | .gt => .greater
  | .ge => .greaterEqual

def unaryOperator : UnaryOp → TokenKind
  | .neg => .minus
  | .not => .bang

def names : List String → List Word
  | [] => []
  | [x] => [(.identifier, x)]
  | x :: y :: xs => (.identifier, x) :: sign .comma :: names (y :: xs)

def params (xs : List String) : List Word :=
  sign .leftParen :: names xs ++ [sign .rightParen]

/-- Whether a term needs no parentheses, because it is a single word or has parentheses of its
own. -/
def Term.isClosed : Term → Bool
  | .integer .. | .text _ | .boolean _ | .null | .name _ | .lambda .. => true
  | _ => false

def enclose (isClosed : Bool) (words : List Word) : List Word :=
  if isClosed then words else sign .leftParen :: words ++ [sign .rightParen]

def brace (words : List Word) : List Word :=
  sign .leftBrace :: words ++ [sign .rightBrace]

mutual

def Term.words : Term → List Word
  | .integer n _ => [(.integer, String.ofList (Nat.toDigits 10 n))]
  | .text s => [(.text, s)]
  | .boolean b => [sign (if b then .trueWord else .falseWord)]
  | .null => [sign .nullWord]
  | .name x => [(.identifier, x)]
  | .binary op a b => enclose a.isClosed a.words ++ sign (operator op) :: enclose b.isClosed b.words
  | .unary op a => sign (unaryOperator op) :: enclose a.isClosed a.words
  | .call f args =>
    enclose f.isClosed f.words ++ sign .leftParen :: Term.listed args ++ [sign .rightParen]
  | .array items => sign .leftBracket :: Term.listed items ++ [sign .rightBracket]
  | .index a i => enclose a.isClosed a.words ++ sign .leftBracket :: i.words ++ [sign .rightBracket]
  | .lambda xs body =>
    sign .leftParen :: sign .fnWord :: params xs ++ sign .arrow :: body.words ++ [sign .rightParen]
  | .function xs body => sign .functionWord :: params xs ++ brace (Command.allWords body)

def Term.listed : List Term → List Word
  | [] => []
  | [t] => enclose t.isClosed t.words
  | t :: u :: ts => enclose t.isClosed t.words ++ sign .comma :: Term.listed (u :: ts)

def Command.words : Command → List Word
  | .expr e => e.words ++ [sign .semicolon]
  | .declare x e isConst =>
    sign (if isConst then .constWord else .varWord) :: (.identifier, x) :: sign .assign ::
      e.words ++
      [sign .semicolon]
  | .assign x e => (.identifier, x) :: sign .assign :: e.words ++ [sign .semicolon]
  | .function x xs body =>
    sign .functionWord :: (.identifier, x) :: params xs ++ brace (Command.allWords body)
  | .block body => brace (Command.allWords body)

def Command.allWords : List Command → List Word
  | [] => []
  | c :: cs => c.words ++ Command.allWords cs

end

end Written

def Token.word (t : Token) : Written.Word := (t.kind, t.text)

end ScriptKit
