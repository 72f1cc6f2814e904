import ScriptKit.Proofs.Text.Shapes
import ScriptKit.Token.Basic
import ScriptKit.Tree.Basic

/-! The grammar of programs, and the tree that each derivation stands for.

    program        → statement*
    statement      → ';'
                   | ('var' | 'const') IDENT '=' expression ';'?
                   | 'function' IDENT params block
                   | block
                   | IDENT '=' expression ';'?
                   | expression ';'?
    block          → '{' statement* '}'
    params         → '(' (IDENT (',' IDENT)*)? ')'
    expression     → equality
    equality       → comparison (('==' | '!=') comparison)*
    comparison     → additive (('<' | '<=' | '>' | '>=') additive)*
    additive       → multiplicative (('+' | '-') multiplicative)*
    multiplicative → unary (('*' | '/' | '%') unary)*
    unary          → ('-' | '!') unary | trailed
    trailed        → primary ('(' args ')' | '[' expression ']')*
    primary        → INTEGER | STRING | IDENT | 'true' | 'false' | 'null'
                   | '(' expression ')' | '[' args ']'
                   | 'fn' params '=>' expression | 'function' params block
    args           → (expression (',' expression)* ','?)?

A repetition folds to the left. An empty statement leaves nothing in the tree, and neither does a
pair of parentheses. -/

namespace ScriptKit.Grammar

/-- How tightly an expression binds, the loosest rank first. -/
inductive Rank where
  | equality | comparison | additive | multiplicative | unary | trailed | primary
deriving DecidableEq

def Rank.inner : Rank → Rank
  | equality => comparison
  | comparison => additive
  | additive => multiplicative
  | multiplicative => unary
  | unary => trailed
  | trailed | primary => primary

inductive Operator : Rank → TokenKind → BinaryOp → Prop where
  | eq : Operator .equality .equal .eq
  | ne : Operator .equality .notEqual .ne
  | lt : Operator .comparison .less .lt
  | le : Operator .comparison .lessEqual .le
  | gt : Operator .comparison .greater .gt
  | ge : Operator .comparison .greaterEqual .ge
  | add : Operator .additive .plus .add
  | sub : Operator .additive .minus .sub
  | mul : Operator .multiplicative .star .mul
  | div : Operator .multiplicative .slash .div
  | mod : Operator .multiplicative .percent .mod

inductive Sign : TokenKind → UnaryOp → Prop where
  | neg : Sign .minus .neg
  | not : Sign .bang .not

inductive Keyword : TokenKind → Bool → Prop where
  | var : Keyword .varWord false
  | const : Keyword .constWord true

inductive Constant : Token → Literal → Prop where
  | integer {t : Token} {n : Int} : t.kind = .integer → Text.SignedNumeral t.text.toList n →
      -9223372036854775808 ≤ n → n ≤ 9223372036854775807 → Constant t (.integer (Int64.ofInt n))
  | text {t : Token} : t.kind = .text → Constant t (.text t.text)
  | yes {t : Token} : t.kind = .trueWord → Constant t (.boolean true)
  | no {t : Token} : t.kind = .falseWord → Constant t (.boolean false)
  | null {t : Token} : t.kind = .nullWord → Constant t .null

inductive Names : List Token → List String → Prop where
  | one {t : Token} : t.kind = .identifier → Names [t] [t.text]
  | more {t comma : Token} {ts : List Token} {xs : List String} : t.kind = .identifier →
      comma.kind = .comma → Names ts xs → Names (t :: comma :: ts) (t.text :: xs)

inductive Params : List Token → List String → Prop where
  | none {l r : Token} : l.kind = .leftParen → r.kind = .rightParen → Params [l, r] []
  | some {l r : Token} {ts : List Token} {xs : List String} : l.kind = .leftParen → Names ts xs →
      r.kind = .rightParen → Params (l :: ts ++ [r]) xs

inductive Ending : List Token → Prop where
  | none : Ending []
  | semicolon {t : Token} : t.kind = .semicolon → Ending [t]

/-- What tokens are derived from, with the tree that the derivation stands for. -/
inductive Symbol where
  | phrase (rank : Rank) (e : Expr)
  | args (es : List Expr)
  | statement (s : Stmt)
  | statements (ss : List Stmt)
  | block (b : Block)

inductive Derives : Symbol → List Token → Prop where
  | inner {rank : Rank} {e : Expr} {ts : List Token} : Derives (.phrase rank.inner e) ts →
      Derives (.phrase rank e) ts
  -- The left side is a whole chain of the rank, the right side a single operand.
  | binary {node : Node} {rank : Rank} {op : BinaryOp} {t : Token} {a b : Expr}
      {ts us : List Token} :
      Derives (.phrase rank a) ts → Operator rank t.kind op → Derives (.phrase rank.inner b) us →
      Derives (.phrase rank (.binary node op a b)) (ts ++ t :: us)
  | unary {node : Node} {op : UnaryOp} {t : Token} {a : Expr} {ts : List Token} : Sign t.kind op →
      Derives (.phrase .unary a) ts → Derives (.phrase .unary (.unary node op a)) (t :: ts)
  | call {node : Node} {f : Expr} {es : List Expr} {l r : Token} {ts us : List Token} :
      Derives (.phrase .trailed f) ts → l.kind = .leftParen → Derives (.args es) us →
      r.kind = .rightParen → Derives (.phrase .trailed (.call node f es)) (ts ++ l :: us ++ [r])
  | index {node : Node} {a i : Expr} {l r : Token} {ts us : List Token} :
      Derives (.phrase .trailed a) ts → l.kind = .leftBracket → Derives (.phrase .equality i) us →
      r.kind = .rightBracket → Derives (.phrase .trailed (.index node a i)) (ts ++ l :: us ++ [r])
  | constant {node : Node} {t : Token} {v : Literal} : Constant t v →
      Derives (.phrase .primary (.literal node v)) [t]
  | name {node : Node} {t : Token} : t.kind = .identifier →
      Derives (.phrase .primary (.name node t.text)) [t]
  | group {e : Expr} {l r : Token} {ts : List Token} : l.kind = .leftParen →
      Derives (.phrase .equality e) ts → r.kind = .rightParen →
      Derives (.phrase .primary e) (l :: ts ++ [r])
  | array {node : Node} {es : List Expr} {l r : Token} {ts : List Token} : l.kind = .leftBracket →
      Derives (.args es) ts → r.kind = .rightBracket →
      Derives (.phrase .primary (.array node es)) (l :: ts ++ [r])
  | lambda {node inside : Node} {e : Expr} {xs : List String} {t arrow : Token}
      {ts us : List Token} :
      t.kind = .fnWord → Params ts xs → arrow.kind = .arrow → Derives (.phrase .equality e) us →
      Derives (.phrase .primary (.function node (.mk inside none xs (.expr e))))
        (t :: ts ++ arrow :: us)
  | function {node inside : Node} {b : Block} {xs : List String} {t : Token} {ts us : List Token} :
      t.kind = .functionWord → Params ts xs → Derives (.block b) us →
      Derives (.phrase .primary (.function node (.mk inside none xs (.block b)))) (t :: ts ++ us)
  | noArgs : Derives (.args []) []
  | lastArg {e : Expr} {ts : List Token} : Derives (.phrase .equality e) ts → Derives (.args [e]) ts
  | moreArgs {e : Expr} {es : List Expr} {comma : Token} {ts us : List Token} :
      Derives (.phrase .equality e) ts → comma.kind = .comma → Derives (.args es) us →
      Derives (.args (e :: es)) (ts ++ comma :: us)
  | declare {node : Node} {e : Expr} {isConst : Bool} {t x eq : Token} {ts us : List Token} :
      Keyword t.kind isConst → x.kind = .identifier → eq.kind = .assign →
      Derives (.phrase .equality e) ts → Ending us →
      Derives (.statement (.declare node x.text e isConst)) (t :: x :: eq :: ts ++ us)
  | define {node inside : Node} {b : Block} {xs : List String} {t x : Token} {ts us : List Token} :
      t.kind = .functionWord → x.kind = .identifier → Params ts xs → Derives (.block b) us →
      Derives (.statement (.function node x.text (.mk inside (some x.text) xs (.block b))))
        (t :: x :: ts ++ us)
  | nested {id : Nat} {b : Block} {ts : List Token} : Derives (.block b) ts →
      Derives (.statement (.block id b)) ts
  | assign {node : Node} {e : Expr} {x eq : Token} {ts us : List Token} : x.kind = .identifier →
      eq.kind = .assign → Derives (.phrase .equality e) ts → Ending us →
      Derives (.statement (.assign node x.text e)) (x :: eq :: ts ++ us)
  | expr {id : Nat} {e : Expr} {ts us : List Token} : Derives (.phrase .equality e) ts → Ending us →
      Derives (.statement (.expr id e)) (ts ++ us)
  | nothing : Derives (.statements []) []
  | empty {t : Token} {ss : List Stmt} {ts : List Token} : t.kind = .semicolon →
      Derives (.statements ss) ts → Derives (.statements ss) (t :: ts)
  | next {s : Stmt} {ss : List Stmt} {ts us : List Token} : Derives (.statement s) ts →
      Derives (.statements ss) us → Derives (.statements (s :: ss)) (ts ++ us)
  | braces {node : Node} {ss : List Stmt} {l r : Token} {ts : List Token} : l.kind = .leftBrace →
      Derives (.statements ss) ts → r.kind = .rightBrace →
      Derives (.block (.mk node ss)) (l :: ts ++ [r])

namespace Symbol

/-- Whether some token must be there. -/
def isVisible : Symbol → Bool
  | phrase .. | statement _ | block _ => true
  | args _ | statements _ => false

end Symbol

theorem Derives.ne_nil {symbol : Symbol} {ts : List Token} (derived : Derives symbol ts)
    (visible : symbol.isVisible = true) : ts ≠ [] := by
  induction derived with
  | inner _ ih => exact ih visible
  | nested _ ih => exact ih visible
  | expr _ _ ih =>
    have some_token := ih rfl
    simp [some_token]
  | _ => simp_all [Symbol.isVisible]

end ScriptKit.Grammar
