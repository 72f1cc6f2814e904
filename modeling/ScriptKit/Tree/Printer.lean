import ScriptKit.Tree.Basic

/-! An expression as text with every operation in parentheses, so that its grouping can be seen. -/

namespace ScriptKit

def Literal.toText : Literal → String
  | integer n => toString n.toInt
  | text s => "\"" ++ s ++ "\""
  | boolean b => if b then "true" else "false"
  | null => "null"

mutual

/-- The text of an expression. Of a function it has the parameters only. -/
def Expr.toText : Expr → String
  | .literal _ v => v.toText
  | .name _ x => x
  | .binary _ op a b => "(" ++ a.toText ++ " " ++ op.symbol ++ " " ++ b.toText ++ ")"
  | .unary _ op a => "(" ++ op.symbol ++ a.toText ++ ")"
  | .call _ f args => f.toText ++ "(" ++ ", ".intercalate (texts args) ++ ")"
  | .array _ items => "[" ++ ", ".intercalate (texts items) ++ "]"
  | .index _ a i => a.toText ++ "[" ++ i.toText ++ "]"
  | .function _ f => "fn(" ++ ", ".intercalate f.params ++ ")"

def Expr.texts : List Expr → List String
  | [] => []
  | e :: es => e.toText :: texts es

end

end ScriptKit
