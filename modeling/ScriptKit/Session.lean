import ScriptKit.Eval.Basic
import ScriptKit.Token.Scanner
import ScriptKit.Tree.Parser

/-! A session: sources are read and run one after the other, all in one global frame. -/

namespace ScriptKit

structure Options where
  /-- How deep calls of functions may be nested. -/
  maxDepth : Nat := 128
  /-- How frames are given back. -/
  reclaim : Nat → Value → Scopes → Scopes := Scopes.release

/-- Reads a source into the catalogue. Its spans begin at the end of the sources before it. -/
def parseSource (source : String) (ast : Ast) : Except Error Block × Ast :=
  let reserved := ast.reserve (byteLength source.toList)
  match scan source ast.sourceEnd with
  | .error e => (.error (.lex e), reserved)
  | .ok tokens =>
    match parseProgram tokens reserved with
    | (.ok b, ast) => (.ok b, ast)
    | (.error e, ast) => (.error (.parse e), ast)

structure Session where
  options : Options := {}
  ast : Ast := {}
  world : World := {}

namespace Session

def parse (s : Session) (source : String) : Except Error Block × Session :=
  let (result, ast) := parseSource source s.ast
  (result, { s with ast })

def run (s : Session) (b : Block) : Except RuntimeError Value × Session :=
  let rules := Evaluator.rulesFor s.ast.funcs s.options.reclaim s.options.maxDepth
  match Evaluator.block rules Scopes.globalId b s.world with
  | .ok v world => (.ok v, { s with world })
  | .error e world => (.error e, { s with world })

/-- Reads a source and runs it. Its value is that of its last statement, and errors have their spans
in the source itself. -/
def eval (s : Session) (source : String) : Except Error Value × Session :=
  let base := s.ast.sourceEnd
  match s.parse source with
  | (.error e, s) => (.error e, s)
  | (.ok b, s) =>
    match s.run b with
    | (.ok v, s) => (.ok v, s)
    | (.error e, s) => (.error (.runtime (e.relativeTo base (byteLength source.toList))), s)

def global? (s : Session) (name : String) : Option Value :=
  s.world.scopes.resolve? Scopes.globalId name

def takeOutput (s : Session) : String × Session :=
  (s.world.out.text, { s with world := { s.world with out := { s.world.out with text := "" } } })

end Session

end ScriptKit
