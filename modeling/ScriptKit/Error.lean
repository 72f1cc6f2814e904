import ScriptKit.Diagnostic
import ScriptKit.Token.Scanner
import ScriptKit.Tree.Parser

/-! How the errors of reading a source become messages. -/

namespace ScriptKit

def LexError.diagnostic (e : LexError) : Diagnostic :=
  { code := "syntax", message := e.message, location := .place e.place }

def ParseError.diagnostic (e : ParseError) : Diagnostic :=
  { code := "syntax", message := e.message, location := .place e.place }

end ScriptKit
