import ScriptKit.Source.Place
import ScriptKit.Source.Span

/-! Tokens and the three tables that recognise fixed ones: words, pairs and single characters. -/

namespace ScriptKit

inductive TokenKind where
  | varWord | constWord | functionWord | fnWord | trueWord | falseWord | nullWord
  | semicolon | leftParen | rightParen | leftBrace | rightBrace | leftBracket | rightBracket | comma
  | plus | minus | star | slash | percent | assign | bang | less | greater
  | equal | notEqual | lessEqual | greaterEqual | arrow
  | identifier | integer | text | endOfInput
deriving DecidableEq, Repr, Inhabited

namespace TokenKind

def keyword? : String → Option TokenKind
  | "var" => some varWord
  | "const" => some constWord
  | "function" => some functionWord
  | "fn" => some fnWord
  | "true" => some trueWord
  | "false" => some falseWord
  | "null" => some nullWord
  | _ => none

def punctuation? : Char → Option TokenKind
  | ';' => some semicolon
  | '(' => some leftParen
  | ')' => some rightParen
  | '\x7b' => some leftBrace
  | '\x7d' => some rightBrace
  | '[' => some leftBracket
  | ']' => some rightBracket
  | ',' => some comma
  | '+' => some plus
  | '-' => some minus
  | '*' => some star
  | '/' => some slash
  | '%' => some percent
  | '=' => some assign
  | '!' => some bang
  | '<' => some less
  | '>' => some greater
  | _ => none

def operator? : Char → Char → Option TokenKind
  | '=', '=' => some equal
  | '!', '=' => some notEqual
  | '<', '=' => some lessEqual
  | '>', '=' => some greaterEqual
  | '=', '>' => some arrow
  | _, _ => none

def isKeyword : TokenKind → Bool
  | varWord | constWord | functionWord | fnWord | trueWord | falseWord | nullWord => true
  | _ => false

def describe : TokenKind → String
  | varWord => "var"
  | constWord => "const"
  | functionWord => "function"
  | fnWord => "fn"
  | trueWord => "true"
  | falseWord => "false"
  | nullWord => "null"
  | semicolon => ";"
  | leftParen => "("
  | rightParen => ")"
  | leftBrace => "\x7b"
  | rightBrace => "\x7d"
  | leftBracket => "["
  | rightBracket => "]"
  | comma => ","
  | plus => "+"
  | minus => "-"
  | star => "*"
  | slash => "/"
  | percent => "%"
  | assign => "="
  | bang => "!"
  | less => "<"
  | greater => ">"
  | equal => "=="
  | notEqual => "!="
  | lessEqual => "<="
  | greaterEqual => ">="
  | arrow => "=>"
  | identifier => "identifier"
  | integer => "integer"
  | text => "string"
  | endOfInput => "end of input"

end TokenKind

/-- A token with its text, its bytes in the shared offset space, and the places of its two ends in
its own source. The text of a string leaves out the quotes, the span does not. -/
structure Token where
  kind : TokenKind
  text : String
  span : Span
  first : Place
  last : Place
deriving DecidableEq, Repr, Inhabited

def Token.describe (t : Token) : String :=
  match t.kind with
  | .identifier | .integer => "`" ++ t.text ++ "`"
  | .text => "string \"" ++ t.text ++ "\""
  | .endOfInput => "end of input"
  | kind => "`" ++ kind.describe ++ "`"

end ScriptKit
