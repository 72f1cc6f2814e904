import ScriptKit.Diagnostic
import ScriptKit.Error
import ScriptKit.Value.Basic

/-! What can stop a program. -/

namespace ScriptKit

inductive RuntimeErrorKind where
  /-- The divisor of `/` or `%` is zero. -/
  | divisionByZero
  /-- An operator does not take operands of these types. A unary one has no `rhs`. -/
  | typeMismatch (op : String) (lhs : ValueType) (rhs : Option ValueType)
  | undefinedVariable (name : String)
  | alreadyDeclared (name : String)
  | constViolation (name : String)
  | notCallable (type : ValueType)
  | arityMismatch (expected found : Nat)
  | indexOutOfBounds (index : Int64) (length : Nat)
  /-- Calls are nested deeper than the limit. -/
  | stackOverflow
  | builtinArity (builtin : Builtin) (expected : String) (found : Nat)
  | builtinArgument (builtin : Builtin) (expected : String)
  /-- The program asked to end with a status. -/
  | exit (status : UInt8)
  | io (message : String)
  /-- A closure names a function that the catalogue does not have. -/
  | missingFunction (func : FuncId)
  /-- A frame is named that does not exist. -/
  | missingFrame
deriving DecidableEq, Repr

/-- A kind of error and the bytes it arose at, if these belong to the source at hand. -/
structure RuntimeError where
  kind : RuntimeErrorKind
  span : Option Span
deriving DecidableEq, Repr

namespace RuntimeErrorKind

def summary : RuntimeErrorKind → String
  | divisionByZero => "division by zero"
  | typeMismatch .. => "type mismatch"
  | undefinedVariable _ => "undefined variable"
  | alreadyDeclared _ => "variable already declared in this scope"
  | constViolation _ => "cannot assign to a constant"
  | notCallable _ => "value is not callable"
  | arityMismatch .. => "wrong number of arguments"
  | indexOutOfBounds .. => "index out of bounds"
  | stackOverflow => "maximum call depth exceeded"
  | builtinArity .. => "wrong number of arguments to builtin"
  | builtinArgument .. => "invalid argument to builtin"
  | exit _ => "exit"
  | io _ => "i/o error"
  | missingFunction _ => "no such function"
  | missingFrame => "no such frame"

def details : RuntimeErrorKind → String
  | typeMismatch op lhs (some rhs) =>
    ": cannot apply `" ++ op ++ "` to " ++ lhs.name ++ " and " ++ rhs.name
  | typeMismatch op lhs none => ": cannot apply `" ++ op ++ "` to " ++ lhs.name
  | undefinedVariable name | alreadyDeclared name | constViolation name => ": `" ++ name ++ "`"
  | notCallable type => ": found " ++ type.name
  | arityMismatch expected found =>
    ": expected " ++ toString expected ++ ", found " ++ toString found
  | indexOutOfBounds index length =>
    ": index " ++ toString index.toInt ++ " but length is " ++ toString length
  | builtinArity b expected found =>
    ": `" ++ b.name ++ "` takes " ++ expected ++ ", found " ++ toString found
  | builtinArgument b expected => ": `" ++ b.name ++ "` expects " ++ expected
  | exit status => " with status " ++ toString status.toNat
  | io message => ": " ++ message
  | missingFunction func => " #" ++ toString func
  | divisionByZero | stackOverflow | missingFrame => ""

end RuntimeErrorKind

namespace RuntimeError

def message (e : RuntimeError) : String :=
  e.kind.summary ++ e.kind.details

def exitStatus? (e : RuntimeError) : Option UInt8 :=
  match e.kind with
  | .exit status => some status
  | _ => none

/-- The error as seen from the source of `len` bytes that begins at `base`. A closure of an earlier
source can fail in bytes that are not of this one; then the error has no span. -/
def relativeTo (e : RuntimeError) (base len : Nat) : RuntimeError :=
  { e with span := e.span.bind (·.within? base len) }

def diagnostic (e : RuntimeError) : Diagnostic where
  code := "runtime"
  message := e.message
  location := match e.span with
    | some span => .bytes span
    | none => .unknown

end RuntimeError

inductive Error where
  | lex (e : LexError)
  | parse (e : ParseError)
  | runtime (e : RuntimeError)
deriving DecidableEq, Repr

namespace Error

def message : Error → String
  | lex e => e.message
  | parse e => e.message
  | runtime e => e.message

def diagnostic : Error → Diagnostic
  | lex e => e.diagnostic
  | parse e => e.diagnostic
  | runtime e => e.diagnostic

def exitStatus? : Error → Option UInt8
  | runtime e => e.exitStatus?
  | _ => none

end Error

end ScriptKit
