import ScriptKit.Builtin
import ScriptKit.Tree.Basic

/-! The values of the language. -/

namespace ScriptKit

abbrev ScopeId := Nat

/-- What can be called. A closure is a function of the catalogue with the frame it was made in. -/
inductive Callable where
  | builtin (b : Builtin)
  | closure (func : FuncId) (env : ScopeId)
deriving DecidableEq, Repr

inductive Value where
  | integer (n : Int64)
  | float (x : Float)
  | text (s : String)
  | boolean (b : Bool)
  | null
  | array (items : List Value)
  | function (f : Callable)

instance : Inhabited Value := ⟨.null⟩

inductive ValueType where
  | integer | float | text | boolean | null | array | function
deriving DecidableEq, Repr

def ValueType.name : ValueType → String
  | integer => "integer"
  | float => "float"
  | text => "string"
  | boolean => "boolean"
  | null => "null"
  | array => "array"
  | function => "function"

namespace Value

def type : Value → ValueType
  | integer _ => .integer
  | float _ => .float
  | text _ => .text
  | boolean _ => .boolean
  | null => .null
  | array _ => .array
  | function _ => .function

/-- Zero, the empty text, the empty array, `false` and `null` count as false. -/
def isTruthy : Value → Bool
  | integer n => n != 0
  | float x => x != 0.0
  | text s => s != ""
  | boolean b => b
  | null => false
  | array items => !items.isEmpty
  | function _ => true

def isNull : Value → Bool
  | null => true
  | _ => false

def toFloat? : Value → Option Float
  | integer n => some n.toFloat
  | float x => some x
  | _ => none

mutual

/-- Equality as the language has it: numbers by value, arrays item by item, functions by
identity. -/
def equals : Value → Value → Bool
  | .integer a, .integer b => a = b
  | .text a, .text b => a = b
  | .boolean a, .boolean b => a = b
  | .null, .null => true
  | .array as, .array bs => equalLists as bs
  | .function f, .function g => f = g
  | a, b =>
    match a.toFloat?, b.toFloat? with
    | some x, some y => x == y
    | _, _ => false

def equalLists : List Value → List Value → Bool
  | [], [] => true
  | a :: as, b :: bs => equals a b && equalLists as bs
  | _, _ => false

end

mutual

def envs : Value → List ScopeId
  | .function (.closure _ env) => [env]
  | .array items => envsOf items
  | _ => []

def envsOf : List Value → List ScopeId
  | [] => []
  | v :: vs => envs v ++ envsOf vs

end

end Value

end ScriptKit
