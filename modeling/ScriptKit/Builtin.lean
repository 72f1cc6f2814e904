/-! The functions that are known without a declaration. -/

namespace ScriptKit

inductive Builtin where
  | println
  | print
  | array
  | vector
  | arrayFilter
  | read
  | exit
deriving DecidableEq, Repr

namespace Builtin

def all : List Builtin := [println, print, array, vector, arrayFilter, read, exit]

def name : Builtin → String
  | println => "println"
  | print => "print"
  | array => "array"
  | vector => "vector"
  | arrayFilter => "array_filter"
  | read => "read"
  | exit => "exit"

def ofName? (name : String) : Option Builtin :=
  all.find? (·.name = name)

end Builtin

end ScriptKit
