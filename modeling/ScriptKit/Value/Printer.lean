import ScriptKit.Binary64.Text
import ScriptKit.Value.Basic

/-! Values as text. -/

namespace ScriptKit.Value

def quoted (s : String) : String :=
  "\"" ++ s ++ "\""

mutual

/-- A value as a program prints it. Inside an array a text has quotes. -/
def toText : Value → String
  | .integer n => toString n.toInt
  | .float x => Binary64.toText x
  | .text s => s
  | .boolean b => if b then "true" else "false"
  | .null => "null"
  | .array items => "[" ++ ", ".intercalate (reprs items) ++ "]"
  | .function (.builtin b) => "<builtin " ++ b.name ++ ">"
  | .function (.closure func _) => "<function #" ++ toString func ++ ">"

def reprs : List Value → List String
  | [] => []
  | .text s :: vs => quoted s :: reprs vs
  | v :: vs => toText v :: reprs vs

end

/-- A value as it stands in a program, as far as it can: a text has quotes. -/
def toRepr : Value → String
  | text s => quoted s
  | v => v.toText

end ScriptKit.Value
