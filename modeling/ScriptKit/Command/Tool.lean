import ScriptKit.Command.Assembler
import ScriptKit.Command.Runner
import ScriptKit.Command.Script

/-! The three commands under their names. -/

namespace ScriptKit.Command

inductive Tool where
  | script
  | assembler
  | runner
deriving DecidableEq, Repr

namespace Tool

def ofName? : String → Option Tool
  | "bl" => some script
  | "bas" => some assembler
  | "bvm" => some runner
  | _ => none

def run (tool : Tool) (args : List String) (input : List UInt8) (dir : Directory) : Outcome :=
  match tool with
  | script => Script.run args input dir
  | assembler => Assembler.run args dir
  | runner => Runner.run args dir

end Tool

end ScriptKit.Command
