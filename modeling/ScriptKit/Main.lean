import ScriptKit.Command.Tool

/-! The command line: the first argument names a command, the others are for it. -/

namespace ScriptKit.Command

def joinPath : List String → String
  | "/" :: parts => "/" ++ "/".intercalate parts
  | parts => "./" ++ "/".intercalate parts

/-- The files that arguments name, and the folders that are there for new ones. -/
def loadDirectory (args : List String) : IO Directory := do
  let mut dir : Directory := {}
  for arg in args do
    let parts := pathParts arg
    for n in List.range (parts.length + 1) do
      if let .ok _ ← (IO.FS.realPath (joinPath (parts.take n ++ ["."]))).toBaseIO then
        if let .ok name := dir.walk [] (parts.take n) then
          dir := { dir with folders := name :: dir.folders }
    if let .ok bytes ← (IO.FS.readBinFile arg).toBaseIO then
      if let .ok name := dir.locate arg then
        dir := { dir with files := (name, { bytes := bytes.data.toList }) :: dir.files }
  return dir

def accessRight (bits : Nat) : IO.AccessRight :=
  { read := bits.testBit 2, write := bits.testBit 1, execution := bits.testBit 0 }

def storeNew (before after : Directory) : IO Unit := do
  for (parts, file) in after.files do
    unless before.files.lookup parts = some file do
      IO.FS.writeBinFile (joinPath parts) ⟨file.bytes.toArray⟩
      IO.setAccessRights (joinPath parts)
        ⟨accessRight (file.mode / 64), accessRight (file.mode / 8), accessRight file.mode⟩

def start (tool : Tool) (args : List String) : IO UInt32 := do
  let input ← if tool = .script then (← IO.getStdin).readBinToEnd else pure ByteArray.empty
  let dir ← loadDirectory args
  let outcome := tool.run args input.data.toList dir
  IO.print outcome.stdout
  IO.eprint outcome.stderr
  storeNew dir outcome.files
  return outcome.status.toUInt32

end ScriptKit.Command

def main (args : List String) : IO UInt32 :=
  match args with
  | [] => return 2
  | name :: args =>
    match ScriptKit.Command.Tool.ofName? name with
    | some tool => ScriptKit.Command.start tool args
    | none => return 2
