import ScriptKit.Assembly.Disassembly
import ScriptKit.Assembly.Encode
import ScriptKit.Command.Basic

/-! The command that assembles programs and shows the code of assembled ones. -/

namespace ScriptKit.Command.Assembler

structure Request where
  path : String
  output : Option String
  disassemble : Bool
  asSource : Bool
deriving DecidableEq, Repr

def valued (name : String) : Bool :=
  name = "-o" || name = "--output"

def request? (args : List Argument) : Option Request := do
  let path ← args.findSome? fun
    | .positional path => some path
    | _ => none
  let output := args.findSome? fun
    | .option _ path => some path
    | _ => none
  return ⟨path, output, args.any fun a => a = .flag "-d" || a = .flag "--disassemble",
    args.contains (.flag "--source")⟩

/-- A file name up to its extension. A dot at the very front begins no extension. -/
def stem (name : List Char) : List Char :=
  let front := (name.reverse.dropWhile (· ≠ '.')).drop 1
  if front.isEmpty then name else front.reverse

def withExtension (path extension : String) : String :=
  let chars := (path.toList.reverse.dropWhile (· = '/')).reverse
  let name := (chars.reverse.takeWhile (· ≠ '/')).reverse
  let folder := chars.take (chars.length - name.length)
  if name.isEmpty ∨ name = ['.'] ∨ name = ['.', '.'] then path
  else String.ofList (folder ++ stem name) ++ "." ++ extension

def assembleFile (path output : String) (dir : Directory) : Outcome :=
  let failure (text : String) : Outcome := { status := 1, stderr := text, files := dir }
  match dir.readText path with
  | .error e => failure (error ("cannot read " ++ path ++ ": " ++ e.message))
  | .ok source =>
    match assemble source with
    | .error e => failure (e.diagnostic.render source path)
    | .ok code =>
      match dir.writeCode output code with
      | .error e => failure (error ("cannot write " ++ output ++ ": " ++ e.message))
      | .ok files =>
        { stderr := info ("assembled " ++ path ++ " -> " ++ output ++ " (" ++ toString code.size ++
            " bytes)"), files }

def disassembleFile (path : String) (asSource : Bool) (dir : Directory) : Outcome :=
  let failure (text : String) : Outcome :=
    { status := 1, stderr := error (path ++ ": " ++ text), files := dir }
  match dir.readCode path with
  | .error e => failure e.message
  | .ok code =>
    match disassemble code with
    | .error e => failure e.message
    | .ok ds =>
      { stdout := if asSource then Disassembly.source ds else Disassembly.listing code ds,
        files := dir }

def perform (r : Request) (dir : Directory) : Outcome :=
  if r.disassemble then disassembleFile r.path r.asSource dir
  else assembleFile r.path (r.output.getD (withExtension r.path "bvm")) dir

def run (args : List String) (dir : Directory) : Outcome :=
  let args := Argument.ofList valued args
  if Argument.asksVersion args then { stdout := version ++ "\n", files := dir }
  else
    match request? args with
    | some r => perform r dir
    | none => { status := 2, files := dir }

end ScriptKit.Command.Assembler
