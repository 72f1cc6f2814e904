import ScriptKit.Bytecode.Container
import ScriptKit.Stream

/-! What the commands share: arguments, a directory of files, and what a command leaves behind. -/

namespace ScriptKit.Command

def version : String := "blang 0.4.2"

inductive Argument where
  | flag (name : String)
  | option (name value : String)
  | positional (text : String)
deriving DecidableEq, Repr

namespace Argument

def joined? (arg : String) : Option Argument :=
  match arg.toList with
  | '-' :: '-' :: _ =>
    match arg.toList.dropWhile (· ≠ '=') with
    | [] => none
    | _ :: value =>
      some (option (String.ofList (arg.toList.takeWhile (· ≠ '='))) (String.ofList value))
  | _ => none

/-- Whether an argument names an option. A single minus does not. -/
def isOption (arg : String) : Bool :=
  match arg.toList with
  | '-' :: _ :: _ => true
  | _ => false

/-- The arguments of a command line. `valued` says which options take the argument behind them as
their value. -/
def ofList (valued : String → Bool) : List String → List Argument
  | [] => []
  | [arg] => [single arg]
  | arg :: value :: rest =>
    if valued arg then option arg value :: ofList valued rest
    else single arg :: ofList valued (value :: rest)
where
  single (arg : String) : Argument :=
    match joined? arg with
    | some a => a
    | none => if isOption arg then flag arg else positional arg

def asksVersion (args : List Argument) : Bool :=
  args.any fun a => a = flag "--version" || a = flag "-V"

end Argument

/-- A number of an option. It may have a plus in front. -/
def number? (text : String) : Option Nat :=
  match text.toList with
  | '+' :: digits => Text.readNat? 10 digits
  | digits => Text.readNat? 10 digits

/-- The parts of a path between slashes, with a slash in front if the path begins with one. A dot
stands for the folder at hand, and so does nothing between two slashes or behind the last one. -/
def pathParts (path : String) : List String :=
  let parts := (path.splitOn "/").map fun part => if part = "" then "." else part
  if path.toList.head? = some '/' then "/" :: parts.drop 1 else parts

/-- What a file holds, and who may do what with it: three bits each for its owner, its group and
all others, to read, write and run it. -/
structure File where
  bytes : List UInt8
  mode : Nat := 0o644
deriving DecidableEq, Repr

namespace File

/-- Whether the owner may run a file. -/
def isExecutable (file : File) : Bool :=
  file.mode.testBit 6

end File

structure Directory where
  files : List (List String × File) := []
  folders : List (List String) := []

inductive FileError where
  | notThere
  /-- A path leads through something that is no folder. -/
  | notFolder
  /-- A path leads to a folder. -/
  | isFolder
  /-- The bytes of a file encode no text. -/
  | notText
deriving DecidableEq, Repr

def FileError.message : FileError → String
  | notThere => "No such file or directory (os error 2)"
  | notFolder => "Not a directory (os error 20)"
  | isFolder => "Is a directory (os error 21)"
  | notText => ScriptKit.notText

namespace Directory

def ofFiles (files : List (String × List UInt8)) : Directory :=
  let named := files.map fun (path, bytes) => ((pathParts path).filter (· ≠ "."), bytes)
  { files := named.map fun (name, bytes) => (name, { bytes })
    folders := named.flatMap fun (name, _) => (List.range name.length).map name.take }

/-- Whether a name is that of a folder. The folder at hand is always there. -/
def isFolder (dir : Directory) (name : List String) : Bool :=
  name.isEmpty || name = ["/"] || dir.folders.contains name

def outside (folder : List String) : List String :=
  if folder = ["/"] then folder
  else if folder.isEmpty || folder.getLast? = some ".." then folder ++ [".."]
  else folder.dropLast

/-- The name that a path leads to from a folder, part by part. Every part but the last has to lead
to a folder that is there. -/
def walk (dir : Directory) (folder : List String) : List String → Except FileError (List String)
  | [] => .ok folder
  | "." :: rest => walk dir folder rest
  | part :: rest =>
    let name := if part = ".." then outside folder else folder ++ [part]
    if rest.isEmpty || dir.isFolder name then walk dir name rest
    else if (dir.files.lookup name).isSome then .error .notFolder
    else .error .notThere

/-- The name that a path leads to. The empty path leads nowhere. -/
def locate (dir : Directory) (path : String) : Except FileError (List String) :=
  if path = "" then .error .notThere else dir.walk [] (pathParts path)

def file (dir : Directory) (path : String) : Except FileError File := do
  let name ← dir.locate path
  match dir.files.lookup name with
  | some file => return file
  | none => .error (if dir.isFolder name then .isFolder else .notThere)

def readText (dir : Directory) (path : String) : Except FileError String := do
  match decodeText? (← dir.file path).bytes with
  | some text => return text
  | none => .error .notText

def write (dir : Directory) (path : String) (file : File) : Except FileError Directory := do
  let name ← dir.locate path
  if dir.isFolder name then .error .isFolder
  else return { dir with files := (name, file) :: dir.files.filter (·.1 ≠ name) }

def readCode (dir : Directory) (path : String) : Except ContainerError Bytecode :=
  match dir.file path with
  | .ok file => Container.decode file.bytes
  | .error e => .error (.io e.message)

def writeCode (dir : Directory) (path : String) (code : Bytecode) :
    Except ContainerError Directory :=
  (dir.write path ⟨Container.encode code, 0o755⟩).mapError fun e => .io e.message

end Directory

structure Outcome where
  status : UInt8 := 0
  stdout : String := ""
  stderr : String := ""
  files : Directory

def info (text : String) : String :=
  "\x1b[1;34minfo:\x1b[0m " ++ text ++ "\n"

def warn (text : String) : String :=
  "\x1b[1;33mwarn:\x1b[0m " ++ text ++ "\n"

def error (text : String) : String :=
  "\x1b[1;31merror:\x1b[0m " ++ text ++ "\n"

end ScriptKit.Command
