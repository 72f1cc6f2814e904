import ScriptKit.Command.Basic
import ScriptKit.Session
import ScriptKit.Text.Grapheme
import ScriptKit.Text.WhiteSpace

/-! The command that runs scripts, pieces of code and interactive sessions. -/

namespace ScriptKit.Command.Script

inductive Subject where
  | code (text : String)
  | file (path : String)
  | input
  | session
deriving DecidableEq, Repr

structure Request where
  subject : Subject
  maxDepth : Nat
deriving DecidableEq, Repr

def valued (name : String) : Bool :=
  name = "-e" || name = "--eval" || name = "--max-depth"

/-- Code comes before a file, a file before a session, and the input is run if nothing is asked
for. -/
def request (args : List Argument) : Request :=
  let code? := args.findSome? fun
    | .option name text => if name = "-e" || name = "--eval" then some text else none
    | _ => none
  let path? := args.findSome? fun
    | .positional path => some path
    | _ => none
  let interactive := args.any fun a => a = .flag "-i" || a = .flag "--interactive"
  let maxDepth? := args.findSome? fun
    | .option "--max-depth" n => number? n
    | _ => none
  let subject := match code?, path? with
    | some text, _ => .code text
    | none, some "-" => .input
    | none, some path => .file path
    | none, none => if interactive then .session else .input
  ⟨subject, maxDepth?.getD ({ } : Options).maxDepth⟩

/-- Runs one source. Its value is written unless it is `null`. -/
def runSource (file source : String) (session : Session) (dir : Directory) : Outcome :=
  match session.eval source with
  | (.ok v, s) =>
    let value := if v.isNull then "" else v.toText ++ "\n"
    { stdout := s.world.out.text ++ value, files := dir }
  | (.error e, s) =>
    match e.exitStatus? with
    | some status => { status, stdout := s.world.out.text, files := dir }
    | none =>
      { status := 1, stdout := s.world.out.text, stderr := e.diagnostic.render source file,
        files := dir }

/-- Standard input as it reaches a session: it comes in blocks. A program that reads takes over all
that is left of the block at hand, and the session goes on with the next block. -/
structure Console where
  /-- How many bytes of the input came before `waiting`. -/
  position : Nat := 0
  waiting : List UInt8
  /-- What programs took over and have not read yet. -/
  taken : List UInt8 := []

namespace Console

def blockSize : Nat := 8192

def nextLine (c : Console) : List UInt8 × Console :=
  let (line, rest) := takeLine c.waiting
  (line, { c with position := c.position + line.length, waiting := rest })

def readable (c : Console) : List UInt8 :=
  c.taken ++ c.waiting

def afterReading (c : Console) (unread : List UInt8) : Console :=
  let used := c.readable.length - unread.length
  if used ≤ c.taken.length then { c with taken := c.taken.drop used }
  else
    let needed := c.position + (used - c.taken.length)
    let blockEnd := (needed + blockSize - 1) / blockSize * blockSize
    let moved := blockEnd - c.position
    ⟨c.position + moved, c.waiting.drop moved, (c.taken ++ c.waiting.take moved).drop used⟩

/-- A line while its backspaces are carried out: what is left of it, backwards, and the sizes in
bytes of the clusters it was made from, the last one first. A size is kept in one byte. -/
structure Draft where
  text : List Char := []
  sizes : List UInt8 := []

/-- Adds a cluster to a line. A backspace instead takes away as many bytes as the size of the last
cluster says, which is less than all of a cluster of 256 bytes or more. -/
def Draft.add (draft : Draft) (cluster : List Char) : Draft :=
  if cluster = ['\x08'] then
    match draft.sizes with
    | [] => draft
    | size :: sizes => ⟨(dropBytes? size.toNat draft.text).getD draft.text, sizes⟩
  else ⟨cluster.reverse ++ draft.text, UInt8.ofNat (byteLength cluster) :: draft.sizes⟩

/-- A line without its end, where each backspace has taken away the cluster before it. -/
def edited (line : List Char) : List Char :=
  ((Text.graphemes line).foldl Draft.add {}).text.reverse

end Console

structure Transcript where
  stdout : String := ""
  stderr : String := ""

/-- Reads and runs lines until the input ends or a line asks to exit. Empty lines are passed, and
errors do not end the session. `steps` bounds the number of lines. -/
def interact (session : Session) (console : Console) (seen : Transcript) :
    Nat → UInt8 × Transcript
  | 0 => (0, seen)
  | steps + 1 =>
    let (line, console) := console.nextLine
    if line.isEmpty then (0, seen)
    else
      match decodeText? (dropLineEnd line) with
      | none => (1, { seen with stderr := seen.stderr ++ error notText })
      | some text =>
        let source := String.ofList (Text.trim (Console.edited text.toList))
        if source = "" then interact session console seen steps
        else
          let ready := { session with world := { session.world with input := console.readable } }
          let (result, after) := ready.eval source
          let console := console.afterReading after.world.input
          let (written, after) := after.takeOutput
          let seen := { seen with stdout := seen.stdout ++ written }
          match result with
          | .ok v =>
            let value := if v.isNull then "" else v.toRepr ++ "\n"
            interact after console { seen with stdout := seen.stdout ++ value } steps
          | .error e =>
            match e.exitStatus? with
            | some status => (status, seen)
            | none =>
              let report := e.diagnostic.render source "<repl>"
              interact after console { seen with stderr := seen.stderr ++ report } steps

def runSession (session : Session) (input : List UInt8) (dir : Directory) : Outcome :=
  let banner := info (version ++ " (Ctrl+D to quit)")
  let (status, seen) :=
    interact session { waiting := input } { stderr := banner } (input.length + 1)
  { status, stdout := seen.stdout, stderr := seen.stderr, files := dir }

def hasExtension (path : String) : Bool :=
  ".bl".toList.isSuffixOf path.toList

def perform (r : Request) (input : List UInt8) (dir : Directory) : Outcome :=
  let session (input : List UInt8) : Session :=
    { options := { maxDepth := r.maxDepth }, world := { input } }
  match r.subject with
  | .code text => runSource "<eval>" text (session input) dir
  | .session => runSession (session []) input dir
  | .input =>
    match decodeText? input with
    | some source => runSource "<stdin>" source (session []) dir
    | none => { status := 1, stderr := error ("cannot read from stdin: " ++ notText), files := dir }
  | .file path =>
    let warning :=
      if hasExtension path then "" else warn ("`" ++ path ++ "` does not have the .bl extension")
    match dir.readText path with
    | .ok source =>
      let o := runSource path source (session input) dir
      { o with stderr := warning ++ o.stderr }
    | .error e =>
      { status := 1, stderr := warning ++ error ("cannot read `" ++ path ++ "`: " ++ e.message),
        files := dir }

def run (args : List String) (input : List UInt8) (dir : Directory) : Outcome :=
  let args := Argument.ofList valued args
  if Argument.asksVersion args then { stdout := version ++ "\n", files := dir }
  else perform (request args) input dir

end ScriptKit.Command.Script
