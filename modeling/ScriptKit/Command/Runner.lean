import ScriptKit.Command.Basic
import ScriptKit.Machine.Basic

/-! The command that runs assembled programs on the machine. -/

namespace ScriptKit.Command.Runner

structure Request where
  path : Option String
  demo : Bool
  /-- Zero stands for no limit. -/
  cycles : Option Nat
  trace : Bool
  dump : Bool
deriving DecidableEq, Repr

def valued (name : String) : Bool :=
  name = "--cycles"

def request (args : List Argument) : Request where
  path := args.findSome? fun
    | .positional path => some path
    | _ => none
  demo := args.contains (.flag "--demo")
  cycles := args.findSome? fun
    | .option "--cycles" n => number? n
    | _ => none
  trace := args.contains (.flag "--trace")
  dump := args.contains (.flag "--dump")

/-- A program that leaves 3 + 2 in the first register. -/
def demoProgram : Bytecode :=
  let move (code : Bytecode) (r n : UInt64) : Bytecode :=
    ((code.push .byte Opcode.movIr.byte.toUInt64).push .byte r).push .qword n
  let code := move (move {} 0 3) 1 2
  let code := ((code.push .byte Opcode.addRr.byte.toUInt64).push .byte 0).push .byte 1
  code.push .byte Opcode.hlt.byte.toUInt64

def machine (r : Request) : Machine :=
  let options : MachineOptions := { trace := r.trace }
  { options := match r.cycles with
      | none => options
      | some 0 => { options with budget := none }
      | some n => { options with budget := some n } }

/-- Runs code and tells how it ended. The registers are shown if asked for, with the errors after a
fault. -/
def runCode (r : Request) (code : Bytecode) (dir : Directory) : Outcome :=
  let (m, progress) := (machine r).run code
  let trace := String.join (m.notes.reverse.map info)
  let dump := if r.dump then m.registers.dump else ""
  match progress with
  | .faulted f =>
    { status := 1, stdout := m.out.text, stderr := trace ++ error f.message ++ dump, files := dir }
  | _ =>
    let first := toString (m.registers.get (.general 0)).toNat
    let result := if r.demo then info ("r0 = " ++ first) else ""
    { stdout := m.out.text ++ dump,
      stderr := trace ++ result ++ info ("halted after " ++ toString m.cycles ++ " cycles"),
      files := dir }

def perform (r : Request) (dir : Directory) : Outcome :=
  if r.demo then runCode r demoProgram dir
  else
    match r.path with
    | none => { status := 2, files := dir }
    | some path =>
      match dir.readCode path with
      | .ok code => runCode r code dir
      | .error e => { status := 1, stderr := error (path ++ ": " ++ e.message), files := dir }

def run (args : List String) (dir : Directory) : Outcome :=
  let args := Argument.ofList valued args
  if Argument.asksVersion args then { stdout := version ++ "\n", files := dir }
  else perform (request args) dir

end ScriptKit.Command.Runner
