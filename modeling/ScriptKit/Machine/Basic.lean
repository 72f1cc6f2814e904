import ScriptKit.Bytecode.Opcode
import ScriptKit.Machine.Registers
import ScriptKit.Stream

/-! The machine: one instruction at a time, and whole programs.

A program is loaded at a base address. Operands are fetched when an instruction needs them. The
machine stops when the instruction pointer is zero. -/

namespace ScriptKit

inductive FaultKind where
  | invalidOpcode (b : UInt8)
  | invalidRegister (b : UInt8)
  /-- The instruction pointer has left the program. -/
  | ipOutOfRange
  /-- An operand reaches past the end of the program. -/
  | outOfBounds (e : OutOfBounds)
  | syscallUnimplemented
  | budgetExhausted (budget : Nat)
  | cancelled
  | io (message : String)
  /-- A program cannot be loaded at the address that means to stop. -/
  | zeroBase
deriving DecidableEq, Repr

structure Fault where
  kind : FaultKind
  ip : UInt64
deriving DecidableEq, Repr

def Fault.message (f : Fault) : String :=
  match f.kind with
  | .invalidOpcode b => "invalid opcode " ++ Text.hex 2 b.toNat ++ position
  | .invalidRegister b => "invalid register " ++ Text.hex 2 b.toNat ++ position
  | .ipOutOfRange => "instruction pointer out of range" ++ position
  | .outOfBounds e => "operand out of bounds" ++ position ++ ": " ++ e.message
  | .syscallUnimplemented => "syscall is not implemented" ++ position
  | .budgetExhausted n => "cycle budget exhausted after " ++ toString n ++ " cycles" ++ position
  | .cancelled => "execution cancelled" ++ position
  | .io message => "i/o error" ++ position ++ ": " ++ message
  | .zeroBase => "load address must not be zero"
where
  position : String := " at " ++ Text.hex 1 f.ip.toNat

inductive MachineState where
  | ready | running | halted | faulted
deriving DecidableEq, Repr

structure MachineOptions where
  /-- The address of the first byte of a program. -/
  base : UInt64 := 0x1000
  /-- How many cycles a program may take. -/
  budget : Option Nat := some 1000000
  /-- Whether to note every instruction. -/
  trace : Bool := false

structure Machine where
  options : MachineOptions := {}
  registers : Registers := {}
  state : MachineState := .ready
  cycles : Nat := 0
  /-- Whether someone asked the machine to give up. -/
  cancelled : Bool := false
  out : Sink := {}
  /-- The notes of a trace, the latest first. -/
  notes : List String := []

inductive Flow where
  | jump (address : UInt64)
  | next
deriving DecidableEq, Repr

/-- What an instruction does to the machine. If it fails, it leaves the machine as it is then. -/
abbrev Handler := EStateM Fault Machine

namespace Machine

def fail {α : Type} (kind : FaultKind) : Handler α := do
  throw ⟨kind, (← get).registers.ip⟩

def orFail {α : Type} : Except FaultKind α → Handler α
  | .ok a => return a
  | .error kind => fail kind

def fetch (code : Bytecode) (width : Width) (offset : Nat) : Except FaultKind UInt64 :=
  (code.read width offset).mapError .outOfBounds

def fetchRegister (code : Bytecode) (offset : Nat) : Except FaultKind Register := do
  let b ← fetch code .byte offset
  match GeneralRegister.ofByte? b.toUInt8 with
  | some r => return .general r
  | none => .error (.invalidRegister b.toUInt8)

/-- An address operand counts from the instruction start. -/
def fetchTarget (m : Machine) (code : Bytecode) (offset : Nat) : Except FaultKind UInt64 := do
  return m.registers.is + (← fetch code .dword offset)

def setRegister (m : Machine) (r : Register) (v : UInt64) : Machine :=
  { m with registers := m.registers.set r v }

def combine (code : Bytecode) (offset : Nat) (f : UInt64 → UInt64 → UInt64) : Handler Flow := do
  let dst ← orFail (fetchRegister code (offset + 1))
  let src ← orFail (fetchRegister code (offset + 2))
  let m ← get
  set (m.setRegister dst (f (m.registers.get dst) (m.registers.get src)))
  return .next

/-- What an instruction at an offset does. Arithmetic wraps around at 64 bits. -/
def execute (code : Bytecode) (offset : Nat) : Opcode → Handler Flow
  | .nop => return .next
  | .hlt => return .jump 0
  | .movIr => do
    let dst ← orFail (fetchRegister code (offset + 1))
    let v ← orFail (fetch code .qword (offset + 2))
    modify (·.setRegister dst v)
    return .next
  | .movRr => combine code offset fun _ src => src
  | .addRr => combine code offset (· + ·)
  | .subRr => combine code offset (· - ·)
  | .mulRr => combine code offset (· * ·)
  | .jmp => do
    let target ← orFail ((← get).fetchTarget code (offset + 1))
    return .jump target
  | .jnz => do
    let r ← orFail (fetchRegister code (offset + 1))
    let target ← orFail ((← get).fetchTarget code (offset + 2))
    return if (← get).registers.get r = 0 then .next else .jump target
  | .regdump => do
    let m ← get
    let out ← orFail ((m.out.write m.registers.dump).mapError .io)
    set { m with out }
    return .next
  | .syscall => fail .syscallUnimplemented

def current (m : Machine) (code : Bytecode) : Except FaultKind (Opcode × Nat) :=
  let offset := m.registers.ip.toNat - m.registers.is.toNat
  if m.registers.is ≤ m.registers.ip ∧ offset < code.size then do
    let b ← fetch code .byte offset
    match Opcode.ofByte? b.toUInt8 with
    | some op => return (op, offset)
    | none => .error (.invalidOpcode b.toUInt8)
  else .error .ipOutOfRange

def obstacle? (m : Machine) : Option FaultKind :=
  if m.cancelled then some .cancelled
  else
    match m.options.budget with
    | some n => if n ≤ m.cycles then some (.budgetExhausted n) else none
    | none => none

def note (m : Machine) (op : Opcode) : String :=
  Text.hex 4 m.registers.ip.toNat ++ " " ++ String.ofList (Text.padRight 8 op.mnemonic.toList) ++
    " cycle " ++ toString m.cycles

def begin (m : Machine) (op : Opcode) : Machine :=
  { m with
    cycles := m.cycles + 1
    notes := if m.options.trace then m.note op :: m.notes else m.notes }

inductive Progress where
  | running | halted | faulted (f : Fault)
deriving DecidableEq, Repr

def moveOn (m : Machine) (op : Opcode) : Flow → Machine
  | .jump address => m.setRegister .ip address
  | .next => m.setRegister .ip (m.registers.ip + UInt64.ofNat op.size)

def step (m : Machine) (code : Bytecode) : Machine × Progress :=
  let fault (kind : FaultKind) : Progress := .faulted ⟨kind, m.registers.ip⟩
  if m.registers.ip = 0 then (m, .halted)
  else
    match m.obstacle? with
    | some kind => (m, fault kind)
    | none =>
      match m.current code with
      | .error kind => (m, fault kind)
      | .ok (op, offset) =>
        match execute code offset op (m.begin op) with
        | .error f m => (m, .faulted f)
        | .ok flow m =>
          let m := m.moveOn op flow
          (m, if m.registers.ip = 0 then .halted else .running)

/-- Up to `n` instructions. The answer is `running` if the program is not over then. -/
def runFor (code : Bytecode) : Nat → Machine → Machine × Progress
  | 0, m => (m, .running)
  | n + 1, m =>
    match m.step code with
    | (m, .running) => runFor code n m
    | (m, .halted) => ({ m with state := .halted }, .halted)
    | (m, .faulted f) => ({ m with state := .faulted }, .faulted f)

def load (m : Machine) : Machine :=
  { m with
    registers := { ip := m.options.base, is := m.options.base }
    cycles := 0
    state := .running }

/-- Instructions enough for every program that keeps to its budget. Without a budget this many are
more than a machine gets through in a lifetime. -/
def enough (m : Machine) : Nat :=
  match m.options.budget with
  | some n => n + 1
  | none => UInt64.size

def run (m : Machine) (code : Bytecode) : Machine × Progress :=
  if m.options.base = 0 then ({ m with state := .faulted }, .faulted ⟨.zeroBase, 0⟩)
  else runFor code m.enough m.load

end Machine

end ScriptKit
