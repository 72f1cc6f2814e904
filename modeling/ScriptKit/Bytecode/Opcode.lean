import ScriptKit.Bytecode.Basic

/-! The instructions of the machine: byte, mnemonic and operands of each. -/

namespace ScriptKit

inductive Mode where
  /-- The number of a general register. -/
  | register
  /-- A number as it stands. -/
  | immediate
  /-- An offset from the start of the program. -/
  | address
deriving DecidableEq, Repr

structure OperandSpec where
  width : Width
  mode : Mode
deriving DecidableEq, Repr

inductive Opcode where
  | nop
  | hlt
  | movIr
  | movRr
  | addRr
  | subRr
  | mulRr
  | jmp
  | jnz
  | regdump
  | syscall
deriving DecidableEq, Repr

namespace Opcode

/-- All opcodes, each at the index that is its byte. -/
def all : List Opcode :=
  [nop, hlt, movIr, movRr, addRr, subRr, mulRr, jmp, jnz, regdump, syscall]

def byte : Opcode → UInt8
  | nop => 0
  | hlt => 1
  | movIr => 2
  | movRr => 3
  | addRr => 4
  | subRr => 5
  | mulRr => 6
  | jmp => 7
  | jnz => 8
  | regdump => 9
  | syscall => 10

def ofByte? (b : UInt8) : Option Opcode :=
  all[b.toNat]?

def mnemonic : Opcode → String
  | nop => "nop"
  | hlt => "hlt"
  | movIr => "mov_ir"
  | movRr => "mov_rr"
  | addRr => "add_rr"
  | subRr => "sub_rr"
  | mulRr => "mul_rr"
  | jmp => "jmp"
  | jnz => "jnz"
  | regdump => "regdump"
  | syscall => "syscall"

/-- The opcode of a mnemonic. ASCII letters may be of either case. -/
def ofMnemonic? (text : List Char) : Option Opcode :=
  all.find? fun op => op.mnemonic.toList = text.map Char.toLower

def operands : Opcode → List OperandSpec
  | nop | hlt | regdump | syscall => []
  | movIr => [⟨.byte, .register⟩, ⟨.qword, .immediate⟩]
  | movRr | addRr | subRr | mulRr => [⟨.byte, .register⟩, ⟨.byte, .register⟩]
  | jmp => [⟨.dword, .address⟩]
  | jnz => [⟨.byte, .register⟩, ⟨.dword, .address⟩]

/-- The bytes of an instruction, its opcode included. -/
def size (op : Opcode) : Nat :=
  1 + op.operands.foldr (fun spec n => spec.width.size + n) 0

/-- Whether the machine does anything for an opcode but go on. -/
def isActive : Opcode → Bool
  | nop => false
  | _ => true

theorem size_pos (op : Opcode) : 0 < op.size := by
  unfold size
  omega

end Opcode

end ScriptKit
