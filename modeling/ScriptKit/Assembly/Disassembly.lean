import ScriptKit.Bytecode.Opcode
import ScriptKit.Machine.Registers

/-! Reading instructions off code by the table of opcodes, and writing them as text. -/

namespace ScriptKit

inductive Operand where
  | register (r : GeneralRegister)
  | immediate (n : UInt64)
  | address (n : UInt64)
deriving DecidableEq, Repr

def Operand.toText : Operand → String
  | register r => (Register.general r).toText
  | immediate n | address n => Text.hex 1 n.toNat

structure Decoded where
  offset : Nat
  op : Opcode
  operands : List Operand
deriving DecidableEq, Repr

namespace Decoded

def size (d : Decoded) : Nat :=
  d.op.size

def toText (d : Decoded) : String :=
  match d.operands with
  | [] => d.op.mnemonic
  | operands => d.op.mnemonic ++ " " ++ ", ".intercalate (operands.map Operand.toText)

end Decoded

inductive DisasmErrorKind where
  | invalidOpcode (b : UInt8)
  | invalidRegister (b : UInt8)
  | truncated (e : OutOfBounds)
deriving DecidableEq, Repr

structure DisasmError where
  offset : Nat
  kind : DisasmErrorKind
deriving DecidableEq, Repr

def DisasmError.message (e : DisasmError) : String :=
  match e.kind with
  | .invalidOpcode b => "invalid opcode " ++ Text.hex 2 b.toNat ++ position
  | .invalidRegister b => "invalid register " ++ Text.hex 2 b.toNat ++ position
  | .truncated _ => "truncated instruction" ++ position
where
  position : String := " at offset " ++ Text.hex 1 e.offset

namespace Disassembly

def operand (mode : Mode) (n : UInt64) : Except DisasmErrorKind Operand :=
  match mode with
  | .immediate => .ok (.immediate n)
  | .address => .ok (.address n)
  | .register =>
    match GeneralRegister.ofByte? n.toUInt8 with
    | some r => .ok (.register r)
    | none => .error (.invalidRegister n.toUInt8)

def operands (code : Bytecode) (address : Nat) :
    List OperandSpec → Except DisasmErrorKind (List Operand)
  | [] => .ok []
  | spec :: specs => do
    let n ← (code.read spec.width address).mapError .truncated
    let first ← operand spec.mode n
    let rest ← operands code (address + spec.width.size) specs
    return first :: rest

end Disassembly

def decodeAt (code : Bytecode) (offset : Nat) : Except DisasmError Decoded :=
  let fail {α : Type} (kind : DisasmErrorKind) : Except DisasmError α := .error ⟨offset, kind⟩
  match code.read .byte offset with
  | .error e => fail (.truncated e)
  | .ok b =>
    match Opcode.ofByte? b.toUInt8 with
    | none => fail (.invalidOpcode b.toUInt8)
    | some op =>
      match Disassembly.operands code (offset + 1) op.operands with
      | .ok operands => .ok ⟨offset, op, operands⟩
      | .error kind => fail kind

def decodeFrom (code : Bytecode) (offset : Nat) : Except DisasmError (List Decoded) :=
  if offset < code.size then
    match decodeAt code offset with
    | .error e => .error e
    | .ok d => (decodeFrom code (offset + d.size)).map (d :: ·)
  else .ok []
termination_by code.size - offset
decreasing_by
  have := d.op.size_pos
  simp only [Decoded.size]
  omega

def disassemble (code : Bytecode) : Except DisasmError (List Decoded) :=
  decodeFrom code 0

namespace Disassembly

/-- The instructions as a program that can be assembled. -/
def source (ds : List Decoded) : String :=
  String.join (ds.map fun d => d.toText ++ "\n")

/-- An instruction with its offset and its bytes in front. -/
def row (code : Bytecode) (d : Decoded) : String :=
  let bytes := (code.bytes.extract d.offset (d.offset + d.size)).toList
  let column := " ".intercalate (bytes.map fun b => String.ofList (Text.hexDigits 2 b.toNat))
  String.ofList (Text.hexDigits 8 d.offset) ++ "  " ++
    String.ofList (Text.padRight 30 column.toList) ++ "  " ++ d.toText ++ "\n"

def listing (code : Bytecode) (ds : List Decoded) : String :=
  String.join (ds.map (row code))

end Disassembly

end ScriptKit
