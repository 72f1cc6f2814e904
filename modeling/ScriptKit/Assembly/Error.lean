import ScriptKit.Bytecode.Opcode
import ScriptKit.Diagnostic

/-! What can be wrong with a program in assembly. -/

namespace ScriptKit

inductive AsmErrorKind where
  | unknownMnemonic (text : String)
  | operandCount (op : Opcode) (found : Nat)
  | expectedRegister (text : String)
  | expectedImmediate (text : String)
  | invalidRegister (text : String)
  | undefinedLabel (name : String)
  | duplicateLabel (name : String)
  | immediateOutOfRange (text : String)
deriving DecidableEq, Repr

structure AsmError where
  line : Nat
  kind : AsmErrorKind
deriving DecidableEq, Repr

namespace AsmError

def message (e : AsmError) : String :=
  match e.kind with
  | .unknownMnemonic text => "unknown mnemonic `" ++ text ++ "`"
  | .operandCount op found =>
    "wrong number of operands: `" ++ op.mnemonic ++ "` takes " ++ toString op.operands.length ++
      ", found " ++ toString found
  | .expectedRegister text => "expected a register `" ++ text ++ "`"
  | .expectedImmediate text => "expected an immediate `" ++ text ++ "`"
  | .invalidRegister text => "invalid register `" ++ text ++ "`"
  | .undefinedLabel name => "undefined label `" ++ name ++ "`"
  | .duplicateLabel name => "label defined twice `" ++ name ++ "`"
  | .immediateOutOfRange text => "immediate out of range `" ++ text ++ "`"

def diagnostic (e : AsmError) : Diagnostic :=
  { code := "asm", message := e.message, location := .place ⟨e.line, 1⟩ }

end AsmError

end ScriptKit
