import ScriptKit.Assembly.Listing

/-! Turning a listing into code. Labels may be used before they are defined. -/

namespace ScriptKit.Assembly

/-- A general register: a percent sign, an `r` of either case, and a number below ten. -/
def register (text : List Char) : Except AsmErrorKind Nat :=
  match text with
  | '%' :: name =>
    let number := match name with
      | 'r' :: digits | 'R' :: digits => Text.readNat? 10 digits
      | _ => none
    match number with
    | some n => if n ≤ 9 then .ok n else .error (.invalidRegister (String.ofList text))
    | none => .error (.invalidRegister (String.ofList text))
  | _ => .error (.expectedRegister (String.ofList text))

/-- A number without a sign, hexadecimal behind `0x` or `0X` and else decimal. -/
def magnitude? : List Char → Option Nat
  | '0' :: 'x' :: digits | '0' :: 'X' :: digits => Text.readNat? 16 digits
  | digits => Text.readNat? 10 digits

/-- A number with an optional dollar sign and minus. It has to fit in the width, as an unsigned
number or, if negative, in two's complement. -/
def immediate (width : Width) (text : List Char) : Except AsmErrorKind Nat :=
  let body := match text with
    | '$' :: rest => rest
    | _ => text
  let (negative, digits) := match body with
    | '-' :: rest => (true, rest)
    | _ => (false, body)
  match magnitude? digits with
  | none => .error (.expectedImmediate (String.ofList text))
  | some n =>
    if negative then
      if n ≤ width.count / 2 then .ok ((width.count - n) % width.count)
      else .error (.immediateOutOfRange (String.ofList text))
    else if n < width.count then .ok n
    else .error (.immediateOutOfRange (String.ofList text))

def address (labels : List (String × Nat)) (width : Width) (text : List Char) :
    Except AsmErrorKind Nat :=
  if isIdentifier text then
    match labels.lookup (String.ofList text) with
    | none => .error (.undefinedLabel (String.ofList text))
    | some offset =>
      if offset < width.count then .ok offset
      else .error (.immediateOutOfRange (String.ofList text))
  else immediate width text

def operandValue (labels : List (String × Nat)) (spec : OperandSpec) (text : List Char) :
    Except AsmErrorKind Nat :=
  match spec.mode with
  | .register => register text
  | .immediate => immediate spec.width text
  | .address => address labels spec.width text

def encodeOperands (labels : List (String × Nat)) :
    List OperandSpec → List (List Char) → Except AsmErrorKind (List UInt8)
  | spec :: specs, text :: texts => do
    let n ← operandValue labels spec text
    let rest ← encodeOperands labels specs texts
    return toBytes spec.width.size n ++ rest
  | _, _ => .ok []

def Instruction.encode (labels : List (String × Nat)) (i : Instruction) :
    Except AsmError (List UInt8) :=
  match encodeOperands labels i.op.operands i.operands with
  | .ok bytes => .ok (i.op.byte :: bytes)
  | .error kind => .error ⟨i.line, kind⟩

def encodeAll (labels : List (String × Nat)) : List Instruction → Except AsmError (List UInt8)
  | [] => .ok []
  | i :: rest => do
    let bytes ← i.encode labels
    return bytes ++ (← encodeAll labels rest)

end ScriptKit.Assembly

namespace ScriptKit

/-- The code of a program in assembly. A line that cannot be read is reported before any operand
that cannot be encoded. -/
def assemble (source : String) : Except AsmError Bytecode := do
  let listing ← Assembly.Listing.ofSource source
  return .ofList (← Assembly.encodeAll listing.labels listing.instructions)

end ScriptKit
