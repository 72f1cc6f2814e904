import ScriptKit.Text.Numeral

/-! Code as bytes. A number of more than one byte has its lowest byte first. -/

namespace ScriptKit

inductive Width where
  | byte | word | dword | qword
deriving DecidableEq, Repr

def Width.size : Width → Nat
  | byte => 1
  | word => 2
  | dword => 4
  | qword => 8

def Width.count : Width → Nat
  | byte => 0x100
  | word => 0x10000
  | dword => 0x100000000
  | qword => 0x10000000000000000

/-- The lowest `count` bytes of a number, lowest first. -/
def toBytes : Nat → Nat → List UInt8
  | 0, _ => []
  | count + 1, n => UInt8.ofNat n :: toBytes count (n / 256)

def ofBytes : List UInt8 → Nat
  | [] => 0
  | b :: bs => b.toNat + 256 * ofBytes bs

def checkedAdd? (a b : UInt64) : Option UInt64 :=
  if a ≤ a + b then some (a + b) else none

structure OutOfBounds where
  address : Nat
  width : Nat
  length : Nat
deriving DecidableEq, Repr

def OutOfBounds.message (e : OutOfBounds) : String :=
  "read past end of bytecode: " ++ toString e.width ++ " byte(s) at " ++ Text.hex 1 e.address ++
    ", length " ++ toString e.length

structure Bytecode where
  bytes : Array UInt8 := #[]
deriving DecidableEq, Repr

namespace Bytecode

def ofList (bytes : List UInt8) : Bytecode :=
  ⟨bytes.toArray⟩

def toList (code : Bytecode) : List UInt8 :=
  code.bytes.toList

def size (code : Bytecode) : Nat :=
  code.bytes.size

def isEmpty (code : Bytecode) : Bool :=
  code.bytes.isEmpty

/-- Appends a number, cut to the width. -/
def push (code : Bytecode) (width : Width) (n : UInt64) : Bytecode :=
  ⟨code.bytes ++ toBytes width.size n.toNat⟩

def read (code : Bytecode) (width : Width) (address : Nat) : Except OutOfBounds UInt64 :=
  if address + width.size ≤ code.size then
    .ok (UInt64.ofNat (ofBytes (code.bytes.extract address (address + width.size)).toList))
  else .error ⟨address, width.size, code.size⟩

/-- The number of some width at an address of 64 bits. Its end has to be such an address, too. -/
def get (code : Bytecode) (width : Width) (address : UInt64) : Except OutOfBounds UInt64 :=
  match checkedAdd? address (UInt64.ofNat width.size) with
  | some stop =>
    if stop.toNat ≤ code.size then
      .ok (UInt64.ofNat (ofBytes (code.bytes.extract address.toNat stop.toNat).toList))
    else .error ⟨address.toNat, width.size, code.size⟩
  | none => .error ⟨address.toNat, width.size, code.size⟩

end Bytecode

end ScriptKit
