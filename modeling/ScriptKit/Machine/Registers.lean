import ScriptKit.Text.Numeral

/-! The registers of the machine: ten general ones, the instruction pointer and the instruction
start, which is the address of the first byte of the program. -/

namespace ScriptKit

/-- The number of a general register. Only these can be operands. -/
abbrev GeneralRegister := Fin 10

inductive Register where
  | general (i : GeneralRegister)
  | ip
  | is
deriving DecidableEq, Repr

def GeneralRegister.ofByte? (b : UInt8) : Option GeneralRegister :=
  if h : b.toNat < 10 then some ⟨b.toNat, h⟩ else none

namespace Register

/-- All registers in the order of a dump. -/
def all : List Register :=
  (List.finRange 10).map general ++ [ip, is]

def name : Register → String
  | general i => "r" ++ toString i.val
  | ip => "ip"
  | is => "is"

def index : Register → Nat
  | general i => i.val
  | ip => 10
  | is => 11

def toText (r : Register) : String :=
  "%" ++ r.name

end Register

structure Registers where
  general : Vector UInt64 10 := Vector.replicate 10 0
  ip : UInt64 := 0
  is : UInt64 := 0
deriving DecidableEq, Repr

namespace Registers

def get (rs : Registers) : Register → UInt64
  | .general i => rs.general[i]
  | .ip => rs.ip
  | .is => rs.is

def set (rs : Registers) (r : Register) (v : UInt64) : Registers :=
  match r with
  | .general i => { rs with general := rs.general.set i.val v i.isLt }
  | .ip => { rs with ip := v }
  | .is => { rs with is := v }

/-- Name and value of a register in a column of a dump. The second column ends the line. -/
def column (rs : Registers) (r : Register) : String :=
  String.ofList (Text.padRight 3 r.name.toList) ++ " " ++ Text.hex 16 (rs.get r).toNat ++
    if r.index % 2 = 1 then "\n" else "    "

def dump (rs : Registers) : String :=
  String.join (Register.all.map rs.column)

end Registers

end ScriptKit
