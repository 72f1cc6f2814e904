/-! Numerals: writing them in columns and reading them digit by digit. -/

namespace ScriptKit.Text

def padLeft (width : Nat) (fill : Char) (text : List Char) : List Char :=
  List.replicate (width - text.length) fill ++ text

def padRight (width : Nat) (text : List Char) : List Char :=
  text ++ List.replicate (width - text.length) ' '

def hexDigits (width n : Nat) : List Char :=
  padLeft width '0' (Nat.toDigits 16 n)

def hex (width n : Nat) : String :=
  "0x" ++ String.ofList (hexDigits width n)

def digitValue? (c : Char) : Option Nat :=
  if '0' ≤ c ∧ c ≤ '9' then some (c.toNat - '0'.toNat)
  else if 'a' ≤ c ∧ c ≤ 'f' then some (c.toNat - 'a'.toNat + 10)
  else if 'A' ≤ c ∧ c ≤ 'F' then some (c.toNat - 'A'.toNat + 10)
  else none

/-- The number written by digits of a base, the first digit being the highest. Nothing is written by
no digits, or by a character that is no digit of the base. -/
def readNat? (base : Nat) : List Char → Option Nat
  | [] => none
  | digits => digits.foldlM (fun n c => do
      let d ← digitValue? c
      if d < base then some (n * base + d) else none) 0

def readInt? : List Char → Option Int
  | '-' :: digits => (readNat? 10 digits).map fun n : Nat => -(n : Int)
  | '+' :: digits | digits => (readNat? 10 digits).map Int.ofNat

end ScriptKit.Text
