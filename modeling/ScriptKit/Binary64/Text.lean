import ScriptKit.Binary64.Shortest

/-! Floating-point numbers as text. They are written without an exponent, and a whole number keeps
`.0`, so that it does not look like an integer. -/

namespace ScriptKit.Binary64

def Decimal.positional (d : Decimal) : String :=
  let digits := Nat.toDigits 10 d.digits
  let places := (-d.exponent).toNat
  let digits := digits ++ List.replicate d.exponent.toNat '0'
  if places = 0 then String.ofList digits
  else
    let digits := List.replicate (places + 1 - digits.length) '0' ++ digits
    let whole := digits.length - places
    String.ofList (digits.take whole ++ '.' :: digits.drop whole)

def whole? (m : Nat) (q : Int) : Option Nat :=
  if 0 ≤ q then some (m <<< q.toNat)
  else
    let n := m >>> (-q).toNat
    if n <<< (-q).toNat = m then some n else none

/-- All digits of a whole number, and as few as read back of any other. -/
def toText (x : Float) : String :=
  let sign (negative : Bool) : String := if negative then "-" else ""
  match parts x with
  | .nan => "NaN"
  | .infinite negative => sign negative ++ "inf"
  | .finite negative m q =>
    match whole? m q with
    | some n => sign negative ++ toString n ++ ".0"
    | none => sign negative ++ (shortest m q).positional

end ScriptKit.Binary64
