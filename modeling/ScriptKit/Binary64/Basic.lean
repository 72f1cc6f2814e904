/-! Floating-point numbers of 64 bits as exact products `m · 2 ^ q`. -/

namespace ScriptKit.Binary64

/-- What 64 bits stand for. Both zeros are finite with `m = 0`. -/
inductive Parts where
  | nan
  | infinite (negative : Bool)
  | finite (negative : Bool) (m : Nat) (q : Int)
deriving DecidableEq, Repr

def leastExponent : Int := -1074

/-- The highest bit of `m`, which numbers above the smallest ones have and 64 bits leave out. -/
def hiddenBit : Nat := 0x10000000000000

def parts (x : Float) : Parts :=
  let bits := x.toBits.toNat
  let negative := bits.testBit 63
  let exponent := (bits >>> 52) % 2048
  let fraction := bits % hiddenBit
  if exponent = 2047 then if fraction = 0 then .infinite negative else .nan
  else if exponent = 0 then .finite negative fraction leastExponent
  else .finite negative (fraction + hiddenBit) (leastExponent + (exponent - 1 : Nat))

/-- What is left of `x` when `y` is taken from it as often as it fits, toward zero. It is exact and
has the sign of `x`. There is no remainder of an infinite number, or by zero. -/
def remainder (x y : Float) : Float :=
  match parts x, parts y with
  | .finite negative m p, .finite _ n q =>
    if n = 0 then 0.0 / 0.0
    else
      let e := min p q
      let r := (m <<< (p - e).toNat) % (n <<< (q - e).toNat)
      let size := (Float.ofNat r).scaleB e
      if negative then -size else size
  | .finite .., .infinite _ => x
  | _, _ => 0.0 / 0.0

end ScriptKit.Binary64
