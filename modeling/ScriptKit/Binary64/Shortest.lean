import ScriptKit.Binary64.Basic

/-! The shortest decimal that reads back as a given floating-point number.

A number `m · 2 ^ q` is what every real nearer to it than to its neighbours rounds to. Counted in
quarters of `2 ^ q` this range runs from `4 m - 2` to `4 m + 2`, or from `4 m - 1` where the numbers
below lie closer together; its ends belong to it if `m` is even. -/

namespace ScriptKit.Binary64

structure Decimal where
  digits : Nat
  exponent : Int
deriving DecidableEq, Repr

/-- The range of reals that round to `m · 2 ^ q`, in quarters of `2 ^ q`. -/
structure Range where
  low : Nat
  middle : Nat
  high : Nat
  closed : Bool

def Range.of (m : Nat) (q : Int) : Range where
  low := if m = hiddenBit ∧ leastExponent < q then 4 * m - 1 else 4 * m - 2
  middle := 4 * m
  high := 4 * m + 2
  closed := m % 2 = 0

/-- Quarters of `2 ^ q`, measured against the multiples of `10 ^ p`: the number `n` of quarters is
`n * quarter / unit` such multiples. -/
structure Grid where
  quarter : Nat
  unit : Nat

def Grid.of (q p : Int) : Grid where
  quarter := Nat.pow 10 (-p).toNat <<< (q - 2).toNat
  unit := Nat.pow 10 p.toNat <<< (2 - q).toNat

def Grid.holds (g : Grid) (r : Range) (n : Nat) : Bool :=
  if r.closed then r.low * g.quarter ≤ n * g.unit && n * g.unit ≤ r.high * g.quarter
  else r.low * g.quarter < n * g.unit && n * g.unit < r.high * g.quarter

/-- The multiple of the grid in the range that is nearest to its middle; of two equally near ones it
is the greater. -/
def Grid.nearest? (g : Grid) (r : Range) : Option Nat :=
  let value := r.middle * g.quarter
  let below := value / g.unit
  let above := below + 1
  if g.holds r above && (!g.holds r below || above * g.unit - value ≤ value - below * g.unit) then
    some above
  else if g.holds r below then some below
  else none

def search (r : Range) (q : Int) : Nat → Int → Decimal
  | 0, p => ⟨0, p⟩
  | n + 1, p =>
    match (Grid.of q p).nearest? r with
    | some digits => ⟨digits, p⟩
    | none => search r q n (p - 1)

/-- The decimal with the fewest digits that rounds to `m · 2 ^ q`, and of those the nearest one. -/
def shortest (m : Nat) (q : Int) : Decimal :=
  let r := Range.of m q
  let g := Grid.of q 0
  search r q 700 (Nat.toDigits 10 (r.high * g.quarter / g.unit)).length

end ScriptKit.Binary64
