import Narrowing.Decimal.Basic

/-!
The shortest decimal text of a double: the fewest digits that read back as the same double, and
among those the nearest to it. The search runs over finer and finer decimal grids and tests, in
exact arithmetic, the two neighbours of the number on each.
-/
namespace Narrowing

/-- The numbers that round to one double, over the denominator `den`: all between `low` and
    `high`, the ends included when `closed`. -/
structure Neighborhood where
  low : Nat
  value : Nat
  high : Nat
  den : Nat
  closed : Bool
  deriving DecidableEq, Repr

namespace Neighborhood

/- The half gap downward is half as wide just above a power of two, the smallest normal apart. -/
def ofMagnitude (m : Magnitude) : Neighborhood :=
  let unit := Nat.pow 2 (m.exponent - 2).toNat
  let below := if m.mantissa = Nat.pow 2 52 ∧ -1074 < m.exponent then 1 else 2
  { low := (4 * m.mantissa - below) * unit
    value := 4 * m.mantissa * unit
    high := (4 * m.mantissa + 2) * unit
    den := Nat.pow 2 (2 - m.exponent).toNat
    closed := m.mantissa % 2 == 0 }

def leading (n : Neighborhood) : Int :=
  if n.den ≤ n.value then (Decimal.digitsOf (n.value / n.den)).length
  else 1 - (Decimal.digitsOf ((n.den - 1) / n.value)).length

/-- The multiple of `10 ^ exponent` that lies in the neighborhood, if there is one: of the
    value's two neighbours the nearer, and the upper one when both are as near. -/
def onGrid (n : Neighborhood) (exponent : Int) : Option Nat :=
  let step := Nat.pow 10 exponent.toNat * n.den
  let scale := Nat.pow 10 (-exponent).toNat
  let value := n.value * scale
  let lower := value / step
  let inside (c : Nat) : Bool :=
    if n.closed then n.low * scale ≤ c * step && c * step ≤ n.high * scale
    else n.low * scale < c * step && c * step < n.high * scale
  match inside lower, inside (lower + 1) with
  | true, true =>
    some (if value - lower * step < (lower + 1) * step - value then lower else lower + 1)
  | true, false => some lower
  | false, true => some (lower + 1)
  | false, false => none

end Neighborhood

namespace Decimal

def trim : Nat → Decimal → Decimal
  | 0, d => d
  | n + 1, d => if d.digits % 10 = 0 then trim n ⟨d.digits / 10, d.exponent + 1⟩ else d

def shortest (m : Magnitude) : Decimal :=
  let n := Neighborhood.ofMagnitude m
  let grids := (List.range 17).map fun (i : Nat) => n.leading - 1 - i
  let found := grids.findSome? fun e => (n.onGrid e).map fun digits => trim 17 ⟨digits, e⟩
  found.getD ⟨n.value / n.den, 0⟩

end Decimal

def numberText (x : Float) : String :=
  if x.isNaN then "NaN"
  else
    let size :=
      if x.isInf then "inf"
      else if x == 0.0 then "0"
      else (Decimal.shortest (Magnitude.ofFloat x)).plain
    if signBit x then "-" ++ size else size

end Narrowing
