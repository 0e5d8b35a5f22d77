/-!
A double as an exact number. A finite double is, up to its sign, `mantissa * 2 ^ exponent`;
everything here that has to be exact (decimal text, cube roots) computes on that pair.
-/
namespace Narrowing

structure Magnitude where
  mantissa : Nat
  exponent : Int
  deriving DecidableEq, Repr

namespace Magnitude

/-- The exact size of a finite double. A zero exponent field marks the numbers below `2 ^ -1022`,
    which have no implied leading bit. -/
def ofFloat (x : Float) : Magnitude :=
  let bits : Nat := x.toBits.toNat
  let fraction : Nat := bits % Nat.pow 2 52
  let field : Nat := bits / Nat.pow 2 52 % Nat.pow 2 11
  if field = 0 then ⟨fraction, -1074⟩ else ⟨Nat.pow 2 52 + fraction, (field : Int) - 1075⟩

/-- The double that holds this number exactly, for a mantissa of 53 bits and an exponent in
    range. A mantissa of exactly `2 ^ 53` carries into the exponent field. -/
def toFloat (m : Magnitude) : Float :=
  let field := (m.exponent + 1075).toNat
  Float.ofBits (field * Nat.pow 2 52 + (m.mantissa - Nat.pow 2 52)).toUInt64

end Magnitude

def signBit (x : Float) : Bool := decide (Nat.pow 2 63 ≤ x.toBits.toNat)

def infinity : Float := Float.ofBits 0x7FF0000000000000

end Narrowing
