import Narrowing.Number.Magnitude

/-!
The correctly rounded cube root. The argument is scaled by a power of eight until its integer
cube root has 54 bits, one more than a double keeps, so the last bit decides the rounding.
The cube of an odd 54-bit number has more than 53 significant bits, so there is never a tie.
-/
namespace Narrowing

namespace CubeRoot

def cube (n : Nat) : Nat := n * n * n

def refine (n : Nat) : Nat → Nat → Nat
  | 0, r => r
  | k + 1, r => refine n k (if cube (r + Nat.pow 2 k) ≤ n then r + Nat.pow 2 k else r)

/-- The integer cube root, for a number below `2 ^ 162`. -/
def floor (n : Nat) : Nat := refine n 54 0

def ofMagnitude (m : Magnitude) : Float :=
  let room : Int := 159 - m.mantissa.log2
  let shift := room + (m.exponent - room) % 3
  let root := floor (m.mantissa * Nat.pow 2 shift.toNat)
  Magnitude.toFloat ⟨(root + 1) / 2, (m.exponent - shift) / 3 + 1⟩

end CubeRoot

def cubeRoot (x : Float) : Float :=
  if x == 0.0 || !x.isFinite then x
  else
    let root := CubeRoot.ofMagnitude (Magnitude.ofFloat x)
    if signBit x then -root else root

end Narrowing
