import Narrowing.Number.Magnitude

/-!
Decimal numbers: the value `digits * 10 ^ exponent`, its positional text, and the double nearest
to it.
-/
namespace Narrowing

structure Decimal where
  digits : Nat
  exponent : Int
  deriving DecidableEq, Repr

namespace Decimal

def digitsOf (n : Nat) : List Char := Nat.toDigits 10 n

def natText (n : Nat) : String := String.ofList (digitsOf n)

def plain (d : Decimal) : String :=
  let digits := digitsOf d.digits
  let places := (-d.exponent).toNat
  if places = 0 then String.ofList (digits ++ List.replicate d.exponent.toNat '0')
  else
    let padded := List.replicate (places + 1 - digits.length) '0' ++ digits
    let whole := padded.length - places
    String.ofList (padded.take whole ++ '.' :: padded.drop whole)

/-- The double nearest to a decimal, ties to even, infinite past the largest one.
    The first tests only keep the powers of ten small: a number of at least `10 ^ 309` is past
    every finite double, and one below `10 ^ -330` is nearer to zero than to any other. -/
def nearest (d : Decimal) : Float :=
  let size := d.exponent + (digitsOf d.digits).length
  if d.digits = 0 ∨ size ≤ -330 then 0.0
  else if 310 ≤ size then infinity
  else if 0 ≤ d.exponent then Float.ofScientific d.digits false d.exponent.toNat
  else Float.ofScientific d.digits true (-d.exponent).toNat

end Decimal

end Narrowing
