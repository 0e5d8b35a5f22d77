import Narrowing.Proofs.Number.Reading
import Narrowing.Proofs.Number.TotalOrder

/-!
Magnitudes. The magnitude and the sign bit of a finite double are its exact number, and the
magnitude is on the grid of its size.
-/
namespace Narrowing
open Float.Model Float.Model.UnpackedFloat

namespace Magnitude

def value (m : Magnitude) : ℚ := m.mantissa * 2 ^ m.exponent

structure Fitting (m : Magnitude) : Prop where
  bounded : m.mantissa < 2 ^ 53
  least : -1074 ≤ m.exponent
  greatest : m.exponent ≤ 971
  normal : m.exponent = -1074 ∨ 2 ^ 52 ≤ m.mantissa

theorem ofFloat_parts (x : Float) :
    ofFloat x = if (unpackExponent (bitPattern x)).toNat = 0
      then ⟨(unpackMantissa (bitPattern x)).toNat, -1074⟩
      else ⟨2 ^ 52 + (unpackMantissa (bitPattern x)).toNat,
        (unpackExponent (bitPattern x)).toNat - 1075⟩ := by
  have parts := toNat_eq_parts (bitPattern x)
  have sign : (unpackSign (bitPattern x)).toNat < 2 ^ 1 := BitVec.isLt _
  have exponent : (unpackExponent (bitPattern x)).toNat < 2 ^ 11 := BitVec.isLt _
  have mantissa : (unpackMantissa (bitPattern x)).toNat < 2 ^ 52 := BitVec.isLt _
  rw [bitPattern_toNat] at parts
  have fraction : x.toBits.toNat % Nat.pow 2 52 = (unpackMantissa (bitPattern x)).toNat := by
    change x.toBits.toNat % 2 ^ 52 = _
    omega
  have field : x.toBits.toNat / Nat.pow 2 52 % Nat.pow 2 11 =
      (unpackExponent (bitPattern x)).toNat := by
    change x.toBits.toNat / 2 ^ 52 % 2 ^ 11 = _
    omega
  unfold ofFloat
  dsimp only
  rw [fraction, field]
  rfl

end Magnitude

def signOf (x : Float) : Sign := if signBit x then .negative else .positive

theorem unpack_sign (x : Float) : Sign.ofBitVec (unpackSign (bitPattern x)) = signOf x := by
  unfold signOf
  cases sign : signBit x with
  | false =>
    rw [(unsigned_iff x).mp sign]
    rfl
  | true =>
    have nonzero : unpackSign (bitPattern x) ≠ 0#1 := by
      rw [ne_eq, ← unsigned_iff, sign]
      decide
    exact if_neg nonzero

theorem magnitude_of_finite {x : Float} (finite : x.isFinite = true) :
    level x = signed (signOf x) (Magnitude.ofFloat x).value ∧ (Magnitude.ofFloat x).Fitting := by
  have exponentBound : (unpackExponent (bitPattern x)).toNat < 2 ^ 11 := BitVec.isLt _
  have mantissaBound : (unpackMantissa (bitPattern x)).toNat < 2 ^ 52 := BitVec.isLt _
  have bias : (Format.binary64.exponentBias : ℤ) = 1023 := rfl
  change (UnpackedFloat.unpack .binary64 (bitPattern x)).isFinite = true at finite
  change reading (UnpackedFloat.unpack .binary64 (bitPattern x)) = _ ∧ _
  rw [Magnitude.ofFloat_parts]
  unfold UnpackedFloat.unpack at finite ⊢
  dsimp only at finite ⊢
  rw [unpack_sign] at finite ⊢
  split at finite
  · split at finite <;> simp [UnpackedFloat.isFinite] at finite
  · rename_i below
    rw [if_neg below]
    split
    · rename_i bottom
      rw [if_pos (by rw [bottom]; rfl)]
      refine ⟨?_, mantissaBound.trans (by decide), le_rfl, by dsimp only; omega, Or.inl rfl⟩
      split
      · rename_i zero
        rw [zero]
        cases signOf x <;> simp [reading, signed, Magnitude.value]
      · rw [bottom]
        rfl
    · rename_i above
      have positive : (unpackExponent (bitPattern x)).toNat ≠ 0 := by
        intro zero
        exact above (BitVec.eq_of_toNat_eq zero)
      have bounded : (unpackExponent (bitPattern x)).toNat ≠ 2047 := by
        intro top
        exact below (BitVec.eq_of_toNat_eq top)
      rw [if_neg positive, reading, mantissa_toNat, bias]
      refine ⟨?_, by dsimp only; omega, by dsimp only; omega, by dsimp only; omega,
        Or.inr (by dsimp only; omega)⟩
      rw [Magnitude.value]
      congr 2

end Narrowing
