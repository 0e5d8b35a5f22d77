import Mathlib
import Narrowing.Formula

/-!
Exact arithmetic. Formulas are read over the real numbers, where nothing is rounded and every root
is the root itself. The number in the place of pi is left open: it may be pi, or the double that
stands for it.
-/
namespace Narrowing

noncomputable def exactCubeRoot (x : ℝ) : ℝ := SignType.sign x * |x| ^ ((3 : ℕ) : ℝ)⁻¹

theorem exactCubeRoot_cubed (x : ℝ) : exactCubeRoot x ^ 3 = x := by
  have size : (|x| ^ ((3 : ℕ) : ℝ)⁻¹) ^ 3 = |x| :=
    Real.rpow_inv_natCast_pow (abs_nonneg x) (by decide)
  have sign : ((SignType.sign x : ℝ)) ^ 3 * |x| = x := by
    rcases lt_trichotomy x 0 with negative | rfl | positive
    · norm_num [sign_neg negative, abs_of_neg negative]
    · simp
    · simp [sign_pos positive, abs_of_pos positive]
  rw [exactCubeRoot, mul_pow, size, sign]

theorem exactCubeRoot_pos {x : ℝ} (positive : 0 < x) : 0 < exactCubeRoot x := by
  have cube : 0 < exactCubeRoot x ^ 3 := by
    rw [exactCubeRoot_cubed]
    exact positive
  exact (Odd.pow_pos_iff (by decide)).mp cube

@[reducible] noncomputable def exactArithmetic (pi : ℝ) : Arithmetic ℝ where
  ofNat n := n
  pi := pi
  neg x := -x
  abs x := |x|
  squareRoot := Real.sqrt
  cubeRoot := exactCubeRoot
  add x y := x + y
  sub x y := x - y
  mul x y := x * y
  div x y := x / y
  less x y := decide (x < y)

end Narrowing
