import Mathlib

/-!
Rounding to doubles, in exact arithmetic. Around a number the doubles stand on a grid, and the
number is rounded to the nearest point of its grid, to the even one of two that are as near. So
rounding never turns the order of two numbers round. The arithmetic of doubles rounds in this
sense: it keeps of an exact result the leading bits and two more that tell on which side of the
middle the rest is.
-/
namespace Narrowing
open Float.Model Float.Model.UnpackedFloat

structure Nearest (x : ℚ) (n : ℤ) : Prop where
  near : |x - n| ≤ 1 / 2
  tie : |x - n| = 1 / 2 → Even n

namespace Nearest
variable {x y : ℚ} {m n : ℤ}

theorem self (n : ℤ) : Nearest n n := ⟨by norm_num, by norm_num⟩

theorem neg (h : Nearest x n) : Nearest (-x) (-n) := by
  have same : |-x - ((-n : ℤ) : ℚ)| = |x - n| := by
    rw [← abs_neg]
    congr 1
    push_cast
    ring
  exact ⟨same ▸ h.near, fun tie => (h.tie (same ▸ tie)).neg⟩

theorem mono (hx : Nearest x m) (hy : Nearest y n) (order : x ≤ y) : m ≤ n := by
  by_contra above
  have gap : (n : ℚ) + 1 ≤ m := by exact_mod_cast not_le.mp above
  obtain ⟨_, lower⟩ := abs_le.mp hy.near
  obtain ⟨upper, _⟩ := abs_le.mp hx.near
  -- both numbers have to be the middle between `n` and `n + 1`, which is near to one of them only
  have middle : x = n + 1 / 2 := by linarith
  have middle' : y = n + 1 / 2 := by linarith
  have next : (m : ℚ) = n + 1 := by linarith
  have evenN : Even n := hy.tie (by rw [middle']; norm_num)
  have evenM : Even m := hx.tie (by rw [middle, next]; norm_num)
  have next : m = n + 1 := by exact_mod_cast next
  rw [next] at evenM
  exact Int.even_add_one.mp evenM evenN

theorem le_of_le (h : Nearest x n) (bound : x ≤ m) : n ≤ m := h.mono (self m) bound

theorem ge_of_le (h : Nearest x n) (bound : m ≤ x) : m ≤ n := (self m).mono h bound

end Nearest

def gridExponent (v : ℚ) : ℤ := max (Int.log 2 |v| - 52) (-1074)

/-- Rounding to the grid, the numbers past all doubles going on as if there were more. -/
def Rounded (v r : ℚ) : Prop :=
  ∃ n : ℤ, Nearest (v / 2 ^ gridExponent v) n ∧ r = n * 2 ^ gridExponent v

theorem unit_pos (e : ℤ) : (0 : ℚ) < 2 ^ e := zpow_pos (by norm_num) e

theorem unit_add (e f : ℤ) : (2 : ℚ) ^ (e + f) = 2 ^ e * 2 ^ f := zpow_add₀ (by norm_num) e f

theorem unit_le_unit {e f : ℤ} (order : e ≤ f) : (2 : ℚ) ^ e ≤ 2 ^ f :=
  zpow_le_zpow_right₀ (by norm_num) order

theorem lt_unit_above (v : ℚ) : |v| < 2 ^ (gridExponent v + 53) := by
  have below : |v| < 2 ^ (Int.log 2 |v| + 1) := Int.lt_zpow_succ_log_self (by norm_num) |v|
  refine below.trans_le (unit_le_unit ?_)
  unfold gridExponent
  omega

theorem unit_le_of_above {v : ℚ} (positive : 0 < v) (above : -1074 < gridExponent v) :
    2 ^ (gridExponent v + 52) ≤ v := by
  have below : 2 ^ Int.log 2 |v| ≤ |v| := Int.zpow_log_le_self (by norm_num) (abs_pos_of_pos positive)
  rw [abs_of_pos positive] at below
  refine (unit_le_unit ?_).trans below
  unfold gridExponent at above ⊢
  rw [abs_of_pos positive] at above ⊢
  omega

theorem gridExponent_neg (v : ℚ) : gridExponent (-v) = gridExponent v := by
  unfold gridExponent
  rw [abs_neg]

theorem gridExponent_mono {v w : ℚ} (positive : 0 < v) (order : v ≤ w) :
    gridExponent v ≤ gridExponent w := by
  have larger : |v| ≤ |w| := by rwa [abs_of_pos positive, abs_of_pos (positive.trans_le order)]
  have logs := Int.log_mono_right (b := 2) (abs_pos_of_pos positive) larger
  unfold gridExponent
  omega

/-- The mantissa of a rounded number has 53 bits, unless its grid is the finest or it has just
    carried into one more bit. -/
theorem mantissa_of_nearest {v : ℚ} {n : ℤ} (positive : 0 < v)
    (nearest : Nearest (v / 2 ^ gridExponent v) n) :
    n ≤ 2 ^ 53 ∧ (gridExponent v = -1074 ∨ 2 ^ 52 ≤ n) := by
  constructor
  · have small := lt_unit_above v
    rw [abs_of_pos positive, unit_add, mul_comm] at small
    have small := (div_lt_iff₀ (unit_pos _)).mpr small
    exact nearest.le_of_le (by push_cast; exact small.le)
  · have least : -1074 ≤ gridExponent v := le_max_right _ _
    rcases least.eq_or_lt with same | higher
    · exact Or.inl same.symm
    · have large := unit_le_of_above positive higher
      rw [unit_add, mul_comm] at large
      have large := (le_div_iff₀ (unit_pos _)).mpr large
      exact Or.inr (nearest.ge_of_le (by push_cast; exact large))

namespace Rounded
variable {v w r s : ℚ}

theorem neg (h : Rounded v r) : Rounded (-v) (-r) := by
  obtain ⟨n, nearest, rfl⟩ := h
  refine ⟨-n, ?_, ?_⟩
  · rw [gridExponent_neg, neg_div]
    exact nearest.neg
  · rw [gridExponent_neg]
    push_cast
    ring

/-- A number is not rounded past a point of its grid. -/
theorem le_of_le (h : Rounded v r) {k : ℤ} (bound : v ≤ k * 2 ^ gridExponent v) :
    r ≤ k * 2 ^ gridExponent v := by
  obtain ⟨n, nearest, rfl⟩ := h
  have below : n ≤ k := nearest.le_of_le ((div_le_iff₀ (unit_pos _)).mpr bound)
  exact mul_le_mul_of_nonneg_right (by exact_mod_cast below) (unit_pos _).le

theorem ge_of_le (h : Rounded v r) {k : ℤ} (bound : k * 2 ^ gridExponent v ≤ v) :
    k * 2 ^ gridExponent v ≤ r := by
  obtain ⟨n, nearest, rfl⟩ := h
  have above : k ≤ n := nearest.ge_of_le ((le_div_iff₀ (unit_pos _)).mpr bound)
  exact mul_le_mul_of_nonneg_right (by exact_mod_cast above) (unit_pos _).le

theorem nonneg (h : Rounded v r) (sign : 0 ≤ v) : 0 ≤ r := by
  have bound := h.ge_of_le (k := 0) (by simpa using sign)
  simpa using bound

theorem nonpos (h : Rounded v r) (sign : v ≤ 0) : r ≤ 0 := by
  have bound := h.le_of_le (k := 0) (by simpa using sign)
  simpa using bound

theorem mono_of_pos (hv : Rounded v r) (hw : Rounded w s) (positive : 0 < v) (order : v ≤ w) :
    r ≤ s := by
  have grids := gridExponent_mono positive order
  rcases grids.eq_or_lt with same | finer
  · obtain ⟨m, nearest, rfl⟩ := hv
    obtain ⟨n, nearest', rfl⟩ := hw
    rw [same] at nearest ⊢
    have order' := nearest.mono nearest' (div_le_div_of_nonneg_right order (unit_pos _).le)
    exact mul_le_mul_of_nonneg_right (by exact_mod_cast order') (unit_pos _).le
  · -- The least number of the coarser grid is a point of the finer grid too, and lies between.
    have coarser : -1074 < gridExponent w := by
      have least : -1074 ≤ gridExponent v := le_max_right _ _
      omega
    have below : v ≤ 2 ^ (gridExponent w + 52) := by
      have small := lt_unit_above v
      rw [abs_of_pos positive] at small
      exact small.le.trans (unit_le_unit (by omega))
    have above : 2 ^ (gridExponent w + 52) ≤ w :=
      unit_le_of_above (positive.trans_le order) coarser
    have onFiner : (2 : ℚ) ^ (gridExponent w + 52) =
        ((2 ^ (gridExponent w + 52 - gridExponent v).toNat : ℤ) : ℚ) * 2 ^ gridExponent v := by
      push_cast
      rw [← zpow_natCast, ← unit_add]
      congr 1
      omega
    have onCoarser : (2 : ℚ) ^ (gridExponent w + 52) = ((2 ^ 52 : ℤ) : ℚ) * 2 ^ gridExponent w := by
      rw [unit_add, mul_comm]
      norm_num
    calc r ≤ 2 ^ (gridExponent w + 52) := by rw [onFiner]; exact hv.le_of_le (onFiner ▸ below)
      _ ≤ s := by rw [onCoarser]; exact hw.ge_of_le (onCoarser ▸ above)

theorem mono (hv : Rounded v r) (hw : Rounded w s) (order : v ≤ w) : r ≤ s := by
  rcases lt_or_ge 0 v with positive | nonpositive
  · exact hv.mono_of_pos hw positive order
  · rcases lt_or_ge w 0 with negative | nonnegative
    · have reversed := hw.neg.mono_of_pos hv.neg (by linarith) (by linarith)
      linarith
    · exact (hv.nonpos nonpositive).trans (hw.nonneg nonnegative)

end Rounded

def Represents (em : ExtendedMantissa) (x : ℚ) : Prop :=
  match em.roundBit, em.stickyBit with
  | false, false => x = em.mantissa
  | false, true => em.mantissa < x ∧ x < em.mantissa + 1 / 2
  | true, false => x = em.mantissa + 1 / 2
  | true, true => em.mantissa + 1 / 2 < x ∧ x < em.mantissa + 1

namespace Represents
variable {em : ExtendedMantissa} {x : ℚ}

theorem bounds (h : Represents em x) : em.mantissa ≤ x ∧ x < em.mantissa + 1 := by
  rcases em with ⟨m, round, sticky⟩
  cases round <;> cases sticky <;> simp only [Represents] at h ⊢ <;> constructor <;> linarith

theorem nearest (h : Represents em x) : Nearest x em.roundedMantissa := by
  rcases em with ⟨m, round, sticky⟩
  cases round <;> cases sticky <;> simp only [Represents] at h
  · rw [h]
    exact .self m
  · change Nearest x ((m : ℕ) : ℤ)
    have near : |x - ((m : ℤ) : ℚ)| < 1 / 2 := by
      push_cast
      rw [abs_lt]
      constructor <;> linarith
    exact ⟨near.le, fun tie => absurd tie near.ne⟩
  · change Nearest x ((m + m % 2 : ℕ) : ℤ)
    have half : |x - (((m + m % 2 : ℕ) : ℤ) : ℚ)| = 1 / 2 := by
      rcases Nat.mod_two_eq_zero_or_one m with even | odd
      · rw [h, even]
        norm_num
      · rw [h, odd]
        norm_num
    refine ⟨half.le, fun _ => ?_⟩
    rw [Int.even_coe_nat, Nat.even_iff]
    omega
  · change Nearest x ((m + 1 : ℕ) : ℤ)
    have near : |x - (((m + 1 : ℕ) : ℤ) : ℚ)| < 1 / 2 := by
      push_cast
      rw [abs_lt]
      constructor <;> linarith
    exact ⟨near.le, fun tie => absurd tie near.ne⟩

theorem shiftRightOne (h : Represents em x) : Represents em.shiftRightOne (x / 2) := by
  rcases em with ⟨m, round, sticky⟩
  obtain ⟨k, rfl | rfl⟩ := Nat.even_or_odd' m
  · have half : 2 * k / 2 = k := by omega
    have bit : 2 * k % 2 = 0 := by omega
    cases round <;> cases sticky <;>
      simp [Represents, ExtendedMantissa.shiftRightOne, half, bit] at h ⊢ <;>
      (try constructor) <;> linarith
  · have half : (2 * k + 1) / 2 = k := by omega
    have bit : (2 * k + 1) % 2 = 1 := by omega
    cases round <;> cases sticky <;>
      simp [Represents, ExtendedMantissa.shiftRightOne, half, bit] at h ⊢ <;>
      (try constructor) <;> linarith

theorem shiftRight (h : Represents em x) (n : ℕ) : Represents (em >>> n) (x / 2 ^ n) := by
  change Represents (n.repeat ExtendedMantissa.shiftRightOne em) _
  induction n with
  | zero => simpa [Nat.repeat] using h
  | succ n ih =>
    rw [Nat.repeat, pow_succ, ← div_div]
    exact ih.shiftRightOne

end Represents

end Narrowing
