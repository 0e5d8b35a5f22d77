import Narrowing.Decimal.Basic
import Narrowing.Proofs.Number.Magnitude
import Narrowing.Proofs.Number.Quotient

/-!
The double nearest to a decimal: the exact number, rounded once and cut off at the limit of the
finite doubles, whatever the size of its digits and its exponent.
-/
namespace Narrowing
open Float.Model Float.Model.UnpackedFloat

theorem level_of_magnitude {x : Float} (finite : x.isFinite = true) (unsigned : signBit x = false) :
    level x = (Magnitude.ofFloat x).value := by
  have value := (magnitude_of_finite finite).1
  rwa [signOf, unsigned] at value

theorem value_eq_natural {m : Magnitude} {n : ℕ}
    (same : m.mantissa * 2 ^ m.exponent.toNat = n * 2 ^ (-m.exponent).toNat) : m.value = n := by
  have units : (2 : ℚ) ^ m.exponent * 2 ^ (-m.exponent).toNat = 2 ^ m.exponent.toNat := by
    rw [← zpow_natCast, ← zpow_natCast, ← unit_add]
    congr 1
    omega
  have same : (m.mantissa : ℚ) * 2 ^ m.exponent.toNat = n * 2 ^ (-m.exponent).toNat := by
    exact_mod_cast same
  rw [← units, ← mul_assoc] at same
  exact mul_right_cancel₀ (by positivity) same

theorem tabulated_powers : ∀ k : Fin 23,
    Float.exactlyRepresentablePowersOfTen[k].isFinite = true ∧
    signBit Float.exactlyRepresentablePowersOfTen[k] = false ∧
    (Magnitude.ofFloat Float.exactlyRepresentablePowersOfTen[k]).mantissa *
        2 ^ (Magnitude.ofFloat Float.exactlyRepresentablePowersOfTen[k]).exponent.toNat =
      10 ^ k.val *
        2 ^ (-(Magnitude.ofFloat Float.exactlyRepresentablePowersOfTen[k]).exponent).toNat := by
  decide +kernel

theorem level_tabulated {k : ℕ} (bound : k < Float.exactlyRepresentablePowersOfTen.size) :
    Float.exactlyRepresentablePowersOfTen[k].isFinite = true ∧
      level Float.exactlyRepresentablePowersOfTen[k] = 10 ^ k := by
  obtain ⟨finite, unsigned, power⟩ := tabulated_powers ⟨k, bound⟩
  have value : (Magnitude.ofFloat Float.exactlyRepresentablePowersOfTen[k]).value = 10 ^ k := by
    exact_mod_cast value_eq_natural power
  exact ⟨finite, (level_of_magnitude finite unsigned).trans value⟩

theorem ofScientific_reads {m : ℕ} {e : ℤ} (positive : 0 < m) (upper : e ≤ 2048)
    (lower : -(2048 + m.log2) ≤ e) :
    ∃ r, Rounded (m * 10 ^ e) r ∧ reading (UnpackedFloat.ofScientific .binary64 m e) = r ∧
      Canonical (UnpackedFloat.ofScientific .binary64 m e) := by
  unfold UnpackedFloat.ofScientific
  rw [dif_neg positive.ne', if_neg (by change ¬ e > 2048; omega),
    if_neg (by change ¬ e < -(2048 + (m.log2 : ℤ)); omega)]
  split
  · obtain ⟨k, rfl⟩ : ∃ k : ℕ, e = k := ⟨e.toNat, by omega⟩
    have shifted : 0 < m <<< 53 := by rw [Nat.shiftLeft_eq]; positivity
    have power : 0 < 10 ^ k := Nat.pow_pos (by decide)
    -- the shift by 53 keeps all bits of the number and gives the mantissa enough of them
    have bits : 53 ≤ (m <<< 53 * 10 ^ k).log2 := by
      rw [Nat.le_log2 (Nat.mul_pos shifted power).ne', Nat.shiftLeft_eq]
      calc 2 ^ 53 ≤ m * 2 ^ 53 := Nat.le_mul_of_pos_left _ positive
        _ ≤ m * 2 ^ 53 * 10 ^ k := Nat.le_mul_of_pos_right _ power
    obtain ⟨r, rounded, reads, canonical⟩ :=
      mul_finite_reads .positive .positive (e := -53) (f := 0) shifted power (by omega)
    have value : ((m <<< 53 : ℕ) : ℚ) * 2 ^ (-53 : ℤ) * ((10 ^ k : ℕ) * 2 ^ (0 : ℤ)) =
        m * 10 ^ (k : ℤ) := by
      have unit : (2 : ℚ) ^ 53 * 2 ^ (-53 : ℤ) = 1 := by norm_num
      simp only [Nat.shiftLeft_eq, zpow_natCast, zpow_zero, mul_one, Nat.cast_mul, Nat.cast_pow,
        Nat.cast_ofNat]
      rw [mul_assoc (m : ℚ), unit, mul_one]
    exact ⟨r, value ▸ rounded, reads, canonical⟩
  · obtain ⟨k, rfl⟩ : ∃ k : ℕ, e = -k := ⟨(-e).toNat, by omega⟩
    have power : 0 < 10 ^ (- -(k : ℤ)).toNat := Nat.pow_pos (by decide)
    obtain ⟨r, rounded, reads, canonical⟩ :=
      div_finite_reads .positive .positive 0 0 positive power
    have value : (m : ℚ) * 2 ^ (0 : ℤ) / ((10 ^ (- -(k : ℤ)).toNat : ℕ) * 2 ^ (0 : ℤ)) =
        m * 10 ^ (-(k : ℤ)) := by
      rw [neg_neg, Int.toNat_natCast, zpow_neg, zpow_natCast, zpow_zero, mul_one, mul_one,
        div_eq_mul_inv, Nat.cast_pow, Nat.cast_ofNat]
    exact ⟨r, value ▸ rounded, reads, canonical⟩

theorem ofScientific_level {m : ℕ} {e : ℤ} (positive : 0 < m) (upper : e ≤ 2048)
    (lower : -(2048 + m.log2) ≤ e) :
    ∃ r, Rounded (m * 10 ^ e) r ∧
      level (Float.ofModel (Float.Model.ofScientific m e)) = clamp r := by
  obtain ⟨r, rounded, reads, canonical⟩ := ofScientific_reads positive upper lower
  have unpacked : (Float.ofModel (Float.Model.ofScientific m e)).toModel.unpack =
      clipped (UnpackedFloat.ofScientific .binary64 m e) := unpack_pack canonical
  exact ⟨r, rounded, by rw [level, unpacked, reading_clipped canonical, reads]⟩

/-- Small digits are multiplied or divided by a power of ten that is a double, others are rounded
    from the exact number; the double is the same. -/
theorem scientific_reads {m k : ℕ} (positive : 0 < m) :
    (k ≤ 2048 → ∃ r, Rounded (m * 10 ^ (k : ℤ)) r ∧
      level (Float.ofScientific m false k) = clamp r) ∧
    (k ≤ 2048 + m.log2 → ∃ r, Rounded (m * 10 ^ (-(k : ℤ))) r ∧
      level (Float.ofScientific m true k) = clamp r) := by
  by_cases small : m < 2 ^ 53 ∧ k ≤ 22
  · have bound : k < Float.exactlyRepresentablePowersOfTen.size := Nat.lt_succ_of_le small.2
    obtain ⟨finite, power⟩ := level_tabulated bound
    have digits := finite_toFloat small.1
    have value := level_toFloat small.1
    constructor
    · intro _
      obtain ⟨r, rounded, reads⟩ := product_reads digits finite
      rw [value, power] at rounded
      rw [Float.ofScientific, dif_pos small, zpow_natCast]
      exact ⟨r, rounded, reads⟩
    · intro _
      obtain ⟨r, rounded, reads⟩ := quotient_reads digits finite (by rw [power]; positivity)
      rw [value, power] at rounded
      rw [Float.ofScientific, dif_pos small, zpow_neg, zpow_natCast, ← div_eq_mul_inv]
      exact ⟨r, rounded, reads⟩
  · constructor
    · intro upper
      rw [Float.ofScientific, dif_neg small]
      exact ofScientific_level positive (by omega) (by omega)
    · intro lower
      rw [Float.ofScientific, dif_neg small, if_pos rfl, Int.negOfNat_eq]
      exact ofScientific_level positive (by omega) (by omega)

theorem Nearest.exists (x : ℚ) : ∃ n, Nearest x n := by
  have lower : (⌊x⌋ : ℚ) ≤ x := Int.floor_le x
  have upper : x < ⌊x⌋ + 1 := Int.lt_floor_add_one x
  rcases lt_trichotomy (x - ⌊x⌋) (1 / 2) with less | half | more
  · have near : |x - (⌊x⌋ : ℤ)| < 1 / 2 := by
      rw [abs_lt]
      constructor <;> linarith
    exact ⟨⌊x⌋, near.le, fun tie => absurd tie near.ne⟩
  · rcases Int.even_or_odd ⌊x⌋ with even | odd
    · exact ⟨⌊x⌋, by rw [half]; norm_num, fun _ => even⟩
    · refine ⟨⌊x⌋ + 1, ?_, fun _ => odd.add_one⟩
      rw [show x - ((⌊x⌋ + 1 : ℤ) : ℚ) = -(1 / 2) by push_cast; linarith]
      norm_num
  · have near : |x - ((⌊x⌋ + 1 : ℤ) : ℚ)| < 1 / 2 := by
      rw [abs_lt]
      push_cast
      constructor <;> linarith
    exact ⟨⌊x⌋ + 1, near.le, fun tie => absurd tie near.ne⟩

theorem Rounded.exists (v : ℚ) : ∃ r, Rounded v r := by
  obtain ⟨n, nearest⟩ := Nearest.exists (v / 2 ^ gridExponent v)
  exact ⟨_, n, nearest, rfl⟩

theorem rounded_limit : Rounded limit limit := by
  have log := Int.log_zpow (R := ℚ) (b := 2) (by norm_num) 1024
  have grid : gridExponent limit = 972 := by
    rw [gridExponent, abs_of_pos limit_pos, limit]
    rw [Nat.cast_ofNat] at log
    omega
  refine Rounded.of_grid (n := 2 ^ 52) ?_
  rw [grid]
  calc limit = 2 ^ (52 : ℤ) * 2 ^ (972 : ℤ) := unit_add 52 972
    _ = ((2 ^ 52 : ℤ) : ℚ) * 2 ^ (972 : ℤ) := by norm_num

theorem clamp_of_limit_le {v r : ℚ} (rounded : Rounded v r) (large : limit ≤ v) :
    clamp r = limit :=
  clamp_signed .positive (rounded_limit.mono rounded large)

theorem Rounded.zero_of_small {v : ℚ} (positive : 0 < v) (small : v < 2 ^ (-1075 : ℤ)) :
    Rounded v 0 := by
  have log := (Int.lt_zpow_iff_log_lt (b := 2) (by norm_num) positive).mp (by exact_mod_cast small)
  have grid : gridExponent v = -1074 := by
    rw [gridExponent, abs_of_pos positive]
    omega
  have half : |v / 2 ^ (-1074 : ℤ) - ((0 : ℤ) : ℚ)| < 1 / 2 := by
    rw [Int.cast_zero, sub_zero, abs_of_pos (div_pos positive (unit_pos _)),
      div_lt_iff₀ (unit_pos _)]
    calc v < 2 ^ (-1075 : ℤ) := small
      _ = 1 / 2 * 2 ^ (-1074 : ℤ) := by
          rw [show (-1075 : ℤ) = -1 + -1074 by norm_num, unit_add]
          norm_num
  exact ⟨0, by rw [grid]; exact ⟨half.le, fun tie => absurd tie half.ne⟩, by simp⟩

namespace Decimal

def value (d : Decimal) : ℚ := d.digits * 10 ^ d.exponent

theorem ten_pos (e : ℤ) : (0 : ℚ) < 10 ^ e := zpow_pos (by norm_num) e

theorem ten_le_ten {e f : ℤ} (order : e ≤ f) : (10 : ℚ) ^ e ≤ 10 ^ f :=
  zpow_le_zpow_right₀ (by norm_num) order

theorem digits_bounds {n : ℕ} (positive : 0 < n) :
    10 ^ ((digitsOf n).length - 1) ≤ n ∧ n < 10 ^ (digitsOf n).length := by
  have some : 0 < (digitsOf n).length := Nat.length_toDigits_pos
  constructor
  · rcases Nat.eq_zero_or_pos ((digitsOf n).length - 1) with one | more
    · rw [one]
      exact positive
    · by_contra less
      have short := (Nat.length_toDigits_le_iff (by decide) more).mpr (not_le.mp less)
      unfold digitsOf at *
      omega
  · exact (Nat.length_toDigits_le_iff (by decide) some).mp le_rfl

theorem value_bounds {d : Decimal} (nonzero : 0 < d.digits) :
    10 ^ (d.exponent + (digitsOf d.digits).length - 1) ≤ d.value ∧
      d.value < 10 ^ (d.exponent + (digitsOf d.digits).length) := by
  have some : 0 < (digitsOf d.digits).length := Nat.length_toDigits_pos
  obtain ⟨lower, upper⟩ := digits_bounds nonzero
  constructor
  · have lower : (10 : ℚ) ^ ((digitsOf d.digits).length - 1) ≤ d.digits := by exact_mod_cast lower
    calc (10 : ℚ) ^ (d.exponent + (digitsOf d.digits).length - 1)
        = 10 ^ ((digitsOf d.digits).length - 1) * 10 ^ d.exponent := by
          rw [← zpow_natCast, ← zpow_add₀ (by norm_num)]
          congr 1
          omega
      _ ≤ d.value := mul_le_mul_of_nonneg_right lower (ten_pos _).le
  · have upper : (d.digits : ℚ) < 10 ^ (digitsOf d.digits).length := by exact_mod_cast upper
    calc d.value < 10 ^ (digitsOf d.digits).length * 10 ^ d.exponent :=
          mul_lt_mul_of_pos_right upper (ten_pos _)
      _ = 10 ^ (d.exponent + (digitsOf d.digits).length) := by
          rw [← zpow_natCast, ← zpow_add₀ (by norm_num), add_comm]

theorem length_le_log {n : ℕ} (positive : 0 < n) : (digitsOf n).length ≤ n.log2 + 1 := by
  have power : 2 ^ ((digitsOf n).length - 1) ≤ n :=
    (Nat.pow_le_pow_left (by decide) _).trans (digits_bounds positive).1
  have bits := (Nat.le_log2 positive.ne').mpr power
  omega

theorem huge_power : limit ≤ 10 ^ (309 : ℤ) := by
  have powers : 2 ^ 1024 ≤ 10 ^ 309 := by decide +kernel
  have powers : (2 : ℚ) ^ 1024 ≤ 10 ^ 309 := by exact_mod_cast powers
  exact powers

theorem tiny_power : (10 : ℚ) ^ (-330 : ℤ) ≤ 2 ^ (-1075 : ℤ) := by
  have powers : 2 ^ 1075 ≤ 10 ^ 330 := by decide +kernel
  have powers : (2 : ℚ) ^ 1075 ≤ 10 ^ 330 := by exact_mod_cast powers
  rw [zpow_neg, zpow_neg]
  exact inv_anti₀ (unit_pos 1075) powers

/-- Every decimal is rounded correctly. -/
theorem nearest_reads (d : Decimal) : ∃ r, Rounded d.value r ∧ level d.nearest = clamp r := by
  have zero : clamp 0 = 0 := clamp_of_abs_le (by rw [abs_zero]; exact limit_pos.le)
  unfold nearest
  dsimp only
  by_cases nothing : d.digits = 0
  · rw [if_pos (Or.inl nothing)]
    exact ⟨0, by simpa [value, nothing] using Rounded.zero, zero.symm⟩
  · have positive := Nat.pos_of_ne_zero nothing
    obtain ⟨lower, upper⟩ := value_bounds positive
    have length := length_le_log positive
    split
    · rename_i tiny
      have above : 0 < d.value := (ten_pos _).trans_le lower
      have below : d.value < 2 ^ (-1075 : ℤ) :=
        upper.trans_le ((ten_le_ten (show _ ≤ (-330 : ℤ) by omega)).trans tiny_power)
      exact ⟨0, .zero_of_small above below, zero.symm⟩
    · rename_i sizable
      split
      · rename_i huge
        have above : limit ≤ d.value :=
          huge_power.trans ((ten_le_ten (show (309 : ℤ) ≤ _ by omega)).trans lower)
        obtain ⟨r, rounded⟩ := Rounded.exists d.value
        exact ⟨r, rounded, (clamp_of_limit_le rounded above).symm⟩
      · split
        · rename_i up
          obtain ⟨r, rounded, reads⟩ :=
            (scientific_reads (k := d.exponent.toNat) positive).1 (by omega)
          rw [Int.toNat_of_nonneg up] at rounded
          exact ⟨r, rounded, reads⟩
        · rename_i down
          obtain ⟨r, rounded, reads⟩ :=
            (scientific_reads (k := (-d.exponent).toNat) positive).2 (by omega)
          rw [Int.toNat_of_nonneg (by omega), neg_neg] at rounded
          exact ⟨r, rounded, reads⟩

end Decimal

end Narrowing
