import Narrowing.Decimal.Shortest
import Narrowing.Proofs.Decimal.Nearest

/-!
The shortest decimal of a double. Whatever the search finds lies where numbers are rounded to the
double, and on the grid of seventeen digits it always finds something. So the double nearest to the
shortest decimal is the one it was made for.
-/
namespace Narrowing

theorem gridExponent_eq {x : ℚ} {e : ℤ} (positive : 0 < x) (least : -1074 ≤ e)
    (upper : x < 2 ^ (e + 53)) (lower : e = -1074 ∨ 2 ^ (e + 52) ≤ x) : gridExponent x = e := by
  have above :=
    (Int.lt_zpow_iff_log_lt (b := 2) (by norm_num) positive).mp (by exact_mod_cast upper)
  rw [gridExponent, abs_of_pos positive]
  rcases lower with finest | lower
  · omega
  · have below :=
      (Int.zpow_le_iff_le_log (b := 2) (by norm_num) positive).mp (by exact_mod_cast lower)
    omega

theorem Decimal.ten_ratio (e : ℤ) : (10 : ℚ) ^ e * (10 ^ (-e).toNat : ℕ) = (10 ^ e.toNat : ℕ) := by
  push_cast
  rw [← zpow_natCast, ← zpow_natCast, ← zpow_add₀ (by norm_num)]
  congr 1
  omega

namespace Neighborhood

def Holds (n : Neighborhood) (x : ℚ) : Prop :=
  if n.closed then n.low ≤ x * n.den ∧ x * n.den ≤ n.high
  else n.low < x * n.den ∧ x * n.den < n.high

/-- The quarters of the unit below the magnitude. -/
def margin (m : Magnitude) : ℕ := if m.mantissa = 2 ^ 52 ∧ -1074 < m.exponent then 1 else 2

theorem scaled (q : ℚ) (e : ℤ) :
    q * 2 ^ e * (2 ^ (2 - e).toNat : ℕ) = 4 * q * (2 ^ (e - 2).toNat : ℕ) := by
  have units : (2 : ℚ) ^ e * 2 ^ (2 - e).toNat = 4 * 2 ^ (e - 2).toNat := by
    rw [← zpow_natCast, ← zpow_natCast, ← unit_add, show (4 : ℚ) = 2 ^ (2 : ℤ) by norm_num,
      ← unit_add]
    congr 1
    omega
  push_cast
  rw [mul_assoc, units]
  ring

theorem holds_ofMagnitude_iff {m : Magnitude} (positive : 0 < m.mantissa) (q : ℚ) :
    (ofMagnitude m).Holds (q * 2 ^ m.exponent) ↔
      if m.mantissa % 2 == 0 then 4 * m.mantissa - margin m ≤ 4 * q ∧ 4 * q ≤ 4 * m.mantissa + 2
      else 4 * m.mantissa - margin m < 4 * q ∧ 4 * q < 4 * m.mantissa + 2 := by
  have unit : (0 : ℚ) < (2 ^ (m.exponent - 2).toNat : ℕ) := by positivity
  have low : (((ofMagnitude m).low : ℕ) : ℚ) =
      (4 * m.mantissa - margin m) * (2 ^ (m.exponent - 2).toNat : ℕ) := by
    have enough : margin m ≤ 4 * m.mantissa := by
      unfold margin
      split <;> omega
    rw [← Nat.cast_ofNat (n := 4), ← Nat.cast_mul, ← Nat.cast_sub enough, ← Nat.cast_mul]
    rfl
  have high : (((ofMagnitude m).high : ℕ) : ℚ) =
      (4 * m.mantissa + 2) * (2 ^ (m.exponent - 2).toNat : ℕ) := by
    rw [← Nat.cast_ofNat (n := 4), ← Nat.cast_ofNat (n := 2), ← Nat.cast_mul, ← Nat.cast_add,
      ← Nat.cast_mul]
    rfl
  have den : (ofMagnitude m).den = 2 ^ (2 - m.exponent).toNat := rfl
  have closed : (ofMagnitude m).closed = (m.mantissa % 2 == 0) := rfl
  rw [Holds, low, high, den, closed, scaled]
  simp only [mul_le_mul_iff_left₀ unit, mul_lt_mul_iff_left₀ unit]

theorem margin_le_two (m : Magnitude) : margin m ≤ 2 := by
  unfold margin
  split <;> omega

theorem rounded_on_grid {m : Magnitude} {q : ℚ}
    (grid : gridExponent (q * 2 ^ m.exponent) = m.exponent) (near : |q - m.mantissa| ≤ 1 / 2)
    (tie : |q - m.mantissa| = 1 / 2 → Even m.mantissa) :
    Rounded (q * 2 ^ m.exponent) m.value := by
  refine ⟨m.mantissa, ?_, ?_⟩
  · rw [grid, mul_div_cancel_right₀ _ (unit_pos _).ne']
    refine ⟨by exact_mod_cast near, fun middle => ?_⟩
    rw [Int.even_coe_nat]
    exact tie (by exact_mod_cast middle)
  · rw [grid, Magnitude.value, Int.cast_natCast]

/-- Below a power of two the grid is twice as fine, and the power is the end of it. -/
theorem rounded_below_power {q : ℚ} {e : ℤ} (higher : -1074 < e) (lower : 2 ^ 52 - 1 / 4 ≤ q)
    (upper : q < 2 ^ 52) : Rounded (q * 2 ^ e) (2 ^ 52 * 2 ^ e) := by
  have halves : (2 : ℚ) ^ e = 2 * 2 ^ (e - 1) := by
    rw [show e = 1 + (e - 1) by ring, unit_add]
    norm_num
  have grid : gridExponent (q * 2 ^ e) = e - 1 := by
    refine gridExponent_eq (mul_pos (by linarith) (unit_pos e)) (by omega) ?_ (Or.inr ?_)
    · rw [halves, show e - 1 + 53 = 53 + (e - 1) by ring, unit_add, ← mul_assoc]
      exact mul_lt_mul_of_pos_right (by norm_num at upper ⊢; linarith) (unit_pos _)
    · rw [halves, show e - 1 + 52 = 52 + (e - 1) by ring, unit_add, ← mul_assoc]
      exact mul_le_mul_of_nonneg_right (by norm_num at lower ⊢; linarith) (unit_pos _).le
  refine ⟨2 ^ 53, ?_, ?_⟩
  · rw [grid, halves, ← mul_assoc, mul_div_cancel_right₀ _ (unit_pos _).ne']
    refine ⟨?_, fun _ => by decide⟩
    rw [abs_le]
    push_cast
    constructor <;> linarith
  · rw [grid, halves]
    push_cast
    ring

theorem rounded_of_holds {m : Magnitude} (fitting : m.Fitting) (positive : 0 < m.mantissa) {x : ℚ}
    (held : (ofMagnitude m).Holds x) : Rounded x m.value := by
  obtain ⟨q, rfl⟩ : ∃ q, x = q * 2 ^ m.exponent :=
    ⟨x / 2 ^ m.exponent, (div_mul_cancel₀ _ (unit_pos _).ne').symm⟩
  rw [holds_ofMagnitude_iff positive] at held
  have bounds : 4 * (m.mantissa : ℚ) - margin m ≤ 4 * q ∧ 4 * q ≤ 4 * m.mantissa + 2 := by
    split at held
    · exact held
    · exact ⟨held.1.le, held.2.le⟩
  have margin_le : (margin m : ℚ) ≤ 2 := by exact_mod_cast margin_le_two m
  have least := fitting.least
  by_cases finer : -1074 < m.exponent ∧ q < 2 ^ 52
  · obtain ⟨higher, small⟩ := finer
    have normal : 2 ^ 52 ≤ m.mantissa := fitting.normal.resolve_left (by omega)
    have power : m.mantissa = 2 ^ 52 := by
      have less : (m.mantissa : ℚ) < 2 ^ 52 + 1 := by linarith
      have less : m.mantissa < 2 ^ 52 + 1 := by exact_mod_cast less
      omega
    have one : margin m = 1 := if_pos ⟨power, higher⟩
    rw [power, one] at bounds
    push_cast at bounds
    rw [Magnitude.value, power, Nat.cast_pow]
    exact rounded_below_power higher (by linarith) small
  · have one : (1 : ℚ) ≤ m.mantissa := by exact_mod_cast positive
    have fits : (m.mantissa : ℚ) + 1 ≤ 2 ^ 53 := by exact_mod_cast fitting.bounded
    have grid : gridExponent (q * 2 ^ m.exponent) = m.exponent := by
      refine gridExponent_eq (mul_pos (by linarith) (unit_pos _)) least ?_ ?_
      · rw [add_comm, unit_add]
        exact mul_lt_mul_of_pos_right (by norm_num at fits ⊢; linarith) (unit_pos _)
      · by_cases finest : m.exponent = -1074
        · exact Or.inl finest
        · have large : 2 ^ 52 ≤ q := not_lt.mp fun small => finer ⟨by omega, small⟩
          rw [add_comm, unit_add]
          exact Or.inr (mul_le_mul_of_nonneg_right large (unit_pos _).le)
    refine rounded_on_grid grid ?_ ?_
    · rw [abs_le]
      constructor <;> linarith
    · intro tie
      rw [Nat.even_iff]
      by_contra odd
      rw [if_neg (by simpa using odd)] at held
      have near : |q - m.mantissa| < 1 / 2 := by
        rw [abs_lt]
        constructor <;> linarith
      exact near.ne tie

theorem inside_iff (n : Neighborhood) (e : ℤ) (c : ℕ) :
    (if n.closed then
        decide (n.low * Nat.pow 10 (-e).toNat ≤ c * (Nat.pow 10 e.toNat * n.den)) &&
          decide (c * (Nat.pow 10 e.toNat * n.den) ≤ n.high * Nat.pow 10 (-e).toNat)
      else
        decide (n.low * Nat.pow 10 (-e).toNat < c * (Nat.pow 10 e.toNat * n.den)) &&
          decide (c * (Nat.pow 10 e.toNat * n.den) < n.high * Nat.pow 10 (-e).toNat)) = true ↔
      n.Holds (c * 10 ^ e) := by
  have scale : (0 : ℚ) < (10 ^ (-e).toNat : ℕ) := by positivity
  have step : ((c * (10 ^ e.toNat * n.den) : ℕ) : ℚ) =
      c * 10 ^ e * n.den * (10 ^ (-e).toNat : ℕ) := by
    rw [Nat.cast_mul, Nat.cast_mul, ← Decimal.ten_ratio e]
    ring
  have le_iff (a : ℕ) : a * 10 ^ (-e).toNat ≤ c * (10 ^ e.toNat * n.den) ↔
      (a : ℚ) ≤ c * 10 ^ e * n.den := by
    rw [← Nat.cast_le (α := ℚ), step, Nat.cast_mul, mul_le_mul_iff_left₀ scale]
  have ge_iff (a : ℕ) : c * (10 ^ e.toNat * n.den) ≤ a * 10 ^ (-e).toNat ↔
      c * 10 ^ e * n.den ≤ (a : ℚ) := by
    rw [← Nat.cast_le (α := ℚ), step, Nat.cast_mul, mul_le_mul_iff_left₀ scale]
  unfold Holds
  split
  · rw [Bool.and_eq_true, decide_eq_true_iff, decide_eq_true_iff]
    exact and_congr (le_iff _) (ge_iff _)
  · rw [Bool.and_eq_true, decide_eq_true_iff, decide_eq_true_iff, ← not_le, ← not_le, ← not_le,
      ← not_le]
    exact and_congr (not_congr (ge_iff _)) (not_congr (le_iff _))

theorem holds_of_onGrid {n : Neighborhood} {e : ℤ} {c : ℕ} (found : n.onGrid e = some c) :
    n.Holds (c * 10 ^ e) := by
  unfold onGrid at found
  dsimp only at found
  split at found
  · rename_i first second
    have either := Option.some.inj found
    split at either
    · exact (inside_iff n e c).mp (either ▸ first)
    · exact (inside_iff n e c).mp (either ▸ second)
  · rename_i first _
    exact (inside_iff n e c).mp (Option.some.inj found ▸ first)
  · rename_i _ second
    exact (inside_iff n e c).mp (Option.some.inj found ▸ second)
  · cases found

def floorOn (n : Neighborhood) (e : ℤ) : ℕ :=
  n.value * Nat.pow 10 (-e).toNat / (Nat.pow 10 e.toNat * n.den)

theorem onGrid_isSome {n : Neighborhood} {e : ℤ}
    (held : n.Holds (n.floorOn e * 10 ^ e) ∨ n.Holds ((n.floorOn e + 1 : ℕ) * 10 ^ e)) :
    (n.onGrid e).isSome = true := by
  rw [← inside_iff, ← inside_iff] at held
  unfold onGrid
  dsimp only
  split
  · rfl
  · rfl
  · rfl
  · rename_i first second
    rcases held with lower | upper
    · exact absurd lower (Bool.eq_false_iff.mp first)
    · exact absurd upper (Bool.eq_false_iff.mp second)

theorem floorOn_bounds {n : Neighborhood} {v : ℚ} (known : n.value = v * n.den) (some : 0 < n.den)
    (e : ℤ) : n.floorOn e * 10 ^ e ≤ v ∧ v < (n.floorOn e + 1) * 10 ^ e := by
  have den : (0 : ℚ) < n.den := by exact_mod_cast some
  have scale : (0 : ℚ) < (10 ^ (-e).toNat : ℕ) := by positivity
  have step : 0 < 10 ^ e.toNat * n.den := Nat.mul_pos (Nat.pow_pos (by decide)) some
  have common (c : ℚ) : c * (10 ^ e.toNat * n.den : ℕ) =
      c * 10 ^ e * n.den * (10 ^ (-e).toNat : ℕ) := by
    rw [Nat.cast_mul, ← Decimal.ten_ratio e]
    ring
  constructor
  · have lower : n.floorOn e * (10 ^ e.toNat * n.den) ≤ n.value * 10 ^ (-e).toNat :=
      Nat.div_mul_le_self _ _
    have lower : (n.floorOn e : ℚ) * (10 ^ e.toNat * n.den : ℕ) ≤
        n.value * (10 ^ (-e).toNat : ℕ) := by
      exact_mod_cast lower
    rwa [common, known, mul_le_mul_iff_left₀ scale, mul_le_mul_iff_left₀ den] at lower
  · have upper : n.value * 10 ^ (-e).toNat < (n.floorOn e + 1) * (10 ^ e.toNat * n.den) :=
      Nat.lt_mul_of_div_lt (Nat.lt_succ_self _) step
    have upper : n.value * (10 ^ (-e).toNat : ℕ) <
        ((n.floorOn e : ℚ) + 1) * (10 ^ e.toNat * n.den : ℕ) := by
      exact_mod_cast upper
    rwa [common, known, mul_lt_mul_iff_left₀ scale, mul_lt_mul_iff_left₀ den] at upper

theorem leading_le {n : Neighborhood} {v : ℚ} (known : n.value = v * n.den) (some : 0 < n.den)
    (nonzero : 0 < n.value) : 10 ^ (n.leading - 1) ≤ v := by
  have den : (0 : ℚ) < n.den := by exact_mod_cast some
  unfold leading
  split
  · rename_i large
    have whole : 0 < n.value / n.den := Nat.div_pos large some
    have length : 0 < (Decimal.digitsOf (n.value / n.den)).length := Nat.length_toDigits_pos
    have lower := (Nat.le_div_iff_mul_le some).mp (Decimal.digits_bounds whole).1
    generalize (Decimal.digitsOf (n.value / n.den)).length = count at length lower
    have lower : (10 : ℚ) ^ (count - 1) * n.den ≤ n.value := by exact_mod_cast lower
    rw [known, mul_le_mul_iff_left₀ den] at lower
    calc (10 : ℚ) ^ ((count : ℤ) - 1) = 10 ^ (count - 1) := by
          rw [← zpow_natCast]
          congr 1
          omega
      _ ≤ v := lower
  · rename_i small
    have whole : 0 < (n.den - 1) / n.value := Nat.div_pos (by omega) nonzero
    have upper := (Nat.div_lt_iff_lt_mul nonzero).mp (Decimal.digits_bounds whole).2
    generalize (Decimal.digitsOf ((n.den - 1) / n.value)).length = count at upper
    have upper : n.den ≤ 10 ^ count * n.value := by omega
    have upper : (n.den : ℚ) ≤ 10 ^ count * n.value := by exact_mod_cast upper
    rw [known, ← mul_assoc, le_mul_iff_one_le_left den] at upper
    rw [show (1 : ℤ) - count - 1 = -count by ring, zpow_neg, zpow_natCast]
    exact (inv_le_iff_one_le_mul₀' (by positivity)).mpr upper

theorem value_ofMagnitude (m : Magnitude) :
    ((ofMagnitude m).value : ℚ) = m.value * (ofMagnitude m).den := by
  have den : (ofMagnitude m).den = 2 ^ (2 - m.exponent).toNat := rfl
  have value : (ofMagnitude m).value = 4 * m.mantissa * 2 ^ (m.exponent - 2).toNat := rfl
  rw [den, value, Magnitude.value, scaled]
  push_cast
  ring

/-- Where the steps of the grid are finer than the digits of a double, one of the two points around
    the magnitude is nearer to it than half a unit. -/
theorem holds_of_fine {m : Magnitude} (bounded : m.mantissa < 2 ^ 53) (positive : 0 < m.mantissa)
    {c s : ℚ} (fine : 10 ^ 16 * s ≤ m.mantissa) (lower : c * s ≤ m.mantissa)
    (upper : m.mantissa < (c + 1) * s) :
    (ofMagnitude m).Holds (c * s * 2 ^ m.exponent) ∨
      (ofMagnitude m).Holds ((c + 1) * s * 2 ^ m.exponent) := by
  have fits : (m.mantissa : ℚ) < 9007199254740992 := by exact_mod_cast bounded
  have inside {q : ℚ} (above : 4 * (m.mantissa : ℚ) - margin m < 4 * q)
      (below : 4 * q < 4 * m.mantissa + 2) : (ofMagnitude m).Holds (q * 2 ^ m.exponent) := by
    rw [holds_ofMagnitude_iff positive]
    split
    · exact ⟨above.le, below.le⟩
    · exact ⟨above, below⟩
  -- At a power of two only the upper side is half a unit wide, but the steps are below half a unit
  -- there. Anywhere else a step is below a whole unit, and one of the points is in the nearer half.
  by_cases power : m.mantissa = 2 ^ 52 ∧ -1074 < m.exponent
  · have one : margin m = 1 := if_pos power
    have size : (m.mantissa : ℚ) = 2 ^ 52 := by exact_mod_cast power.1
    rw [one] at inside
    right
    have narrow : s < 1 / 2 := by
      rw [size] at fine
      norm_num at fine
      linarith
    exact inside (by push_cast; linarith) (by linarith)
  · have two : margin m = 2 := if_neg power
    rw [two] at inside
    have narrow : s < 1 := by
      norm_num at fine
      linarith
    by_cases near : m.mantissa - c * s < 1 / 2
    · exact Or.inl (inside (by push_cast; linarith) (by linarith))
    · exact Or.inr (inside (by push_cast; linarith) (by linarith))

theorem onGrid_seventeen {m : Magnitude} (bounded : m.mantissa < 2 ^ 53)
    (positive : 0 < m.mantissa) :
    ((ofMagnitude m).onGrid ((ofMagnitude m).leading - 1 - 16)).isSome = true := by
  have known := value_ofMagnitude m
  have den : 0 < (ofMagnitude m).den := Nat.pow_pos (by decide)
  have nonzero : 0 < (ofMagnitude m).value :=
    Nat.mul_pos (Nat.mul_pos (by decide) positive) (Nat.pow_pos (by decide))
  set g := (ofMagnitude m).leading - 1 - 16 with grid
  have size : 10 ^ 16 * (10 : ℚ) ^ g ≤ m.value := by
    calc (10 : ℚ) ^ 16 * 10 ^ g = 10 ^ ((ofMagnitude m).leading - 1) := by
          rw [← zpow_natCast, ← zpow_add₀ (by norm_num)]
          congr 1
          rw [grid]
          push_cast
          ring
      _ ≤ m.value := leading_le known den nonzero
  obtain ⟨lower, upper⟩ := floorOn_bounds known den g
  -- one step of the grid, in units of the last place
  obtain ⟨s, step⟩ : ∃ s, (10 : ℚ) ^ g = s * 2 ^ m.exponent :=
    ⟨10 ^ g / 2 ^ m.exponent, (div_mul_cancel₀ _ (unit_pos _).ne').symm⟩
  rw [step, Magnitude.value, ← mul_assoc] at size lower upper
  have found := holds_of_fine bounded positive (c := (ofMagnitude m).floorOn g)
    (le_of_mul_le_mul_right size (unit_pos _)) (le_of_mul_le_mul_right lower (unit_pos _))
    (lt_of_mul_lt_mul_right upper (unit_pos _).le)
  refine onGrid_isSome ?_
  rw [step, ← mul_assoc, ← mul_assoc, Nat.cast_add, Nat.cast_one]
  exact found

end Neighborhood

namespace Decimal

theorem trim_value (n : ℕ) (d : Decimal) : (trim n d).value = d.value := by
  induction n generalizing d with
  | zero => rfl
  | succ n ih =>
    unfold trim
    split
    · rename_i zero
      rw [ih, value, value, zpow_add_one₀ (by norm_num)]
      obtain ⟨k, digits⟩ := Nat.dvd_of_mod_eq_zero zero
      rw [digits, Nat.mul_div_cancel_left k (by decide), Nat.cast_mul, Nat.cast_ofNat]
      ring
    · rfl

theorem shortest_rounds {m : Magnitude} (fitting : m.Fitting) (positive : 0 < m.mantissa) :
    Rounded (shortest m).value m.value := by
  unfold shortest
  dsimp only
  generalize found : List.findSome? _ _ = result
  cases result with
  | some d =>
    obtain ⟨e, _, hit⟩ := List.exists_of_findSome?_eq_some found
    obtain ⟨c, onGrid, rfl⟩ := Option.map_eq_some_iff.mp hit
    rw [Option.getD_some, trim_value]
    exact Neighborhood.rounded_of_holds fitting positive (Neighborhood.holds_of_onGrid onGrid)
  | none =>
    have missed := List.findSome?_eq_none_iff.mp found
      ((Neighborhood.ofMagnitude m).leading - 1 - (16 : ℕ))
      (List.mem_map_of_mem (List.mem_range.mpr (by decide)))
    have hit := Neighborhood.onGrid_seventeen fitting.bounded positive
    rw [Option.map_eq_none_iff, Nat.cast_ofNat] at missed
    rw [missed] at hit
    cases hit

theorem shortest_digits_positive {m : Magnitude} (fitting : m.Fitting) (positive : 0 < m.mantissa) :
    0 < (shortest m).digits := by
  rw [Nat.pos_iff_ne_zero]
  intro none
  have rounded := shortest_rounds fitting positive
  rw [value, none, Nat.cast_zero, zero_mul] at rounded
  exact (finite_reading_pos m.exponent positive).ne (Rounded.zero.unique rounded)

end Decimal

theorem magnitude_positive {x : Float} (finite : x.isFinite = true) (nonzero : level x ≠ 0) :
    0 < (Magnitude.ofFloat x).mantissa := by
  rw [Nat.pos_iff_ne_zero]
  intro zero
  refine nonzero ?_
  rw [(magnitude_of_finite finite).1, Magnitude.value, zero]
  cases signOf x <;> simp [signed]

/-- A finite double other than zero is the nearest one to its shortest decimal, however that is
    written. -/
theorem nearest_of_shortest {x : Float} (finite : x.isFinite = true) (nonzero : level x ≠ 0)
    {d : Decimal} (same : d.value = (Decimal.shortest (Magnitude.ofFloat x)).value) :
    (if signBit x then -d.nearest else d.nearest) = x := by
  obtain ⟨value, fitting⟩ := magnitude_of_finite finite
  have positive := magnitude_positive finite nonzero
  obtain ⟨r, rounded, reads⟩ := d.nearest_reads
  rw [same] at rounded
  obtain rfl := rounded.unique (Decimal.shortest_rounds fitting positive)
  have inside : |(Magnitude.ofFloat x).value| ≤ limit := by
    rw [Magnitude.value, abs_of_pos (finite_reading_pos _ positive)]
    exact (finite_reading_lt fitting.bounded fitting.greatest).le
  rw [clamp_of_abs_le inside] at reads
  refine (eq_of_level ?_ nonzero).symm
  rw [value, signOf]
  cases signBit x with
  | false => exact reads.symm
  | true => exact (congrArg Neg.neg reads.symm).trans (level_neg _).symm

end Narrowing
