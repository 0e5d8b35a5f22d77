import Narrowing.Proofs.Number.Product

/-!
Quotients of doubles. The quotient of two finite doubles is their exact quotient, rounded and cut
off at the limit of the finite doubles, and so is the double of a natural number.
-/
namespace Narrowing
open Float.Model Float.Model.UnpackedFloat

theorem accuracy_represents (q : ℕ) {r d : ℕ} (proper : r < d) :
    Represents (.ofMantissaAndAccuracy q (accuracyOfFraction r d)) (q + (r : ℚ) / d) := by
  have positive : (0 : ℚ) < d := by exact_mod_cast Nat.zero_lt_of_lt proper
  have below : (r : ℚ) / d < 1 := (div_lt_one positive).mpr (by exact_mod_cast proper)
  unfold accuracyOfFraction
  split
  · rename_i zero
    simp [Represents, ExtendedMantissa.ofMantissaAndAccuracy, zero]
  · rename_i nonzero
    have above : (0 : ℚ) < r / d := div_pos (by exact_mod_cast Nat.pos_of_ne_zero nonzero) positive
    rcases Nat.lt_trichotomy (2 * r) d with less | half | more
    · rw [Nat.compare_eq_lt.mpr less]
      have less : (r : ℚ) / d < 1 / 2 := by
        rw [div_lt_iff₀ positive]
        have less : (2 * r : ℚ) < d := by exact_mod_cast less
        linarith
      change (q : ℚ) < q + r / d ∧ (q : ℚ) + r / d < q + 1 / 2
      exact ⟨by linarith, by linarith⟩
    · rw [Nat.compare_eq_eq.mpr half]
      have half : (r : ℚ) / d = 1 / 2 := by
        rw [div_eq_iff positive.ne']
        have half : (2 * r : ℚ) = d := by exact_mod_cast half
        linarith
      exact congrArg _ half
    · rw [Nat.compare_eq_gt.mpr more]
      have more : 1 / 2 < (r : ℚ) / d := by
        rw [lt_div_iff₀ positive]
        have more : (d : ℚ) < 2 * r := by exact_mod_cast more
        linarith
      change (q : ℚ) + 1 / 2 < q + r / d ∧ (q : ℚ) + r / d < q + 1
      exact ⟨by linarith, by linarith⟩

/-- The leading bits of two mantissas tell the size of their quotient up to one bit. -/
theorem quotient_placed {m n : ℕ} (e f : ℤ) (hm : 0 < m) (hn : 0 < n) :
    Format.binary64.targetExponent (totalExponent m e - totalExponent n f) ≤
      gridExponent (m * 2 ^ e / (n * 2 ^ f)) := by
  have numerator := finite_reading_pos e hm
  have denominator := finite_reading_pos f hn
  have least : (2 : ℚ) ^ m.log2 ≤ m := by exact_mod_cast Nat.log2_self_le (by omega)
  have greatest : (n : ℚ) ≤ 2 ^ (n.log2 + 1) := by exact_mod_cast Nat.lt_log2_self.le
  have low : (2 : ℚ) ^ ((m.log2 : ℤ) + e - (n.log2 + 1) - f) ≤ m * 2 ^ e / (n * 2 ^ f) := by
    rw [le_div_iff₀ denominator]
    calc (2 : ℚ) ^ ((m.log2 : ℤ) + e - (n.log2 + 1) - f) * (n * 2 ^ f)
        ≤ 2 ^ ((m.log2 : ℤ) + e - (n.log2 + 1) - f) * (2 ^ (n.log2 + 1) * 2 ^ f) := by
          have := unit_pos f
          have := unit_pos ((m.log2 : ℤ) + e - (n.log2 + 1) - f)
          gcongr
      _ = 2 ^ (m.log2 : ℤ) * 2 ^ e := by
          rw [← zpow_natCast, ← unit_add, ← unit_add, ← unit_add]
          congr 1
          push_cast
          ring
      _ ≤ m * 2 ^ e := by
          rw [zpow_natCast]
          exact mul_le_mul_of_nonneg_right least (unit_pos e).le
  have log := (Int.zpow_le_iff_le_log (b := 2) (by norm_num) (div_pos numerator denominator)).mp
    (by exact_mod_cast low)
  have bits : Format.binary64.mantissaBits = 53 := rfl
  have bottom : Format.binary64.minExponent = -1074 := rfl
  unfold Format.targetExponent totalExponent gridExponent
  rw [bits, bottom, abs_of_pos (div_pos numerator denominator)]
  omega

theorem divCore_represents {m n : ℕ} (e f : ℤ) (hn : 0 < n) :
    ∃ x : ℚ, Represents (.ofMantissaAndAccuracy (divCore .binary64 m e n f).1
        (divCore .binary64 m e n f).2.2) x ∧
      x * 2 ^ (divCore .binary64 m e n f).2.1 = m * 2 ^ e / (n * 2 ^ f) := by
  unfold divCore
  dsimp only
  generalize ht : min (e - f)
    (Format.binary64.targetExponent (totalExponent m e - totalExponent n f)) = t
  obtain ⟨k, placed⟩ : ∃ k : ℕ, e - f = t + k := ⟨(e - f - t).toNat, by omega⟩
  rw [show (e - f - t).toNat = k by omega, Nat.shiftLeft_eq]
  refine ⟨_, accuracy_represents _ (Nat.mod_lt _ hn), ?_⟩
  have whole : ((m * 2 ^ k / n : ℕ) : ℚ) + ((m * 2 ^ k % n : ℕ) : ℚ) / n = m * 2 ^ k / n := by
    have positive : (n : ℚ) ≠ 0 := by exact_mod_cast hn.ne'
    have parts : ((m * 2 ^ k : ℕ) : ℚ) = n * (m * 2 ^ k / n : ℕ) + (m * 2 ^ k % n : ℕ) := by
      exact_mod_cast (Nat.div_add_mod (m * 2 ^ k) n).symm
    push_cast at parts ⊢
    rw [parts]
    field_simp
  have units : (2 : ℚ) ^ e = 2 ^ k * 2 ^ t * 2 ^ f := by
    rw [← zpow_natCast, ← unit_add, ← unit_add]
    congr 1
    omega
  rw [whole, units, ← mul_assoc, mul_div_mul_right _ _ (unit_pos f).ne']
  ring

/-- The quotient of two positive numbers is rounded from enough bits: from 53 at least, or from
    those of the finest grid. -/
theorem div_finite_reads (s t : Sign) {m n : ℕ} (e f : ℤ) (hm : 0 < m) (hn : 0 < n) :
    ∃ r, Rounded (m * 2 ^ e / (n * 2 ^ f)) r ∧
      reading (UnpackedFloat.div .binary64 (.finite s m e hm) (.finite t n f hn)) =
        signed (s / t) r ∧
      Canonical (UnpackedFloat.div .binary64 (.finite s m e hm) (.finite t n f hn)) := by
  obtain ⟨x, exact, value⟩ := divCore_represents (m := m) e f hn
  have placed : (divCore .binary64 m e n f).2.1 ≤ gridExponent (m * 2 ^ e / (n * 2 ^ f)) :=
    (min_le_right _ _).trans (quotient_placed e f hm hn)
  change ∃ r, _ ∧ reading (roundWithAccuracy .binary64 (s / t) (divCore .binary64 m e n f).1
    (divCore .binary64 m e n f).2.1 (divCore .binary64 m e n f).2.2) = _ ∧
      Canonical (roundWithAccuracy .binary64 (s / t) (divCore .binary64 m e n f).1
        (divCore .binary64 m e n f).2.1 (divCore .binary64 m e n f).2.2)
  generalize (divCore .binary64 m e n f).1 = q at *
  generalize (divCore .binary64 m e n f).2.1 = g at *
  generalize (divCore .binary64 m e n f).2.2 = accuracy at *
  have quotient : (0 : ℚ) < m * 2 ^ e / (n * 2 ^ f) :=
    div_pos (finite_reading_pos e hm) (finite_reading_pos f hn)
  rw [← value] at placed quotient ⊢
  have positive : 0 < x := (mul_pos_iff_of_pos_right (unit_pos g)).mp quotient
  have known : 0 < q ∨ g ≤ -1074 := by
    by_contra none
    obtain ⟨zero, above⟩ : q = 0 ∧ -1074 < g := by omega
    have large := unit_le_of_above quotient (above.trans_le placed)
    obtain ⟨_, upper⟩ := exact.bounds
    rw [mantissa_of_accuracy, zero, Nat.cast_zero, zero_add] at upper
    have small : x * 2 ^ g < 2 ^ g := mul_lt_of_lt_one_left (unit_pos g) upper
    have order := unit_le_unit (show g ≤ gridExponent (x * 2 ^ g) + 52 by omega)
    linarith
  obtain ⟨r, rounded, reads, canonical, _⟩ :=
    roundWithAccuracy_reads (s / t) positive exact known placed
  exact ⟨r, rounded, reads, canonical⟩

theorem div_canonical (u v : UnpackedFloat) : Canonical (UnpackedFloat.div .binary64 u v) := by
  rcases u with s | _ | s | ⟨s, m, e, hm⟩ <;> rcases v with t | _ | t | ⟨t, n, f, hn⟩ <;>
    first | trivial | exact (div_finite_reads s t e f hm hn).choose_spec.2.2

theorem unpack_quotient (x y : Float) :
    (x / y).toModel.unpack =
      clipped (UnpackedFloat.div .binary64 x.toModel.unpack y.toModel.unpack) :=
  unpack_pack (div_canonical _ _)

theorem signed_div (s t : Sign) (a b : ℚ) : signed s a / signed t b = signed (s / t) (a / b) := by
  cases s <;> cases t
  · exact neg_div_neg_eq a b
  · exact neg_div b a
  · exact div_neg a
  · rfl

theorem div_reads {u v : UnpackedFloat} (finiteU : u.isFinite = true) (finiteV : v.isFinite = true)
    (nonzero : reading v ≠ 0) :
    ∃ r, Rounded (reading u / reading v) r ∧ reading (UnpackedFloat.div .binary64 u v) = r := by
  cases v with
  | infinity | notANumber => simp [UnpackedFloat.isFinite] at finiteV
  | zero => exact absurd rfl nonzero
  | finite t n f hn =>
    cases u with
    | infinity | notANumber => simp [UnpackedFloat.isFinite] at finiteU
    | zero s => exact ⟨0, by simpa [reading] using Rounded.zero, rfl⟩
    | finite s m e hm =>
      obtain ⟨r, rounded, reads, _⟩ := div_finite_reads s t e f hm hn
      refine ⟨signed (s / t) r, ?_, reads⟩
      rw [reading, reading, signed_div]
      exact rounded.signed _

theorem quotient_reads {x y : Float} (finiteX : x.isFinite = true) (finiteY : y.isFinite = true)
    (nonzero : level y ≠ 0) : ∃ r, Rounded (level x / level y) r ∧ level (x / y) = clamp r := by
  obtain ⟨r, rounded, reads⟩ := div_reads finiteX finiteY nonzero
  refine ⟨r, rounded, ?_⟩
  rw [level, unpack_quotient, reading_clipped (div_canonical _ _), reads]

theorem Rounded.unique {v r s : ℚ} (left : Rounded v r) (right : Rounded v s) : r = s :=
  le_antisymm (left.mono right le_rfl) (right.mono left le_rfl)

theorem Rounded.of_grid {v : ℚ} {n : ℤ} (onGrid : v = n * 2 ^ gridExponent v) : Rounded v v := by
  refine ⟨n, ?_, onGrid⟩
  nth_rewrite 1 [onGrid]
  rw [mul_div_cancel_right₀ _ (unit_pos _).ne']
  exact .self n

theorem exact_represents (m : ℕ) : Represents (.ofMantissaAndAccuracy m .exact) m := rfl

theorem round_reads (s : Sign) {m : ℕ} (hm : 0 < m) (e : ℤ) :
    ∃ r, Rounded (m * 2 ^ e) r ∧ reading (UnpackedFloat.round .binary64 s m e) = signed s r ∧
      Canonical (UnpackedFloat.round .binary64 s m e) := by
  unfold UnpackedFloat.round decreaseExponent
  dsimp only
  have grid := gridExponent_of_represents (e := e) (by exact_mod_cast hm) (exact_represents m)
    (Or.inl hm)
  rw [target_eq, ← grid, Nat.shiftLeft_eq]
  generalize hk : (e - gridExponent (m * 2 ^ e)).toNat = k
  have value : ((m * 2 ^ k : ℕ) : ℚ) * 2 ^ (e - k) = m * 2 ^ e := by
    have units : (2 : ℚ) ^ e = 2 ^ k * 2 ^ (e - k) := by
      rw [← zpow_natCast, ← unit_add]
      congr 1
      omega
    rw [units]
    push_cast
    ring
  have nonzero : 0 < m * 2 ^ k := Nat.mul_pos hm (Nat.two_pow_pos k)
  have placed : e - k ≤ gridExponent (((m * 2 ^ k : ℕ) : ℚ) * 2 ^ (e - k)) := by
    rw [value]
    omega
  obtain ⟨r, rounded, reads, canonical, _⟩ := roundWithAccuracy_reads s
    (by exact_mod_cast nonzero) (exact_represents (m * 2 ^ k)) (Or.inl nonzero) placed
  exact ⟨r, value ▸ rounded, reads, canonical⟩

theorem ofNat_reads (n : ℕ) :
    ∃ r, Rounded n r ∧ reading (UnpackedFloat.ofNat .binary64 n) = r ∧
      Canonical (UnpackedFloat.ofNat .binary64 n) := by
  rcases Nat.eq_zero_or_pos n with rfl | positive
  · exact ⟨0, by simpa using Rounded.zero, rfl, trivial⟩
  · unfold UnpackedFloat.ofNat UnpackedFloat.ofInt UnpackedFloat.normalize
    rw [Int.compare_eq_gt.mpr (by exact_mod_cast positive)]
    obtain ⟨r, rounded, reads, canonical⟩ := round_reads .positive positive 0
    rw [zpow_zero, mul_one] at rounded
    exact ⟨r, rounded, reads, canonical⟩

theorem rounded_natural {n : ℕ} (small : n < 2 ^ 53) : Rounded n n := by
  rcases Nat.eq_zero_or_pos n with rfl | positive
  · simpa using Rounded.zero
  · have log : n.log2 < 53 := (Nat.log2_lt positive.ne').mpr small
    have grid := gridExponent_of_represents (e := 0) (by exact_mod_cast positive)
      (exact_represents n) (Or.inl positive)
    rw [zpow_zero, mul_one] at grid
    obtain ⟨k, finer⟩ : ∃ k : ℕ, gridExponent (n : ℚ) = -k :=
      ⟨(-gridExponent (n : ℚ)).toNat, by omega⟩
    refine Rounded.of_grid (n := (n * 2 ^ k : ℕ)) ?_
    rw [finer, zpow_neg, zpow_natCast]
    push_cast
    rw [mul_assoc, mul_inv_cancel₀ (by positivity), mul_one]

theorem natural_lt_limit {n : ℕ} (small : n < 2 ^ 53) : (n : ℚ) < limit := by
  calc (n : ℚ) < 2 ^ 53 := by exact_mod_cast small
    _ = 2 ^ (53 : ℤ) := by norm_num
    _ ≤ limit := unit_le_unit (by norm_num)

theorem level_toFloat {n : ℕ} (small : n < 2 ^ 53) : level n.toUInt64.toFloat = n := by
  have same : n.toUInt64.toNat = n := by
    rw [Nat.toUInt64_eq, UInt64.toNat_ofNat']
    omega
  obtain ⟨r, rounded, reads, canonical⟩ := ofNat_reads n
  have unpacked : n.toUInt64.toFloat.toModel.unpack =
      clipped (UnpackedFloat.ofNat .binary64 n.toUInt64.toNat) :=
    unpack_pack (by rw [UnpackedFloat.ofUInt64, same]; exact canonical)
  rw [level, unpacked, same, reading_clipped canonical, reads,
    ← (rounded_natural small).unique rounded, clamp_of_abs_le]
  rw [abs_of_nonneg (Nat.cast_nonneg n)]
  exact (natural_lt_limit small).le

theorem finite_of_level {x : Float} (positive : 0 < level x) (bounded : level x < limit) :
    x.isFinite = true := by
  change x.toModel.unpack.isFinite = true
  unfold level at positive bounded
  cases unpacked : x.toModel.unpack with
  | finite | zero => rfl
  | notANumber =>
    rw [unpacked] at positive
    exact absurd positive (lt_irrefl _)
  | infinity s =>
    rw [unpacked] at positive bounded
    cases s
    · exact absurd positive (not_lt.mpr (neg_nonpos.mpr limit_pos.le))
    · exact absurd bounded (lt_irrefl _)

theorem finite_toFloat {n : ℕ} (small : n < 2 ^ 53) : n.toUInt64.toFloat.isFinite = true := by
  rcases Nat.eq_zero_or_pos n with rfl | positive
  · decide +kernel
  · have value := level_toFloat small
    exact finite_of_level (by rw [value]; exact_mod_cast positive)
      (by rw [value]; exact natural_lt_limit small)

end Narrowing
