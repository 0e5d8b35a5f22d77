import Narrowing.Proofs.Number.Infinities
import Narrowing.Proofs.Number.Rounding

/-!
The exact numbers that doubles stand for. Their order is the order of doubles, and an operation
that rounds its exact result gives the double that stands for the rounded number, or an infinity
where that is past all finite doubles.
-/
namespace Narrowing
open Float.Model Float.Model.UnpackedFloat

def signed : Sign → ℚ → ℚ
  | .negative, x => -x
  | .positive, x => x

def limit : ℚ := 2 ^ (1024 : ℤ)

/-- The number a double stands for. An infinity counts as the limit of the finite doubles, and what
    is not a number as zero. -/
def reading : UnpackedFloat → ℚ
  | .notANumber => 0
  | .zero _ => 0
  | .infinity s => signed s limit
  | .finite s m e _ => signed s (m * 2 ^ e)

/-- A mantissa of 53 bits, or fewer on the finest grid. -/
def Canonical : UnpackedFloat → Prop
  | .finite _ m e _ => m < 2 ^ 53 ∧ -1074 ≤ e ∧ (e = -1074 ∨ 2 ^ 52 ≤ m)
  | _ => True

def clipped : UnpackedFloat → UnpackedFloat
  | .finite s m e h => if 971 < e then .infinity s else .finite s m e h
  | u => u

theorem mantissa_toNat (m : BitVec 52) : (1#1 ++ m).toNat = 2 ^ 52 + m.toNat := by
  rw [BitVec.toNat_append, ← Nat.shiftLeft_add_eq_or_of_lt m.isLt]
  rfl

theorem clipped_of_le {s : Sign} {m : ℕ} {e : ℤ} {h : 0 < m} (bounded : e ≤ 971) :
    clipped (.finite s m e h) = .finite s m e h :=
  if_neg (by omega)

theorem clipped_of_lt {s : Sign} {m : ℕ} {e : ℤ} {h : 0 < m} (large : 971 < e) :
    clipped (.finite s m e h) = .infinity s :=
  if_pos large

theorem unpack_canonical (b : BitVec Format.binary64.numBits) :
    Canonical (UnpackedFloat.unpack .binary64 b) ∧
      clipped (UnpackedFloat.unpack .binary64 b) = UnpackedFloat.unpack .binary64 b := by
  have mantissaBound : (unpackMantissa b).toNat < 2 ^ 52 := (unpackMantissa b).isLt
  have exponentBound : (unpackExponent b).toNat < 2 ^ 11 := (unpackExponent b).isLt
  have bias : (Format.binary64.exponentBias : ℤ) = 1023 := rfl
  unfold UnpackedFloat.unpack
  dsimp only
  split
  · split
    · exact ⟨trivial, rfl⟩
    · exact ⟨trivial, rfl⟩
  · rename_i below
    split
    · rename_i bottom
      split
      · exact ⟨trivial, rfl⟩
      · rw [bottom, bias]
        exact ⟨⟨by omega, by decide, Or.inl (by decide)⟩, clipped_of_le (by decide)⟩
    · rename_i above
      have bounded : (unpackExponent b).toNat ≠ 2047 := by
        intro top
        exact below (BitVec.eq_of_toNat_eq top)
      have positive : (unpackExponent b).toNat ≠ 0 := by
        intro zero
        exact above (BitVec.eq_of_toNat_eq zero)
      have whole := mantissa_toNat (unpackMantissa b)
      refine ⟨⟨?_, ?_, Or.inr ?_⟩, clipped_of_le ?_⟩
      · omega
      · rw [bias]
        omega
      · omega
      · rw [bias]
        omega

theorem log2_of_normal {m : ℕ} (lower : 2 ^ 52 ≤ m) (upper : m < 2 ^ 53) : m.log2 = 52 := by
  have atLeast : 52 ≤ m.log2 := (Nat.le_log2 (by omega)).mpr lower
  have below : m.log2 < 53 := (Nat.log2_lt (by omega)).mpr upper
  omega

theorem unpack_infinity (s : Sign) :
    UnpackedFloat.unpack .binary64 (packedInfinity .binary64 s) = .infinity s := by
  cases s <;> rfl

theorem unpack_normal {s : Sign} {m k : ℕ} (lower : 2 ^ 52 ≤ m) (upper : m < 2 ^ 53)
    (positive : 0 < k) (bounded : k < 2047) :
    UnpackedFloat.unpack .binary64
      (packComponents .binary64 s (BitVec.ofNat 11 k) (BitVec.ofNat 52 m)) =
        .finite s m (k - 1075) (by omega) := by
  have exponent : (BitVec.ofNat 11 k).toNat = k := by
    rw [BitVec.toNat_ofNat]
    omega
  have mantissa : (1#1 ++ BitVec.ofNat 52 m).toNat = m := by
    rw [mantissa_toNat, BitVec.toNat_ofNat]
    omega
  have below : BitVec.ofNat 11 k ≠ -1#11 := by
    intro top
    rw [top] at exponent
    exact absurd exponent (by change 2047 ≠ k; omega)
  have above : BitVec.ofNat 11 k ≠ 0#11 := by
    intro bottom
    rw [bottom] at exponent
    exact absurd exponent (by change 0 ≠ k; omega)
  unfold UnpackedFloat.unpack
  simp only [unpackMantissa_packComponents, unpackExponent_packComponents,
    unpackSign_packComponents, Sign.ofBitVec_toBitVec,
    if_neg below, if_neg above, mantissa, exponent]
  rfl

theorem unpack_subnormal {s : Sign} {m : ℕ} (positive : 0 < m) (upper : m < 2 ^ 52) :
    UnpackedFloat.unpack .binary64
      (packComponents .binary64 s 0#11 (BitVec.ofNat 52 m)) = .finite s m (-1074) positive := by
  have mantissa : (BitVec.ofNat 52 m).toNat = m := by
    rw [BitVec.toNat_ofNat]
    omega
  have nonzero : BitVec.ofNat 52 m ≠ 0#52 := by
    intro zero
    rw [zero] at mantissa
    exact absurd mantissa (by change 0 ≠ m; omega)
  unfold UnpackedFloat.unpack
  simp only [unpackMantissa_packComponents, unpackExponent_packComponents,
    unpackSign_packComponents, Sign.ofBitVec_toBitVec,
    dif_neg nonzero, mantissa]
  rfl

theorem unpack_pack {u : UnpackedFloat} (canonical : Canonical u) :
    UnpackedFloat.unpack .binary64 (UnpackedFloat.pack .binary64 u) = clipped u := by
  rcases u with s | _ | s | ⟨s, m, e, hm⟩
  · exact unpack_infinity s
  · rfl
  · cases s <;> rfl
  · obtain ⟨upper, lower, normal⟩ := canonical
    have biased : (e + Format.binary64.exponentBias +
        Format.binary64.mantissaBitsWithoutImplicit).toNat = (e + 1075).toNat := by
      change (e + (1023 : ℕ) + (52 : ℕ)).toNat = _
      omega
    unfold UnpackedFloat.pack
    dsimp only
    rw [biased]
    split
    · rename_i large
      rw [unpack_infinity, clipped_of_lt (by omega)]
    · rename_i bounded
      rw [clipped_of_le (by omega)]
      split
      · rename_i full
        change m.log2 + 1 = 53 at full
        have large : 2 ^ 52 ≤ m := by
          rw [← show m.log2 = 52 by omega]
          exact Nat.log2_self_le (by omega)
        rw [unpack_normal large upper (by omega) (by omega)]
        congr 1
        omega
      · rename_i short
        change m.log2 + 1 ≠ 53 at short
        have small : m < 2 ^ 52 := by
          by_contra large
          exact short (by rw [log2_of_normal (by omega) upper])
        obtain rfl : e = -1074 := by omega
        exact unpack_subnormal hm small

theorem target_eq (m : ℕ) (e : ℤ) :
    Format.binary64.targetExponent (totalExponent m e) = max (m.log2 + e - 52) (-1074) := by
  have bits : Format.binary64.mantissaBits = 53 := rfl
  have least : Format.binary64.minExponent = -1074 := rfl
  unfold Format.targetExponent totalExponent
  rw [bits, least]
  omega

theorem log_of_mantissa {m : ℕ} {x : ℚ} (positive : 0 < m) (lower : m ≤ x) (upper : x < m + 1)
    (e : ℤ) : Int.log 2 |x * 2 ^ e| = m.log2 + e := by
  have above : (0 : ℚ) < x := lt_of_lt_of_le (by exact_mod_cast positive) lower
  have above : 0 < x * 2 ^ e := mul_pos above (unit_pos e)
  have least : (2 : ℚ) ^ m.log2 ≤ m := by exact_mod_cast Nat.log2_self_le (by omega)
  have greatest : (m : ℚ) + 1 ≤ 2 ^ (m.log2 + 1) := by exact_mod_cast Nat.lt_log2_self
  have low : 2 ^ ((m.log2 : ℤ) + e) ≤ x * 2 ^ e := by
    rw [unit_add, zpow_natCast]
    exact mul_le_mul_of_nonneg_right (least.trans lower) (unit_pos e).le
  have high : x * 2 ^ e < 2 ^ ((m.log2 : ℤ) + e + 1) := by
    rw [show (m.log2 : ℤ) + e + 1 = ((m.log2 + 1 : ℕ) : ℤ) + e by push_cast; ring, unit_add,
      zpow_natCast]
    exact mul_lt_mul_of_pos_right (upper.trans_le greatest) (unit_pos e)
  rw [abs_of_pos above]
  refine le_antisymm ?_ ?_
  · have bound := (Int.lt_zpow_iff_log_lt (b := 2) (by norm_num) above).mp (by exact_mod_cast high)
    omega
  · exact (Int.zpow_le_iff_le_log (b := 2) (by norm_num) above).mp (by exact_mod_cast low)

theorem mantissa_of_accuracy (m : ℕ) (accuracy : Accuracy) :
    (ExtendedMantissa.ofMantissaAndAccuracy m accuracy).mantissa = m := by
  rcases accuracy with _ | order
  · rfl
  · cases order <;> rfl

/-- The grid of a number whose leading bits are known. A mantissa of zero tells nothing but that the
    number is on the finest grid. -/
theorem gridExponent_of_represents {m : ℕ} {e : ℤ} {accuracy : Accuracy} {x : ℚ} (positive : 0 < x)
    (exact : Represents (.ofMantissaAndAccuracy m accuracy) x) (known : 0 < m ∨ e ≤ -1074) :
    gridExponent (x * 2 ^ e) = max (m.log2 + e - 52) (-1074) := by
  obtain ⟨lower, upper⟩ := exact.bounds
  rw [mantissa_of_accuracy] at lower upper
  rcases Nat.eq_zero_or_pos m with rfl | nonzero
  · have finest : e ≤ -1074 := by omega
    have above : 0 < x * 2 ^ e := mul_pos positive (unit_pos e)
    have small : x * 2 ^ e < 2 ^ e := by
      rw [Nat.cast_zero, zero_add] at upper
      exact mul_lt_of_lt_one_left (unit_pos e) upper
    have log := (Int.lt_zpow_iff_log_lt (b := 2) (by norm_num) above).mp (by exact_mod_cast small)
    rw [gridExponent, abs_of_pos above]
    have bits : (0 : ℕ).log2 = 0 := by decide
    omega
  · rw [gridExponent, log_of_mantissa nonzero lower upper]

/-- The first shift goes to the grid of the exact number, and the bits it keeps round as the number
    itself does. -/
theorem shiftToTarget_nearest {m : ℕ} {e : ℤ} {accuracy : Accuracy} {x : ℚ} (positive : 0 < x)
    (exact : Represents (.ofMantissaAndAccuracy m accuracy) x) (known : 0 < m ∨ e ≤ -1074)
    (placed : e ≤ gridExponent (x * 2 ^ e)) :
    ∃ em, shiftToTargetExponent .binary64 m e accuracy = (em, gridExponent (x * 2 ^ e)) ∧
      Nearest (x * 2 ^ e / 2 ^ gridExponent (x * 2 ^ e)) em.roundedMantissa := by
  have target := gridExponent_of_represents positive exact known
  rw [← target_eq] at target
  obtain ⟨k, grid⟩ : ∃ k : ℕ, gridExponent (x * 2 ^ e) = e + k :=
    ⟨(gridExponent (x * 2 ^ e) - e).toNat, by omega⟩
  refine ⟨ExtendedMantissa.ofMantissaAndAccuracy m accuracy >>> k, ?_, ?_⟩
  · unfold shiftToTargetExponent shiftToExponent
    rw [← target, grid]
    dsimp only
    rw [show (e + (k : ℤ) - e).toNat = k by omega]
  · have scaled : x * 2 ^ e / 2 ^ (e + k) = x / 2 ^ k := by
      rw [unit_add, zpow_natCast, mul_comm x, mul_div_mul_left _ _ (unit_pos e).ne']
    rw [grid, scaled]
    exact (exact.shiftRight k).nearest

/-- Rounding may carry into a bit that does not fit; then the mantissa is a power of two and loses
    nothing by one more shift. -/
theorem shiftToTarget_rounded {n : ℕ} {g : ℤ} (bounded : n ≤ 2 ^ 53) (least : -1074 ≤ g) :
    shiftToTargetExponent .binary64 n g .exact = (⟨n, false, false⟩, g) ∧ n < 2 ^ 53 ∨
      shiftToTargetExponent .binary64 n g .exact = (⟨2 ^ 52, false, false⟩, g + 1) ∧
        n = 2 ^ 53 := by
  unfold shiftToTargetExponent shiftToExponent
  rw [target_eq]
  dsimp only
  rcases Nat.lt_or_eq_of_le bounded with fits | rfl
  · left
    have short : n.log2 < 53 := by
      by_cases zero : n = 0
      · rw [zero]
        decide
      · exact (Nat.log2_lt zero).mpr fits
    have still : (max ((n.log2 : ℤ) + g - 52) (-1074) - g).toNat = 0 := by omega
    rw [still, Nat.cast_zero, Int.add_zero]
    exact ⟨rfl, fits⟩
  · right
    have long : (2 ^ 53 : ℕ).log2 = 53 := by decide
    have once : (max (((2 ^ 53 : ℕ).log2 : ℤ) + g - 52) (-1074) - g).toNat = 1 := by omega
    rw [once]
    exact ⟨rfl, rfl⟩

/-- A mantissa whose unit is no coarser than the grid is rounded as the number it stands for. -/
theorem roundWithAccuracy_reads (s : Sign) {m : ℕ} {e : ℤ} {accuracy : Accuracy} {x : ℚ}
    (positive : 0 < x) (exact : Represents (.ofMantissaAndAccuracy m accuracy) x)
    (known : 0 < m ∨ e ≤ -1074) (placed : e ≤ gridExponent (x * 2 ^ e)) :
    ∃ r, Rounded (x * 2 ^ e) r ∧
      reading (roundWithAccuracy .binary64 s m e accuracy) = signed s r ∧
      Canonical (roundWithAccuracy .binary64 s m e accuracy) ∧
      (roundWithAccuracy .binary64 s m e accuracy).isNaN = false := by
  obtain ⟨em, first, nearest⟩ := shiftToTarget_nearest positive exact known placed
  obtain ⟨bounded, normal⟩ := mantissa_of_nearest (mul_pos positive (unit_pos e)) nearest
  have least : -1074 ≤ gridExponent (x * 2 ^ e) := le_max_right _ _
  have second := shiftToTarget_rounded (by exact_mod_cast bounded) least
  refine ⟨em.roundedMantissa * 2 ^ gridExponent (x * 2 ^ e), ⟨_, nearest, rfl⟩, ?_⟩
  unfold roundWithAccuracy
  rw [first]
  dsimp only
  rcases second with ⟨second, fits⟩ | ⟨second, carried⟩
  · rw [second]
    dsimp only
    split
    · rename_i zero
      rw [zero]
      exact ⟨by cases s <;> simp [reading, signed], trivial, rfl⟩
    · exact ⟨rfl, ⟨fits, least, by exact_mod_cast normal⟩, rfl⟩
  · rw [second]
    dsimp only
    rw [dif_neg (by decide), carried]
    refine ⟨?_, ⟨by decide, by omega, Or.inr le_rfl⟩, rfl⟩
    change signed s _ = signed s _
    rw [unit_add _ 1]
    push_cast
    congr 1
    ring

theorem limit_pos : 0 < limit := unit_pos 1024

theorem canonical_le_iff {s t : Sign} {m n : ℕ} {e f : ℤ} {hm : 0 < m} {hn : 0 < n}
    (left : Canonical (.finite s m e hm)) (right : Canonical (.finite t n f hn)) :
    (m * 2 ^ e : ℚ) ≤ n * 2 ^ f ↔ e < f ∨ e = f ∧ m ≤ n := by
  -- A coarser grid has larger numbers only.
  have apart {m n : ℕ} {e f : ℤ} (bounded : m < 2 ^ 53) (least : -1074 ≤ e)
      (normal : f = -1074 ∨ 2 ^ 52 ≤ n) (finer : e < f) : (m * 2 ^ e : ℚ) < n * 2 ^ f := by
    have large : 2 ^ 52 ≤ n := by omega
    calc (m * 2 ^ e : ℚ) < 2 ^ 53 * 2 ^ e :=
          mul_lt_mul_of_pos_right (by exact_mod_cast bounded) (unit_pos e)
      _ = 2 ^ 52 * 2 ^ (e + 1) := by rw [unit_add e 1]; ring
      _ ≤ n * 2 ^ f :=
          mul_le_mul (by exact_mod_cast large) (unit_le_unit finer) (unit_pos _).le (by positivity)
  obtain ⟨boundM, leastM, normalM⟩ := left
  obtain ⟨boundN, leastN, normalN⟩ := right
  rcases lt_trichotomy e f with finer | rfl | coarser
  · exact iff_of_true (apart boundM leastM normalN finer).le (Or.inl finer)
  · rw [mul_le_mul_iff_left₀ (unit_pos e), Nat.cast_le]
    exact ⟨fun h => Or.inr ⟨rfl, h⟩, fun h => by omega⟩
  · exact iff_of_false (not_le.mpr (apart boundN leastN normalM coarser)) (by omega)

theorem exponent_of_clipped {s : Sign} {m : ℕ} {e : ℤ} {h : 0 < m}
    (same : clipped (.finite s m e h) = .finite s m e h) : e ≤ 971 := by
  by_contra large
  rw [clipped_of_lt (by omega)] at same
  cases same

theorem finite_reading_pos {m : ℕ} (e : ℤ) (positive : 0 < m) : (0 : ℚ) < m * 2 ^ e :=
  mul_pos (by exact_mod_cast positive) (unit_pos e)

theorem finite_reading_lt {m : ℕ} {e : ℤ} (fits : m < 2 ^ 53) (bounded : e ≤ 971) :
    (m * 2 ^ e : ℚ) < limit := by
  calc (m * 2 ^ e : ℚ) < 2 ^ 53 * 2 ^ e :=
        mul_lt_mul_of_pos_right (by exact_mod_cast fits) (unit_pos e)
    _ = 2 ^ (53 + e) := by rw [unit_add]; norm_num
    _ ≤ limit := unit_le_unit (by omega)

theorem finite_reading_ge {m : ℕ} {e : ℤ} (normal : 2 ^ 52 ≤ m) (large : 971 < e) :
    limit ≤ m * 2 ^ e := by
  calc limit ≤ 2 ^ (52 + e) := unit_le_unit (by omega)
    _ = 2 ^ 52 * 2 ^ e := by rw [unit_add]; norm_num
    _ ≤ m * 2 ^ e := mul_le_mul_of_nonneg_right (by exact_mod_cast normal) (unit_pos e).le

def clamp (r : ℚ) : ℚ := max (-limit) (min r limit)

theorem clamp_mono {r s : ℚ} (order : r ≤ s) : clamp r ≤ clamp s :=
  max_le_max le_rfl (min_le_min order le_rfl)

theorem clamp_of_abs_le {r : ℚ} (inside : |r| ≤ limit) : clamp r = r := by
  obtain ⟨lower, upper⟩ := abs_le.mp inside
  rw [clamp, min_eq_left upper, max_eq_right lower]

theorem clamp_signed (s : Sign) {r : ℚ} (large : limit ≤ r) :
    clamp (signed s r) = signed s limit := by
  have positive := limit_pos
  cases s
  · change max _ (min (-r) _) = -limit
    rw [min_eq_left (by linarith), max_eq_left (by linarith)]
  · change max _ (min r _) = limit
    rw [min_eq_right large, max_eq_right (by linarith)]

theorem abs_signed (s : Sign) {r : ℚ} (nonnegative : 0 ≤ r) : |signed s r| = r := by
  cases s
  · exact (abs_neg r).trans (abs_of_nonneg nonnegative)
  · exact abs_of_nonneg nonnegative

theorem reading_clipped {u : UnpackedFloat} (canonical : Canonical u) :
    reading (clipped u) = clamp (reading u) := by
  have zero : clamp 0 = 0 := clamp_of_abs_le (by rw [abs_zero]; exact limit_pos.le)
  rcases u with s | _ | s | ⟨s, m, e, hm⟩
  · exact (clamp_signed s le_rfl).symm
  · exact zero.symm
  · exact zero.symm
  · obtain ⟨fits, least, normal⟩ := canonical
    rcases le_or_gt e 971 with bounded | large
    · rw [clipped_of_le bounded, clamp_of_abs_le]
      rw [reading, abs_signed s (finite_reading_pos e hm).le]
      exact (finite_reading_lt fits bounded).le
    · rw [clipped_of_lt large]
      exact (clamp_signed s (finite_reading_ge (by omega) large)).symm

theorem finite_reading_bounds {s : Sign} {m : ℕ} {e : ℤ} {h : 0 < m}
    (canonical : Canonical (.finite s m e h))
    (same : clipped (.finite s m e h) = .finite s m e h) :
    (0 : ℚ) < m * 2 ^ e ∧ (m * 2 ^ e : ℚ) < limit :=
  ⟨finite_reading_pos e h, finite_reading_lt canonical.1 (exponent_of_clipped same)⟩

/-- On doubles as they are stored, the order of heights is the order of readings. -/
theorem height_le_iff_reading {u v : UnpackedFloat} (hu : Canonical u) (cu : clipped u = u)
    (hv : Canonical v) (cv : clipped v = v) :
    (Height.ofUnpacked u).Le (Height.ofUnpacked v) ↔ reading u ≤ reading v := by
  have positive := limit_pos
  cases u with
  | notANumber | zero =>
    rcases v with t | _ | t | ⟨t, n, f, hn⟩ <;> (try cases t) <;>
      (try have above := finite_reading_pos f hn) <;>
      simp [Height.ofUnpacked, Height.Le, reading, signed] <;> linarith
  | infinity s =>
    rcases v with t | _ | t | ⟨t, n, f, hn⟩ <;> (try cases t) <;> cases s <;>
      (try have bounds := finite_reading_bounds hv cv) <;>
      simp [Height.ofUnpacked, Height.Le, reading, signed] <;> linarith
  | finite s m e hm =>
    have bounds := finite_reading_bounds hu cu
    cases v with
    | notANumber | zero | infinity t =>
      (try cases t) <;> cases s <;> simp [Height.ofUnpacked, Height.Le, reading, signed] <;>
        linarith
    | finite t n f hn =>
      have bounds' := finite_reading_bounds hv cv
      cases s <;> cases t
      · change Height.Le ⟨-1, -e, -m⟩ ⟨-1, -f, -n⟩ ↔ -(m * 2 ^ e : ℚ) ≤ -(n * 2 ^ f)
        rw [neg_le_neg_iff, canonical_le_iff hv hu, Height.Le]
        dsimp only
        omega
      · exact iff_of_true (by simp [Height.Le, Height.ofUnpacked])
          (by simp only [reading, signed]; linarith)
      · exact iff_of_false (by simp [Height.Le, Height.ofUnpacked])
          (by simp only [reading, signed]; linarith)
      · change Height.Le ⟨1, e, m⟩ ⟨1, f, n⟩ ↔ (m * 2 ^ e : ℚ) ≤ n * 2 ^ f
        rw [canonical_le_iff hu hv, Height.Le]
        dsimp only
        omega

def level (x : Float) : ℚ := reading x.toModel.unpack

theorem canonical_unpack (x : Float) : Canonical x.toModel.unpack := (unpack_canonical _).1

theorem clipped_unpack (x : Float) : clipped x.toModel.unpack = x.toModel.unpack :=
  (unpack_canonical _).2

theorem number_le_iff_level (x y : Float) :
    x ≤ y ↔ x.isNaN = false ∧ y.isNaN = false ∧ level x ≤ level y := by
  have order := height_le_iff_reading (canonical_unpack x) (clipped_unpack x)
    (canonical_unpack y) (clipped_unpack y)
  rw [number_le_iff]
  exact and_congr_right fun _ => and_congr_right fun _ => order

theorem eq_of_same_reading {u v : UnpackedFloat} (hu : Canonical u) (cu : clipped u = u)
    (hv : Canonical v) (cv : clipped v = v) (same : reading u = reading v)
    (nonzero : reading u ≠ 0) : u = v := by
  have heights : Height.ofUnpacked u = Height.ofUnpacked v :=
    Height.le_antisymm ((height_le_iff_reading hu cu hv cv).mpr same.le)
      ((height_le_iff_reading hv cv hu cu).mpr same.ge)
  have nonzero' := same ▸ nonzero
  rcases u with s | _ | s | ⟨s, m, e, hm⟩ <;> rcases v with t | _ | t | ⟨t, n, f, hn⟩ <;>
    (try cases s) <;> (try cases t) <;> simp_all [Height.ofUnpacked, reading]

theorem eq_of_level {x y : Float} (same : level x = level y) (nonzero : level x ≠ 0) : x = y :=
  eq_of_unpack (eq_of_same_reading (canonical_unpack x) (clipped_unpack x) (canonical_unpack y)
    (clipped_unpack y) same nonzero)

theorem clamp_neg (r : ℚ) : clamp (-r) = -clamp r := by
  have positive := limit_pos
  unfold clamp
  rcases le_total r limit with upper | upper
  · rcases le_total (-limit) r with lower | lower
    · rw [min_eq_left upper, max_eq_right lower, min_eq_left (by linarith),
        max_eq_right (by linarith)]
    · rw [min_eq_left upper, max_eq_left lower, min_eq_right (by linarith),
        max_eq_right (by linarith), neg_neg]
  · rw [min_eq_right upper, min_eq_left (by linarith), max_eq_left (by linarith),
      max_eq_right (by linarith)]

theorem reading_neg (u : UnpackedFloat) : reading u.neg = -reading u := by
  rcases u with s | _ | s | ⟨s, m, e, hm⟩ <;> (try cases s) <;>
    simp [reading, UnpackedFloat.neg, signed]

theorem level_neg (x : Float) : level (-x) = -level x := by
  have canonical : Canonical x.toModel.unpack.neg := by
    have canonical := canonical_unpack x
    cases unpacked : x.toModel.unpack with
    | finite s m e h =>
      rw [unpacked] at canonical
      exact canonical
    | _ => trivial
  have unpacked : (-x).toModel.unpack = clipped x.toModel.unpack.neg := unpack_pack canonical
  rw [level, unpacked, reading_clipped canonical, reading_neg, clamp_neg,
    ← reading_clipped (canonical_unpack x), clipped_unpack, level]

end Narrowing
