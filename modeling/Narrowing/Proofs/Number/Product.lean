import Narrowing.Proofs.Number.Reading

/-!
Products of doubles. The product of two finite doubles is their exact product, rounded and cut off
at the limit of the finite doubles. A product is no number only if a factor is none or a zero meets
an infinity, and multiplying by a factor that is not negative keeps the order of the products that
are numbers.
-/
namespace Narrowing
open Float.Model Float.Model.UnpackedFloat

theorem Rounded.zero : Rounded 0 0 := ⟨0, by simpa using Nearest.self 0, by simp⟩

theorem Rounded.signed {v r : ℚ} (s : Sign) (h : Rounded v r) :
    Rounded (signed s v) (signed s r) := by
  cases s
  · exact h.neg
  · exact h

theorem signed_mul (s t : Sign) (a b : ℚ) : signed s a * signed t b = signed (s * t) (a * b) := by
  cases s <;> cases t
  · exact neg_mul_neg a b
  · exact neg_mul a b
  · exact mul_neg a b
  · rfl

/-- The exact product has a unit no coarser than its grid: a mantissa of 53 bits is kept whole, and
    two shorter ones are both on the finest grid. -/
theorem product_placed {s t : Sign} {m n : ℕ} {e f : ℤ} {hm : 0 < m} {hn : 0 < n}
    (left : Canonical (.finite s m e hm)) (right : Canonical (.finite t n f hn)) :
    e + f ≤ max (((m * n).log2 : ℤ) + (e + f) - 52) (-1074) := by
  obtain ⟨_, _, normalM⟩ := left
  obtain ⟨_, _, normalN⟩ := right
  by_cases bottom : e + f ≤ -1074
  · omega
  · have large : 2 ^ 52 ≤ m * n := by
      rcases normalM with rfl | normal
      · exact (show 2 ^ 52 ≤ n by omega).trans (Nat.le_mul_of_pos_left n hm)
      · exact normal.trans (Nat.le_mul_of_pos_right m hn)
    have bits : 52 ≤ (m * n).log2 := (Nat.le_log2 (Nat.mul_pos hm hn).ne').mpr large
    omega

theorem mul_finite_reads (s t : Sign) {m n : ℕ} {e f : ℤ} (hm : 0 < m) (hn : 0 < n)
    (placed : e + f ≤ max (((m * n).log2 : ℤ) + (e + f) - 52) (-1074)) :
    ∃ r, Rounded (m * 2 ^ e * (n * 2 ^ f)) r ∧
      reading (UnpackedFloat.mul .binary64 (.finite s m e hm) (.finite t n f hn)) =
        signed (s * t) r ∧
      Canonical (UnpackedFloat.mul .binary64 (.finite s m e hm) (.finite t n f hn)) := by
  have nonzero : 0 < m * n := Nat.mul_pos hm hn
  have positive : (0 : ℚ) < (m * n : ℕ) := by exact_mod_cast nonzero
  have exact : Represents (.ofMantissaAndAccuracy (m * n) .exact) ((m * n : ℕ) : ℚ) := rfl
  have value : ((m * n : ℕ) : ℚ) * 2 ^ (e + f) = m * 2 ^ e * (n * 2 ^ f) := by
    rw [unit_add]
    push_cast
    ring
  rw [← gridExponent_of_represents positive exact (Or.inl nonzero)] at placed
  obtain ⟨r, rounded, reads, canonical, _⟩ :=
    roundWithAccuracy_reads (s * t) positive exact (Or.inl nonzero) placed
  exact ⟨r, value ▸ rounded, reads, canonical⟩

theorem mul_reads {u v : UnpackedFloat} (hu : Canonical u) (hv : Canonical v)
    (finiteU : u.isFinite = true) (finiteV : v.isFinite = true) :
    ∃ r, Rounded (reading u * reading v) r ∧ reading (UnpackedFloat.mul .binary64 u v) = r ∧
      Canonical (UnpackedFloat.mul .binary64 u v) := by
  cases u with
  | infinity | notANumber => simp [UnpackedFloat.isFinite] at finiteU
  | zero s =>
    cases v with
    | infinity | notANumber => simp [UnpackedFloat.isFinite] at finiteV
    | zero | finite => exact ⟨0, by simpa [reading] using Rounded.zero, rfl, trivial⟩
  | finite s m e hm =>
    cases v with
    | infinity | notANumber => simp [UnpackedFloat.isFinite] at finiteV
    | zero => exact ⟨0, by simpa [reading] using Rounded.zero, rfl, trivial⟩
    | finite t n f hn =>
      obtain ⟨r, rounded, reads, canonical⟩ := mul_finite_reads s t hm hn (product_placed hu hv)
      refine ⟨signed (s * t) r, ?_, reads, canonical⟩
      rw [reading, reading, signed_mul]
      exact rounded.signed _

theorem mul_canonical {u v : UnpackedFloat} (hu : Canonical u) (hv : Canonical v) :
    Canonical (UnpackedFloat.mul .binary64 u v) := by
  by_cases finiteU : u.isFinite = true
  · by_cases finiteV : v.isFinite = true
    · obtain ⟨_, _, _, canonical⟩ := mul_reads hu hv finiteU finiteV
      exact canonical
    · cases u <;> cases v <;> trivial
  · cases u <;> cases v <;> trivial

theorem mul_isNaN_iff (u v : UnpackedFloat) :
    (UnpackedFloat.mul .binary64 u v).isNaN = true ↔ u.isNaN = true ∨ v.isNaN = true ∨
      u.isInf = true ∧ (∃ s, v = .zero s) ∨ (∃ s, u = .zero s) ∧ v.isInf = true := by
  have rounds (s : Sign) (m : ℕ) (e : ℤ) :
      (roundWithAccuracy .binary64 s m e .exact).isNaN = false := by
    unfold roundWithAccuracy
    dsimp only
    split <;> rfl
  cases u <;> cases v <;> simp [UnpackedFloat.mul, UnpackedFloat.isInf, rounds]

theorem unpack_product (x y : Float) :
    (x * y).toModel.unpack =
      clipped (UnpackedFloat.mul .binary64 x.toModel.unpack y.toModel.unpack) :=
  unpack_pack (mul_canonical (canonical_unpack x) (canonical_unpack y))

theorem isNaN_clipped (u : UnpackedFloat) : (clipped u).isNaN = u.isNaN := by
  cases u with
  | finite s m e hm =>
    change (if 971 < e then UnpackedFloat.infinity s else .finite s m e hm).isNaN = _
    split <;> rfl
  | _ => rfl

theorem eq_zero_iff (x : Float) : (x == 0.0) = true ↔ ∃ s, x.toModel.unpack = .zero s := by
  have zero : (0.0 : Float).toModel.unpack = .zero .positive := rfl
  refine (unpacked_beq_iff x.toModel.unpack (0.0 : Float).toModel.unpack).trans ?_
  rw [zero]
  rcases x.toModel.unpack with s | _ | s | ⟨s, m, e, hm⟩ <;> (try cases s) <;>
    simp [UnpackedFloat.isNaN, Height.ofUnpacked]

theorem product_isNaN_iff (x y : Float) :
    (x * y).isNaN = true ↔ x.isNaN = true ∨ y.isNaN = true ∨
      x.isInf = true ∧ (y == 0.0) = true ∨ (x == 0.0) = true ∧ y.isInf = true := by
  rw [eq_zero_iff, eq_zero_iff]
  change (x * y).toModel.unpack.isNaN = true ↔ _
  rw [unpack_product, isNaN_clipped]
  exact mul_isNaN_iff _ _

theorem product_reads {x y : Float} (finiteX : x.isFinite = true) (finiteY : y.isFinite = true) :
    ∃ r, Rounded (level x * level y) r ∧ level (x * y) = clamp r := by
  obtain ⟨r, rounded, reads, canonical⟩ :=
    mul_reads (canonical_unpack x) (canonical_unpack y) finiteX finiteY
  refine ⟨r, rounded, ?_⟩
  unfold level
  rw [unpack_product, reading_clipped canonical, reads]

theorem mul_of_infinite {u v : UnpackedFloat}
    (number : (UnpackedFloat.mul .binary64 u v).isNaN = false)
    (infinite : u.isFinite = false ∨ v.isFinite = false)
    (nonnegative : 0 ≤ (Height.ofUnpacked v).tier) :
    (0 ≤ (Height.ofUnpacked u).tier → UnpackedFloat.mul .binary64 u v = .infinity .positive) ∧
      ((Height.ofUnpacked u).tier ≤ 0 → UnpackedFloat.mul .binary64 u v = .infinity .negative) := by
  rcases u with s | _ | s | ⟨s, m, e, hm⟩ <;> rcases v with t | _ | t | ⟨t, n, f, hn⟩ <;>
    (try cases s) <;> (try cases t) <;>
    simp_all [UnpackedFloat.mul, UnpackedFloat.isNaN, UnpackedFloat.isFinite, Height.ofUnpacked] <;>
    rfl

theorem tier_of_sign (x : Float) :
    (0.0 ≤ x → 0 ≤ (height x).tier) ∧ (x ≤ 0.0 → (height x).tier ≤ 0) := by
  have zero : height 0.0 = ⟨0, 0, 0⟩ := by decide +kernel
  rw [number_le_iff, number_le_iff, zero]
  simp only [Height.Le]
  omega

/-- With an infinite factor a product is infinite, if it is a number at all. -/
theorem product_of_infinite {x f : Float} (number : (x * f).isNaN = false)
    (infinite : x.isFinite = false ∨ f.isFinite = false) (nonnegative : 0.0 ≤ f) :
    (0.0 ≤ x → x * f = infinity) ∧ (x ≤ 0.0 → x * f = -infinity) := by
  have product := unpack_product x f
  change (x * f).toModel.unpack.isNaN = false at number
  rw [product, isNaN_clipped] at number
  obtain ⟨above, below⟩ := mul_of_infinite number infinite ((tier_of_sign f).1 nonnegative)
  constructor
  · intro sign
    rw [above ((tier_of_sign x).1 sign)] at product
    exact eq_infinity_of_tier (by unfold height; rw [product]; rfl)
  · intro sign
    rw [below ((tier_of_sign x).2 sign)] at product
    exact eq_neg_infinity_of_tier (by unfold height; rw [product]; rfl)

theorem infinite_of_le {x y : Float} (order : x ≤ y) (sign : 0.0 ≤ x)
    (infinite : x.isFinite = false) : y.isFinite = false := by
  have negative : ¬ (0.0 : Float) ≤ -infinity := by decide +kernel
  rcases eq_infinity_of_infinite (number_of_le_left order) infinite with rfl | rfl
  · rw [eq_infinity_of_le order]
    exact infinite
  · exact absurd sign negative

theorem infinite_of_ge {x y : Float} (order : x ≤ y) (sign : y ≤ 0.0)
    (infinite : y.isFinite = false) : x.isFinite = false := by
  have positive : ¬ infinity ≤ (0.0 : Float) := by decide +kernel
  rcases eq_infinity_of_infinite (number_of_le_right order) infinite with rfl | rfl
  · exact absurd sign positive
  · rw [eq_neg_infinity_of_le order]
    exact infinite

theorem product_le_product {x y f : Float} (order : x ≤ y) (nonnegative : 0.0 ≤ f)
    (numberX : (x * f).isNaN = false) (numberY : (y * f).isNaN = false) : x * f ≤ y * f := by
  have zero : (0.0 : Float).isNaN = false := by decide +kernel
  by_cases infiniteX : x.isFinite = false ∨ f.isFinite = false
  · rcases number_le_total (number_of_le_left order) zero with below | above
    · rw [(product_of_infinite numberX infiniteX nonnegative).2 below]
      exact neg_infinity_le_number numberY
    · have infiniteY := infiniteX.imp_left (infinite_of_le order above)
      rw [(product_of_infinite numberY infiniteY nonnegative).1 (number_le_trans above order)]
      exact number_le_infinity numberX
  · obtain ⟨finiteX, finiteF⟩ := not_or.mp infiniteX
    rw [Bool.not_eq_false] at finiteX finiteF
    by_cases finiteY : y.isFinite = true
    · obtain ⟨r, rounded, reads⟩ := product_reads finiteX finiteF
      obtain ⟨r', rounded', reads'⟩ := product_reads finiteY finiteF
      have levels := ((number_le_iff_level x y).mp order).2.2
      have sign : 0 ≤ level f := ((number_le_iff_level 0.0 f).mp nonnegative).2.2
      rw [number_le_iff_level, reads, reads']
      exact ⟨numberX, numberY,
        clamp_mono (rounded.mono rounded' (mul_le_mul_of_nonneg_right levels sign))⟩
    · rw [Bool.not_eq_true] at finiteY
      have above : 0.0 ≤ y := by
        refine (number_le_total zero (number_of_le_right order)).resolve_right fun below => ?_
        simp [infinite_of_ge order below finiteY] at finiteX
      rw [(product_of_infinite numberY (Or.inl finiteY) nonnegative).1 above]
      exact number_le_infinity numberX

end Narrowing
