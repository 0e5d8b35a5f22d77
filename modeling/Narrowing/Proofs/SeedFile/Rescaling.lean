import Narrowing.Proofs.Number.Product
import Narrowing.Proofs.SeedFile.Rereading

/-!
Seeds in another unit. Scaling by a factor that is not negative keeps the ends of an interval in
order, so it can only fail where an end becomes no number: an infinite end scaled by zero, or a zero
scaled by infinity.
-/
namespace Narrowing

inductive Scaled (factor : Float) : Option Value → Option Value → Prop
  | missing : Scaled factor none none
  | scalar (x : Float) : Scaled factor (some (.scalar x)) (some (.scalar (x * factor)))
  | interval (range scaled : Interval) (lo : scaled.lo = range.lo * factor)
      (hi : scaled.hi = range.hi * factor) :
      Scaled factor (some (.interval range)) (some (.interval scaled))

def Spoiled (factor x : Float) : Prop :=
  x.isInf = true ∧ (factor == 0.0) = true ∨ (x == 0.0) = true ∧ factor.isInf = true

def Seed.Spoiled (seed : Seed) (factor : Float) : Prop :=
  ∃ range, seed.value = some (.interval range) ∧
    (Narrowing.Spoiled factor range.lo ∨ Narrowing.Spoiled factor range.hi)

theorem product_isNaN_iff_spoiled {x factor : Float} (number : x.isNaN = false)
    (nonnegative : 0.0 ≤ factor) : (x * factor).isNaN = true ↔ Spoiled factor x := by
  rw [product_isNaN_iff, number, number_of_le_right nonnegative]
  simp [Spoiled]

namespace Interval
variable {factor : Float} (range : Interval)

theorem scaled_error (nonnegative : 0.0 ≤ factor)
    (spoiled : Spoiled factor range.lo ∨ Spoiled factor range.hi) :
    ofEnds (range.lo * factor) (range.hi * factor) = .error .nanBound := by
  rw [← product_isNaN_iff_spoiled range.lo_number nonnegative,
    ← product_isNaN_iff_spoiled range.hi_number nonnegative] at spoiled
  exact if_pos (by simpa using spoiled)

theorem scaled_ok (nonnegative : 0.0 ≤ factor)
    (sound : ¬ (Spoiled factor range.lo ∨ Spoiled factor range.hi)) :
    ∃ scaled : Interval, ofEnds (range.lo * factor) (range.hi * factor) = .ok scaled ∧
      scaled.lo = range.lo * factor ∧ scaled.hi = range.hi * factor := by
  rw [← product_isNaN_iff_spoiled range.lo_number nonnegative,
    ← product_isNaN_iff_spoiled range.hi_number nonnegative, not_or, Bool.not_eq_true,
    Bool.not_eq_true] at sound
  obtain ⟨numberLo, numberHi⟩ := sound
  have order := product_le_product range.lo_le_hi nonnegative numberLo numberHi
  obtain ⟨scaled, lo, hi⟩ : ∃ scaled : Interval, scaled.lo = range.lo * factor ∧
      scaled.hi = range.hi * factor := ⟨⟨⟨_, _⟩, order⟩, rfl, rfl⟩
  refine ⟨scaled, ?_, lo, hi⟩
  rw [← lo, ← hi]
  exact scaled.ofEnds_self

end Interval

/-- For a factor that is not negative, a seed fails to be rescaled only if an end of its interval
    is spoiled, and the error says so; otherwise it keeps its name and provenance. -/
theorem Seed.rescale_exactly (seed : Seed) {factor : Float} (unit : String)
    (nonnegative : 0.0 ≤ factor) :
    (seed.Spoiled factor → seed.rescale factor unit = .error (.convert seed.name .nanBound)) ∧
    (¬ seed.Spoiled factor → ∃ scaled, seed.rescale factor unit = .ok scaled ∧
      scaled.name = seed.name ∧ scaled.provenance = seed.provenance ∧ scaled.unit = unit ∧
      Scaled factor seed.value scaled.value) := by
  rcases seed with ⟨name, provenance, label, value⟩
  constructor
  · rintro ⟨range, rfl, spoiled⟩
    simp [Seed.rescale, Value.rescale, Value.ofEnds, range.scaled_error nonnegative spoiled,
      Except.map]
  · intro sound
    cases value with
    | none => exact ⟨_, rfl, rfl, rfl, rfl, .missing⟩
    | some value =>
      cases value with
      | scalar x => exact ⟨_, rfl, rfl, rfl, rfl, .scalar x⟩
      | interval range =>
        obtain ⟨scaled, ok, lo, hi⟩ := range.scaled_ok nonnegative
          fun spoiled => sound ⟨range, rfl, spoiled⟩
        refine ⟨⟨name, provenance, unit, some (.interval scaled)⟩, ?_, rfl, rfl, rfl,
          .interval range scaled lo hi⟩
        simp [Seed.rescale, Value.rescale, Value.ofEnds, ok, Except.map]

def reach (lo : Float) (ordered : lo ≤ infinity) : Seed :=
  ⟨"reach", .assumed, "km", some (.interval ⟨⟨lo, infinity⟩, ordered⟩)⟩

theorem reach_rescaled :
    (reach 1.0 (by decide +kernel)).rescale 0.0 "m" = .error (.convert "reach" .nanBound) ∧
    ∃ scaled, (reach 1.0 (by decide +kernel)).rescale infinity "m" = .ok scaled ∧
      scaled.name = "reach" ∧ scaled.provenance = .assumed ∧ scaled.unit = "m" ∧
      Scaled infinity (reach 1.0 (by decide +kernel)).value scaled.value := by
  constructor
  · refine (Seed.rescale_exactly _ "m" (by decide +kernel)).1 ⟨_, rfl, Or.inr (Or.inl ?_)⟩
    decide +kernel
  · refine (Seed.rescale_exactly _ "m" (by decide +kernel)).2 ?_
    rintro ⟨range, same, spoiled⟩
    cases same
    revert spoiled
    unfold Spoiled
    decide +kernel

theorem rescale_fails_by_special_factors :
    ((0.0 : Float) ≤ 0.0 ∧
      (reach 1.0 (by decide +kernel)).rescale 0.0 "m" = .error (.convert "reach" .nanBound)) ∧
    (0.0 : Float) ≤ infinity ∧
      (reach 0.0 (by decide +kernel)).rescale infinity "m" = .error (.convert "reach" .nanBound) := by
  decide +kernel

end Narrowing
