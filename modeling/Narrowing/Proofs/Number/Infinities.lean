import Narrowing.Proofs.Number.Order

/-!
The infinities. Unlike zero, each of them is one double only: a number at or above infinity is
infinity itself, bit for bit, and so below.
-/
namespace Narrowing
open Float.Model Float.Model.UnpackedFloat

theorem eq_of_unpack {x y : Float} (same : x.toModel.unpack = y.toModel.unpack) : x = y := by
  have bits := (unpack_inj_of_valid x.toModel.valid y.toModel.valid).mp same
  exact Float.toBits_inj.mp (UInt64.toBitVec_inj.mp bits)

theorem infinite_of_tier {u : UnpackedFloat} :
    ((Height.ofUnpacked u).tier = 2 → u = .infinity .positive) ∧
      ((Height.ofUnpacked u).tier = -2 → u = .infinity .negative) := by
  rcases u with s | _ | s | ⟨s, m, e, hm⟩ <;> (try cases s) <;> simp [Height.ofUnpacked]

theorem eq_infinity_of_tier {x : Float} (top : (height x).tier = 2) : x = infinity := by
  have same : (height infinity).tier = 2 := by rw [height_infinity]
  exact eq_of_unpack ((infinite_of_tier.1 top).trans (infinite_of_tier.1 same).symm)

theorem eq_neg_infinity_of_tier {x : Float} (bottom : (height x).tier = -2) : x = -infinity := by
  have same : (height (-infinity)).tier = -2 := by rw [height_neg_infinity]
  exact eq_of_unpack ((infinite_of_tier.2 bottom).trans (infinite_of_tier.2 same).symm)

theorem eq_infinity_of_le {x : Float} (above : infinity ≤ x) : x = infinity := by
  have order := ((number_le_iff _ _).mp above).2.2
  have bound := height_le_infinity x
  rw [height_infinity] at order
  simp only [Height.Le] at order bound
  exact eq_infinity_of_tier (by omega)

theorem eq_neg_infinity_of_le {x : Float} (below : x ≤ -infinity) : x = -infinity := by
  have order := ((number_le_iff _ _).mp below).2.2
  have bound := neg_infinity_height_le x
  rw [height_neg_infinity] at order
  simp only [Height.Le] at order bound
  exact eq_neg_infinity_of_tier (by omega)

theorem eq_infinity_of_infinite {x : Float} (number : x.isNaN = false)
    (infinite : x.isFinite = false) : x = infinity ∨ x = -infinity := by
  have outside : ¬ (-2 < (height x).tier ∧ (height x).tier < 2) := by
    intro inside
    simp [(finite_iff_tier x).mpr ⟨number, inside⟩] at infinite
  have above := height_le_infinity x
  have below := neg_infinity_height_le x
  simp only [Height.Le] at above below
  by_cases low : -2 < (height x).tier
  · exact Or.inl (eq_infinity_of_tier (by omega))
  · exact Or.inr (eq_neg_infinity_of_tier (by omega))

end Narrowing
