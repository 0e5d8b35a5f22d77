import Narrowing.Interval
import Narrowing.Proofs.Number.Order

/-!
Intervals as sets of numbers. The overlap of two intervals holds exactly the numbers that both
hold, there is no overlap exactly when they share no number, and intervals that hold the same
numbers are equal as intervals.
-/
namespace Narrowing

namespace Bounds

theorem number_of_contains {b : Bounds} {x : Float} (inside : b.Contains x) : x.isNaN = false :=
  number_of_le_right inside.1

theorem contains_of_beq {b : Bounds} {x y : Float} (same : (x == y) = true)
    (inside : b.Contains x) : b.Contains y := by
  obtain ⟨below, above⟩ := (number_beq_iff x y).mp same
  exact ⟨number_le_trans inside.1 below, number_le_trans above inside.2⟩

end Bounds

namespace Interval

theorem lo_number (a : Interval) : a.lo.isNaN = false := number_of_le_left a.lo_le_hi

theorem hi_number (a : Interval) : a.hi.isNaN = false := number_of_le_right a.lo_le_hi

theorem contains_lo (a : Interval) : a.Contains a.lo := ⟨number_le_refl a.lo_number, a.lo_le_hi⟩

theorem contains_hi (a : Interval) : a.Contains a.hi := ⟨a.lo_le_hi, number_le_refl a.hi_number⟩

theorem ofEnds_self (range : Interval) : ofEnds range.lo range.hi = .ok range := by
  unfold ofEnds
  simp only [range.lo_number, range.hi_number, range.lo_le_hi, Bool.or_self, Bool.false_eq_true,
    ↓reduceIte, ↓reduceDIte]

theorem ofEnds_ok_iff (lo hi : Float) (range : Interval) :
    ofEnds lo hi = .ok range ↔ range.lo = lo ∧ range.hi = hi := by
  constructor
  · intro made
    unfold ofEnds at made
    split at made
    · cases made
    · split at made
      · cases made
        exact ⟨rfl, rfl⟩
      · cases made
  · rintro ⟨rfl, rfl⟩
    exact range.ofEnds_self

theorem intersect_contains_iff {a b c : Interval} (overlap : a.intersect? b = some c) (x : Float) :
    c.Contains x ↔ a.Contains x ∧ b.Contains x := by
  unfold intersect? at overlap
  split at overlap
  · obtain rfl := Option.some.inj overlap
    simp only [Bounds.Contains, max_number_le_iff a.lo_number b.lo_number,
      le_min_number_iff a.hi_number b.hi_number]
    exact and_and_and_comm
  · simp at overlap

theorem intersect_eq_none_iff (a b : Interval) :
    a.intersect? b = none ↔ ∀ x, ¬ (a.Contains x ∧ b.Contains x) := by
  constructor
  · intro apart x ⟨inA, inB⟩
    unfold intersect? at apart
    split at apart
    · simp at apart
    · rename_i inverted
      -- A shared number lies above both lower ends and below both upper ends.
      have above : max a.lo b.lo ≤ x :=
        (max_number_le_iff a.lo_number b.lo_number).mpr ⟨inA.1, inB.1⟩
      have below : x ≤ min a.hi b.hi :=
        (le_min_number_iff a.hi_number b.hi_number).mpr ⟨inA.2, inB.2⟩
      exact inverted (number_le_trans above below)
  · intro nothing
    cases overlap : a.intersect? b with
    | none => rfl
    | some c =>
      exact absurd ((intersect_contains_iff overlap c.lo).mp c.contains_lo) (nothing c.lo)

theorem intersect_isSome_iff (a b : Interval) :
    (∃ c, a.intersect? b = some c) ↔ ∃ x, a.Contains x ∧ b.Contains x := by
  constructor
  · rintro ⟨c, overlap⟩
    exact ⟨c.lo, (intersect_contains_iff overlap c.lo).mp c.contains_lo⟩
  · rintro ⟨x, shared⟩
    cases overlap : a.intersect? b with
    | some c => exact ⟨c, rfl⟩
    | none => exact absurd shared ((intersect_eq_none_iff a b).mp overlap x)

/-- An interval is known by what it holds. -/
theorem beq_of_contains_iff {a b : Interval} (same : ∀ x, a.Contains x ↔ b.Contains x) :
    (a == b) = true := by
  have loA := (same a.lo).mp a.contains_lo
  have hiA := (same a.hi).mp a.contains_hi
  have loB := (same b.lo).mpr b.contains_lo
  have hiB := (same b.hi).mpr b.contains_hi
  change (a.lo == b.lo && a.hi == b.hi) = true
  rw [Bool.and_eq_true, number_beq_iff, number_beq_iff]
  exact ⟨⟨loB.1, loA.1⟩, ⟨hiA.2, hiB.2⟩⟩

theorem beq_iff (a b : Interval) : (a == b) = true ↔ ∀ x, a.Contains x ↔ b.Contains x := by
  constructor
  · intro same x
    have ends : (a.lo == b.lo) = true ∧ (a.hi == b.hi) = true := Bool.and_eq_true_iff.mp same
    obtain ⟨lo, lo'⟩ := (number_beq_iff _ _).mp ends.1
    obtain ⟨hi, hi'⟩ := (number_beq_iff _ _).mp ends.2
    constructor
    · intro inside
      exact ⟨number_le_trans lo' inside.1, number_le_trans inside.2 hi⟩
    · intro inside
      exact ⟨number_le_trans lo inside.1, number_le_trans inside.2 hi'⟩
  · exact beq_of_contains_iff

theorem beq_comm (a b : Interval) : (a == b) = (b == a) := by
  rw [Bool.eq_iff_iff, beq_iff, beq_iff]
  exact forall_congr' fun _ => Iff.comm

theorem unbounded_isUnbounded : unbounded.isUnbounded = true := by decide +kernel

theorem contains_of_unbounded {a : Interval} (whole : a.isUnbounded = true) {x : Float}
    (hx : x.isNaN = false) : a.Contains x := by
  obtain ⟨lo, hi⟩ := Bool.and_eq_true_iff.mp whole
  exact ⟨number_le_trans ((number_beq_iff _ _).mp lo).1 (neg_infinity_le_number hx),
    number_le_trans (number_le_infinity hx) ((number_beq_iff _ _).mp hi).2⟩

theorem isUnbounded_of_inside {a b : Interval} (inside : ∀ x, b.Contains x → a.Contains x)
    (whole : b.isUnbounded = true) : a.isUnbounded = true := by
  have lower := inside _ (contains_of_unbounded whole (x := -infinity) (by decide +kernel))
  have upper := inside _ (contains_of_unbounded whole (x := infinity) (by decide +kernel))
  refine Bool.and_eq_true_iff.mpr ⟨?_, ?_⟩
  · exact (number_beq_iff _ _).mpr ⟨lower.1, neg_infinity_le_number a.lo_number⟩
  · exact (number_beq_iff _ _).mpr ⟨number_le_infinity a.hi_number, upper.2⟩

end Interval

end Narrowing
