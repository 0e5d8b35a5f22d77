import Mathlib
import Narrowing.Number.Magnitude

/-!
The order of doubles. Each double has a height, three integers compared from left to right, and
`≤` holds exactly between numbers whose heights are in order. So `≤` is a total preorder on the
numbers, two numbers below each other are equal as numbers (they may be the two zeros), and a NaN
is above and below nothing.
-/
namespace Narrowing
open Float.Model Float.Model.UnpackedFloat

structure Height where
  tier : Int
  exponent : Int
  mantissa : Int
  deriving DecidableEq

namespace Height

def Le (a b : Height) : Prop :=
  a.tier < b.tier ∨ a.tier = b.tier ∧
    (a.exponent < b.exponent ∨ a.exponent = b.exponent ∧ a.mantissa ≤ b.mantissa)

/- Infinities and zeros are alone on their tiers. Among negative numbers a greater magnitude is
   lower, so both parts are negated. A NaN has a height too, which is never looked at. -/
def ofUnpacked : UnpackedFloat → Height
  | .infinity .negative => ⟨-2, 0, 0⟩
  | .finite .negative m e _ => ⟨-1, -e, -m⟩
  | .notANumber => ⟨0, 0, 0⟩
  | .zero _ => ⟨0, 0, 0⟩
  | .finite .positive m e _ => ⟨1, e, m⟩
  | .infinity .positive => ⟨2, 0, 0⟩

theorem le_total (a b : Height) : a.Le b ∨ b.Le a := by
  unfold Le
  omega

theorem le_antisymm {a b : Height} (ab : a.Le b) (ba : b.Le a) : a = b := by
  rcases a with ⟨i, e, m⟩
  rcases b with ⟨j, f, n⟩
  simp only [Le, mk.injEq] at *
  omega

theorem le_trans {a b c : Height} (ab : a.Le b) (bc : b.Le c) : a.Le c := by
  unfold Le at *
  omega

end Height

def height (x : Float) : Height := Height.ofUnpacked x.toModel.unpack

theorem compare_then_isLE (e f : Int) (m n : Nat) :
    ((compare e f).then (compare m n)).isLE = true ↔ e < f ∨ e = f ∧ m ≤ n := by
  rcases Int.lt_trichotomy e f with below | same | above
  · simp [Int.compare_eq_lt.mpr below, below]
  · simp [same, Std.compare_self, Nat.isLE_compare]
  · have notBelow : ¬ e < f := by omega
    have distinct : e ≠ f := by omega
    simp [Int.compare_eq_gt.mpr above, notBelow, distinct]

theorem compare_then_isGE (e f : Int) (m n : Nat) :
    ((compare e f).then (compare m n)).isGE = true ↔ f < e ∨ e = f ∧ n ≤ m := by
  rcases Int.lt_trichotomy e f with below | same | above
  · have notAbove : ¬ f < e := by omega
    have distinct : e ≠ f := by omega
    simp [Int.compare_eq_lt.mpr below, notAbove, distinct]
  · simp [same, Std.compare_self, Nat.isGE_compare]
  · simp [Int.compare_eq_gt.mpr above, above]

/-- The comparison of unpacked doubles is the order of heights. -/
theorem unpacked_le_iff (a b : UnpackedFloat) :
    a.le b = true ↔ a.isNaN = false ∧ b.isNaN = false ∧
      (Height.ofUnpacked a).Le (Height.ofUnpacked b) := by
  cases a with
  | notANumber => simp [UnpackedFloat.le, UnpackedFloat.compare, UnpackedFloat.isNaN]
  | infinity s =>
    cases s <;> rcases b with t | _ | t | ⟨t, n, f, hn⟩ <;> (try cases t) <;>
      simp [UnpackedFloat.le, UnpackedFloat.compare, UnpackedFloat.isNaN, Height.ofUnpacked,
        Height.Le, compare]
  | zero s =>
    rcases b with t | _ | t | ⟨t, n, f, hn⟩ <;> (try cases t) <;>
      simp [UnpackedFloat.le, UnpackedFloat.compare, UnpackedFloat.isNaN, Height.ofUnpacked,
        Height.Le]
  | finite s m e hm =>
    cases s <;> rcases b with t | _ | t | ⟨t, n, f, hn⟩ <;> (try cases t) <;>
      simp [UnpackedFloat.le, UnpackedFloat.compare, UnpackedFloat.isNaN, Height.ofUnpacked,
        Height.Le, compare_then_isLE, compare_then_isGE]

theorem unpacked_beq_iff (a b : UnpackedFloat) :
    a.beq b = true ↔ a.isNaN = false ∧ b.isNaN = false ∧
      Height.ofUnpacked a = Height.ofUnpacked b := by
  cases a with
  | notANumber => simp [UnpackedFloat.beq, UnpackedFloat.compare, UnpackedFloat.isNaN]
  | infinity s =>
    cases s <;> rcases b with t | _ | t | ⟨t, n, f, hn⟩ <;> (try cases t) <;>
      simp [UnpackedFloat.beq, UnpackedFloat.compare, UnpackedFloat.isNaN, Height.ofUnpacked,
        compare]
  | zero s =>
    rcases b with t | _ | t | ⟨t, n, f, hn⟩ <;> (try cases t) <;>
      simp [UnpackedFloat.beq, UnpackedFloat.compare, UnpackedFloat.isNaN, Height.ofUnpacked]
  | finite s m e hm =>
    cases s <;> rcases b with t | _ | t | ⟨t, n, f, hn⟩ <;> (try cases t) <;>
      simp [UnpackedFloat.beq, UnpackedFloat.compare, UnpackedFloat.isNaN, Height.ofUnpacked,
        Ordering.then_eq_eq]

theorem number_le_iff (x y : Float) :
    x ≤ y ↔ x.isNaN = false ∧ y.isNaN = false ∧ (height x).Le (height y) := by
  change decide (x.toModel ≤ y.toModel) = true ↔ _
  rw [decide_eq_true_iff]
  exact unpacked_le_iff _ _

theorem number_le_trans {x y z : Float} (xy : x ≤ y) (yz : y ≤ z) : x ≤ z := by
  rw [number_le_iff] at *
  exact ⟨xy.1, yz.2.1, Height.le_trans xy.2.2 yz.2.2⟩

theorem number_le_total {x y : Float} (hx : x.isNaN = false) (hy : y.isNaN = false) :
    x ≤ y ∨ y ≤ x := by
  rw [number_le_iff, number_le_iff]
  rcases Height.le_total (height x) (height y) with below | above
  · exact Or.inl ⟨hx, hy, below⟩
  · exact Or.inr ⟨hy, hx, above⟩

theorem number_le_refl {x : Float} (hx : x.isNaN = false) : x ≤ x := by
  rcases number_le_total hx hx with h | h <;> exact h

theorem number_of_le_left {x y : Float} (h : x ≤ y) : x.isNaN = false :=
  ((number_le_iff x y).mp h).1

theorem number_of_le_right {x y : Float} (h : x ≤ y) : y.isNaN = false :=
  ((number_le_iff x y).mp h).2.1

theorem number_beq_iff (x y : Float) : (x == y) = true ↔ x ≤ y ∧ y ≤ x := by
  rw [number_le_iff, number_le_iff]
  refine (unpacked_beq_iff x.toModel.unpack y.toModel.unpack).trans ?_
  change x.isNaN = false ∧ y.isNaN = false ∧ height x = height y ↔ _
  constructor
  · rintro ⟨hx, hy, same⟩
    rcases Height.le_total (height x) (height x) with h | h <;>
      exact ⟨⟨hx, hy, same ▸ h⟩, ⟨hy, hx, same ▸ h⟩⟩
  · rintro ⟨⟨hx, hy, below⟩, _, _, above⟩
    exact ⟨hx, hy, Height.le_antisymm below above⟩

theorem number_beq_comm (x y : Float) : (x == y) = (y == x) := by
  rw [Bool.eq_iff_iff, number_beq_iff, number_beq_iff]
  exact And.comm

theorem number_beq_refl {x : Float} (hx : x.isNaN = false) : (x == x) = true :=
  (number_beq_iff x x).mpr ⟨number_le_refl hx, number_le_refl hx⟩

theorem number_beq_trans {x y z : Float} (xy : (x == y) = true) (yz : (y == z) = true) :
    (x == z) = true := by
  rw [number_beq_iff] at *
  exact ⟨number_le_trans xy.1 yz.1, number_le_trans yz.2 xy.2⟩

theorem number_beq_congr {x y : Float} (same : (x == y) = true) (z : Float) :
    (x == z) = (y == z) := by
  rw [Bool.eq_iff_iff]
  constructor
  · intro xz
    rw [number_beq_comm] at same
    exact number_beq_trans same xz
  · intro yz
    exact number_beq_trans same yz

theorem min_number_eq (x y : Float) : min x y = if x ≤ y then x else y := rfl

theorem max_number_eq (x y : Float) : max x y = if x ≤ y then y else x := rfl

theorem min_number_chooses (x y : Float) : min x y = x ∨ min x y = y := by
  rw [min_number_eq]
  split
  · exact Or.inl rfl
  · exact Or.inr rfl

theorem max_number_chooses (x y : Float) : max x y = x ∨ max x y = y := by
  rw [max_number_eq]
  split
  · exact Or.inr rfl
  · exact Or.inl rfl

theorem le_min_number_iff {x y z : Float} (hx : x.isNaN = false) (hy : y.isNaN = false) :
    z ≤ min x y ↔ z ≤ x ∧ z ≤ y := by
  rw [min_number_eq]
  split
  · rename_i below
    exact ⟨fun h => ⟨h, number_le_trans h below⟩, And.left⟩
  · rename_i notBelow
    have above : y ≤ x := (number_le_total hx hy).resolve_left notBelow
    exact ⟨fun h => ⟨number_le_trans h above, h⟩, And.right⟩

theorem max_number_le_iff {x y z : Float} (hx : x.isNaN = false) (hy : y.isNaN = false) :
    max x y ≤ z ↔ x ≤ z ∧ y ≤ z := by
  rw [max_number_eq]
  split
  · rename_i below
    exact ⟨fun h => ⟨number_le_trans below h, h⟩, And.right⟩
  · rename_i notBelow
    have above : y ≤ x := (number_le_total hx hy).resolve_left notBelow
    exact ⟨fun h => ⟨h, number_le_trans above h⟩, And.left⟩

theorem max_number_le_max {w x y z : Float} (left : w ≤ y) (right : x ≤ z) :
    max w x ≤ max y z := by
  have upper : max y z ≤ max y z := by
    refine number_le_refl ?_
    rcases max_number_chooses y z with same | same
    · rw [same]
      exact number_of_le_right left
    · rw [same]
      exact number_of_le_right right
  obtain ⟨atLeast, atLeast'⟩ :=
    (max_number_le_iff (number_of_le_right left) (number_of_le_right right)).mp upper
  exact (max_number_le_iff (number_of_le_left left) (number_of_le_left right)).mpr
    ⟨number_le_trans left atLeast, number_le_trans right atLeast'⟩

theorem height_infinity : height infinity = ⟨2, 0, 0⟩ := by decide +kernel

theorem height_neg_infinity : height (-infinity) = ⟨-2, 0, 0⟩ := by decide +kernel

theorem finite_iff_tier (x : Float) :
    x.isFinite = true ↔ x.isNaN = false ∧ -2 < (height x).tier ∧ (height x).tier < 2 := by
  change x.toModel.unpack.isFinite = true ↔ x.toModel.unpack.isNaN = false ∧ _
  unfold height
  rcases x.toModel.unpack with s | _ | s | ⟨s, m, e, hm⟩ <;> (try cases s) <;>
    simp [UnpackedFloat.isFinite, UnpackedFloat.isNaN, Height.ofUnpacked]

theorem height_le_infinity (x : Float) : (height x).Le ⟨2, 0, 0⟩ := by
  unfold height
  rcases x.toModel.unpack with s | _ | s | ⟨s, m, e, hm⟩ <;> (try cases s) <;>
    simp [Height.ofUnpacked, Height.Le]

theorem neg_infinity_height_le (x : Float) : Height.Le ⟨-2, 0, 0⟩ (height x) := by
  unfold height
  rcases x.toModel.unpack with s | _ | s | ⟨s, m, e, hm⟩ <;> (try cases s) <;>
    simp [Height.ofUnpacked, Height.Le]

theorem number_le_infinity {x : Float} (hx : x.isNaN = false) : x ≤ infinity := by
  rw [number_le_iff, height_infinity]
  exact ⟨hx, by decide +kernel, height_le_infinity x⟩

theorem neg_infinity_le_number {x : Float} (hx : x.isNaN = false) : -infinity ≤ x := by
  rw [number_le_iff, height_neg_infinity]
  exact ⟨by decide +kernel, hx, neg_infinity_height_le x⟩

theorem number_of_finite {x : Float} (finite : x.isFinite = true) : x.isNaN = false :=
  ((finite_iff_tier x).mp finite).1

theorem finite_of_between {x y z : Float} (hx : x.isFinite = true) (hz : z.isFinite = true)
    (xy : x ≤ y) (yz : y ≤ z) : y.isFinite = true := by
  rw [finite_iff_tier] at *
  have below := ((number_le_iff x y).mp xy).2.2
  have above := ((number_le_iff y z).mp yz).2.2
  unfold Height.Le at below above
  exact ⟨number_of_le_right xy, by omega, by omega⟩

theorem finite_of_beq {x y : Float} (same : (x == y) = true) (finite : x.isFinite = true) :
    y.isFinite = true := by
  obtain ⟨below, above⟩ := (number_beq_iff x y).mp same
  exact finite_of_between finite finite below above

end Narrowing
