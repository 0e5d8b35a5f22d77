import Narrowing.Proofs.Variable.Meeting

/-!
The room a value leaves: how many numbers an interval holds, numbers that compare as equal being
counted once, and none for an exact number. A meeting never adds room, and one that changes the
variable takes some of it away. Since doubles are finitely many, there is only so much of it.
-/
namespace Narrowing

def equalNumbers : Setoid { x : Float // x.isNaN = false } where
  r x y := (x.val == y.val) = true
  iseqv :=
    { refl := fun x => number_beq_refl x.property
      symm := fun {x y} same => (number_beq_comm y.val x.val).trans same
      trans := number_beq_trans }

/-- A number, NaN not being one. The two zeros are the same number. -/
def DistinctNumber : Type := Quotient equalNumbers

def DistinctNumber.of (x : Float) (number : x.isNaN = false) : DistinctNumber :=
  Quotient.mk equalNumbers ⟨x, number⟩

theorem float_finite : Finite Float := by
  apply Finite.of_injective Float.toBits
  rintro ⟨⟨a, validA⟩⟩ ⟨⟨b, validB⟩⟩ same
  obtain rfl : a = b := same
  rfl

instance : Finite DistinctNumber :=
  have := float_finite
  inferInstanceAs (Finite (Quotient equalNumbers))

noncomputable def numberCount : Nat := Nat.card DistinctNumber

theorem numberCount_pos : 0 < numberCount := by
  have : Nonempty DistinctNumber := ⟨.of 0.0 (by decide +kernel)⟩
  exact Nat.card_pos

namespace Interval

def numbers (a : Interval) : Set DistinctNumber :=
  { n | ∃ x number, n = .of x number ∧ a.Contains x }

theorem mem_numbers_iff (a : Interval) {x : Float} (number : x.isNaN = false) :
    DistinctNumber.of x number ∈ a.numbers ↔ a.Contains x := by
  constructor
  · rintro ⟨y, numberY, same, inside⟩
    have equal : (y == x) = true := Quotient.exact same.symm
    exact Bounds.contains_of_beq equal inside
  · intro inside
    exact ⟨x, number, rfl, inside⟩

theorem numbers_subset_iff (a b : Interval) :
    a.numbers ⊆ b.numbers ↔ ∀ x, a.Contains x → b.Contains x := by
  constructor
  · intro subset x inside
    have number := Bounds.number_of_contains inside
    exact (b.mem_numbers_iff number).mp (subset ((a.mem_numbers_iff number).mpr inside))
  · rintro within _ ⟨x, number, rfl, inside⟩
    exact (b.mem_numbers_iff number).mpr (within x inside)

theorem numbers_nonempty (a : Interval) : a.numbers.Nonempty :=
  ⟨_, (a.mem_numbers_iff a.lo_number).mpr a.contains_lo⟩

theorem numbers_ssubset {a b c : Interval} (overlap : a.intersect? b = some c)
    (moved : (c == a) = false) : c.numbers ⊂ a.numbers := by
  have inside := intersect_contains_iff overlap
  refine ⟨(numbers_subset_iff c a).mpr fun x held => ((inside x).mp held).1, ?_⟩
  intro back
  have same : (c == a) = true := beq_of_contains_iff fun x =>
    ⟨fun held => ((inside x).mp held).1, (numbers_subset_iff a c).mp back x⟩
  simp [same] at moved

end Interval

noncomputable def Value.room : Value → Nat
  | .scalar _ => 0
  | .interval range => range.numbers.ncard

theorem Value.room_le (value : Value) : value.room ≤ numberCount := by
  cases value with
  | scalar x => exact Nat.zero_le _
  | interval range =>
    calc range.numbers.ncard ≤ (Set.univ : Set DistinctNumber).ncard :=
          Set.ncard_le_ncard (Set.subset_univ _) (Set.toFinite _)
      _ = numberCount := Set.ncard_univ DistinctNumber

namespace Variable

theorem meet_room {v w : Variable} {proposed : Value} {changed : Bool}
    (met : v.meet proposed = .ok (w, changed)) :
    w.value.room + changed.toNat ≤ v.value.room := by
  cases known : v.value with
  | scalar x =>
    obtain ⟨_, rfl, rfl⟩ := meet_scalar_ok known met
    simp [known, Value.room]
  | interval current =>
    rw [meet_of_interval known] at met
    rcases update_ok_cases met with
      ⟨now, range, narrowed, held, _, _, overlap, rfl, rfl⟩ | ⟨_, x, finite, _, _, rfl, rfl⟩
    · obtain rfl := Value.interval.inj (known.symm.trans held)
      change narrowed.numbers.ncard + (narrowed != current).toNat ≤ current.numbers.ncard
      cases moved : narrowed == current with
      | false =>
        have less := Set.ncard_lt_ncard (Interval.numbers_ssubset overlap moved) (Set.toFinite _)
        simpa [bne, moved] using less
      | true =>
        have subset := (Interval.numbers_subset_iff narrowed current).mpr fun y inside =>
          ((Interval.intersect_contains_iff overlap y).mp inside).1
        simpa [bne, moved] using Set.ncard_le_ncard subset (Set.toFinite _)
    · change 0 + 1 ≤ current.numbers.ncard
      have some := (Set.ncard_pos (Set.toFinite _)).mpr current.numbers_nonempty
      omega

end Variable

end Narrowing
