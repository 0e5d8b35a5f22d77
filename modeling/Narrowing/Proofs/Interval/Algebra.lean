import Narrowing.Proofs.Interval.Overlap

/-!
The algebra of overlaps. What two intervals share is known by the numbers it holds, which are those
that both hold. So overlapping behaves as intersection of sets does: idempotent, commutative and
associative, with the whole line as its identity and nothing at all absorbing every interval. All
this is up to equality as numbers, as an end at zero may come with either sign.
-/
namespace Narrowing.Interval

def Holds (a : Option Interval) (x : Float) : Prop := ∃ range, a = some range ∧ range.Contains x

/-- The overlap of two intervals, where either may be missing already. -/
def overlap (a b : Option Interval) : Option Interval :=
  a.bind fun left => b.bind fun right => left.intersect? right

@[simp] theorem holds_none (x : Float) : ¬ Holds none x := by
  rintro ⟨range, missing, _⟩
  cases missing

@[simp] theorem holds_some (a : Interval) (x : Float) : Holds (some a) x ↔ a.Contains x := by
  constructor
  · rintro ⟨range, same, inside⟩
    obtain rfl := Option.some.inj same
    exact inside
  · intro inside
    exact ⟨a, rfl, inside⟩

theorem number_of_holds {a : Option Interval} {x : Float} (held : Holds a x) : x.isNaN = false := by
  obtain ⟨range, _, inside⟩ := held
  exact Bounds.number_of_contains inside

theorem holds_intersect (a b : Interval) (x : Float) :
    Holds (a.intersect? b) x ↔ a.Contains x ∧ b.Contains x := by
  cases shared : a.intersect? b with
  | none =>
    have apart := (intersect_eq_none_iff a b).mp shared x
    exact iff_of_false (holds_none x) apart
  | some c => exact (holds_some c x).trans (intersect_contains_iff shared x)

theorem holds_overlap (a b : Option Interval) (x : Float) :
    Holds (overlap a b) x ↔ Holds a x ∧ Holds b x := by
  cases a with
  | none => simp [overlap]
  | some left =>
    cases b with
    | none => simp [overlap]
    | some right =>
      rw [holds_some, holds_some]
      exact holds_intersect left right x

theorem optional_beq_iff (a b : Option Interval) :
    (a == b) = true ↔ ∀ x, Holds a x ↔ Holds b x := by
  cases a with
  | none =>
    cases b with
    | none => simp
    | some right =>
      -- An interval holds its own ends, so it is never alike to none.
      have held : Holds (some right) right.lo := (holds_some _ _).mpr right.contains_lo
      refine iff_of_false (by simp) fun same => ?_
      exact holds_none _ ((same right.lo).mpr held)
  | some left =>
    cases b with
    | none =>
      have held : Holds (some left) left.lo := (holds_some _ _).mpr left.contains_lo
      refine iff_of_false (by simp) fun same => ?_
      exact holds_none _ ((same left.lo).mp held)
    | some right =>
      rw [Option.some_beq_some, beq_iff]
      exact forall_congr' fun x => iff_congr (holds_some left x).symm (holds_some right x).symm

theorem intersect_eq_ofEnds (a b : Interval) :
    a.intersect? b = (ofEnds (max a.lo b.lo) (min a.hi b.hi)).toOption := by
  have lower : (max a.lo b.lo).isNaN = false := by
    rcases max_number_chooses a.lo b.lo with same | same
    · rw [same]
      exact a.lo_number
    · rw [same]
      exact b.lo_number
  have upper : (min a.hi b.hi).isNaN = false := by
    rcases min_number_chooses a.hi b.hi with same | same
    · rw [same]
      exact a.hi_number
    · rw [same]
      exact b.hi_number
  unfold intersect? ofEnds
  simp only [lower, upper, Bool.or_self, Bool.false_eq_true, ↓reduceIte]
  split
  · rfl
  · rfl

theorem intersect_beq_left_iff {a b c : Interval} (shared : a.intersect? b = some c) :
    (c == a) = true ↔ ∀ x, a.Contains x → b.Contains x := by
  have holds := intersect_contains_iff shared
  rw [beq_iff]
  constructor
  · intro same x inside
    exact ((holds x).mp ((same x).mpr inside)).2
  · intro within x
    exact (holds x).trans (and_iff_left_of_imp (within x))

structure Shared (a b : Interval) (shared : Option Interval) : Prop where
  checked : shared = (ofEnds (max a.lo b.lo) (min a.hi b.hi)).toOption
  none_iff : shared = none ↔ ¬ ∃ x : Float, x.isNaN = false ∧ a.Contains x ∧ b.Contains x
  valid : ∀ c, shared = some c → ofEnds c.lo c.hi = .ok c
  holds : ∀ c, shared = some c → ∀ x, c.Contains x ↔ a.Contains x ∧ b.Contains x
  left_iff : ∀ c, shared = some c → ((c == a) = true ↔ ∀ x, a.Contains x → b.Contains x)

theorem intersect_shared (a b : Interval) : Shared a b (a.intersect? b) where
  checked := intersect_eq_ofEnds a b
  none_iff := by
    rw [intersect_eq_none_iff, not_exists]
    refine forall_congr' fun x => not_congr ⟨fun inside => ?_, And.right⟩
    exact ⟨Bounds.number_of_contains inside.1, inside⟩
  valid := fun c _ => c.ofEnds_self
  holds := fun _ => intersect_contains_iff
  left_iff := fun _ => intersect_beq_left_iff

structure Intersection (meet : Option Interval → Option Interval → Option Interval) : Prop where
  idempotent : ∀ a, (meet a a == a) = true
  commutative : ∀ a b, (meet a b == meet b a) = true
  associative : ∀ a b c, (meet (meet a b) c == meet a (meet b c)) = true
  whole : ∀ a, (meet (some .unbounded) a == a) = true ∧ (meet a (some .unbounded) == a) = true
  nothing : ∀ a, meet none a = none ∧ meet a none = none

theorem holds_unbounded {a : Option Interval} {x : Float} (held : Holds a x) :
    Holds (some unbounded) x :=
  (holds_some _ _).mpr (contains_of_unbounded unbounded_isUnbounded (number_of_holds held))

theorem overlap_intersection : Intersection overlap where
  idempotent a := by
    simp only [optional_beq_iff, holds_overlap, and_self, implies_true]
  commutative a b := by
    simp only [optional_beq_iff, holds_overlap, and_comm, implies_true]
  associative a b c := by
    simp only [optional_beq_iff, holds_overlap, and_assoc, implies_true]
  whole a := by
    simp only [optional_beq_iff, holds_overlap]
    exact ⟨fun x => and_iff_right_of_imp holds_unbounded,
      fun x => and_iff_left_of_imp holds_unbounded⟩
  nothing a := by
    refine ⟨rfl, ?_⟩
    cases a with
    | none => rfl
    | some range => rfl

/-- Intersecting intervals is intersecting the sets of numbers that they hold. -/
theorem intersect_exact :
    (∀ a b : Interval, Shared a b (a.intersect? b)) ∧
    (∀ a b : Interval, overlap (some a) (some b) = a.intersect? b) ∧ Intersection overlap :=
  ⟨intersect_shared, fun _ _ => rfl, overlap_intersection⟩

/-- The sign of a zero end depends on the order, so the two overlaps are equal as numbers only. -/
example :
    let below : Interval := ⟨⟨-0.0, 11.0⟩, by decide +kernel⟩
    let above : Interval := ⟨⟨0.0, 13.0⟩, by decide +kernel⟩
    below.intersect? above ≠ above.intersect? below ∧
      (below.intersect? above == above.intersect? below) = true := by decide +kernel

end Narrowing.Interval
