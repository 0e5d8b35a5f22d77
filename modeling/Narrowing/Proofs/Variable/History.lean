import Narrowing.Variable
import Narrowing.Proofs.Interval.Overlap

/-!
Variables under any history of proposals. A refused proposal leaves a variable as it was. An
accepted one narrows it exactly when it is an interval, or a number that the variable did not
already rule out: a number from outside the known range is taken all the same.
-/
namespace Narrowing

namespace Value

theorem scalar_contains_iff (x y : Float) :
    (Value.scalar x).bounds.Contains y ↔ (x == y) = true :=
  (number_beq_iff x y).symm

theorem Storable.contains_lo {value : Value} (storable : value.Storable) :
    value.bounds.Contains value.bounds.lo := by
  cases value with
  | scalar x => exact (scalar_contains_iff x x).mpr (number_beq_refl (number_of_finite storable))
  | interval range => exact range.contains_lo

theorem precision_finite_iff (value : Value) :
    value.precision = .finite ↔ ∃ x, value = .scalar x := by
  cases value with
  | scalar x => simp [precision]
  | interval range =>
    have notFinite : (Value.interval range).precision ≠ .finite := by
      simp only [precision]
      split <;> simp
    simp [notFinite]

end Value

namespace Variable

theorem update_range {v : Variable} {current range narrowed : Interval}
    (known : v.value = .interval current) (informative : range.isUnbounded = false)
    (overlap : current.intersect? range = some narrowed) : v.update (.interval range) =
      .ok (v.withValue (.interval narrowed) trivial, narrowed != current) := by
  unfold update
  rw [known]
  simp [informative, overlap]

theorem update_scalar {v : Variable} {current : Interval} {x : Float}
    (known : v.value = .interval current) (finite : (Value.scalar x).Storable) :
    v.update (.scalar x) = .ok (v.withValue (.scalar x) finite, true) := by
  unfold update
  rw [known]
  exact dif_pos finite

theorem update_ok_cases {v w : Variable} {proposed : Value} {changed : Bool}
    (accepted : v.update proposed = .ok (w, changed)) :
    (∃ current range narrowed, v.value = .interval current ∧ proposed = .interval range ∧
      range.isUnbounded = false ∧ current.intersect? range = some narrowed ∧
      w = v.withValue (.interval narrowed) trivial ∧ changed = (narrowed != current)) ∨
    (∃ current x, ∃ finite : (Value.scalar x).Storable, v.value = .interval current ∧
      proposed = .scalar x ∧ w = v.withValue (.scalar x) finite ∧ changed = true) := by
  unfold update at accepted
  split at accepted
  · simp at accepted
  · rename_i current range known
    split at accepted
    · simp at accepted
    · rename_i informative
      split at accepted
      · simp at accepted
      · rename_i narrowed overlap
        obtain ⟨rfl, rfl⟩ := Prod.mk.inj (Except.ok.inj accepted)
        exact Or.inl ⟨current, range, narrowed, known, rfl, by simpa using informative, overlap,
          rfl, rfl⟩
  · rename_i current x known
    split at accepted
    · rename_i finite
      obtain ⟨rfl, rfl⟩ := Prod.mk.inj (Except.ok.inj accepted)
      exact Or.inr ⟨current, x, finite, known, rfl, rfl, rfl⟩
    · simp at accepted

theorem update_error_cases {v : Variable} {proposed : Value} {error : VariableError}
    (refused : v.update proposed = .error error) :
    (∃ x, v.value = .scalar x ∧ error = .alreadyFinite v.name) ∨
    (∃ range, proposed = .interval range ∧ range.isUnbounded = true ∧
      error = .unconstrained v.name) ∨
    (∃ current range, v.value = .interval current ∧ proposed = .interval range ∧
      current.intersect? range = none ∧
      error = .disjoint v.name current.toBounds range.toBounds) ∨
    (∃ x, proposed = .scalar x ∧ x.isFinite = false ∧ error = .nonFinite v.name x) := by
  unfold update at refused
  split at refused
  · rename_i x known
    exact Or.inl ⟨x, known, (Except.error.inj refused).symm⟩
  · rename_i current range known
    split at refused
    · rename_i whole
      exact Or.inr (Or.inl ⟨range, rfl, whole, (Except.error.inj refused).symm⟩)
    · split at refused
      · rename_i apart
        exact Or.inr (Or.inr (Or.inl ⟨current, range, known, rfl, apart,
          (Except.error.inj refused).symm⟩))
      · simp at refused
  · rename_i x known
    split at refused
    · simp at refused
    · rename_i infinite
      exact Or.inr (Or.inr (Or.inr ⟨x, rfl, by simpa using infinite,
        (Except.error.inj refused).symm⟩))

def offer (v : Variable) (proposed : Value) : Variable :=
  match v.update proposed with
  | .ok (narrowed, _) => narrowed
  | .error _ => v

def offerAll (v : Variable) (proposals : List Value) : Variable := proposals.foldl offer v

theorem offerAll_append (v : Variable) (before after : List Value) :
    v.offerAll (before ++ after) = (v.offerAll before).offerAll after := by
  unfold offerAll
  exact List.foldl_append

theorem offer_of_scalar {v : Variable} {x : Float} (known : v.value = .scalar x)
    (proposed : Value) : v.offer proposed = v := by
  unfold offer
  cases outcome : v.update proposed with
  | error e => rfl
  | ok result =>
    obtain ⟨w, changed⟩ := result
    rcases update_ok_cases outcome with ⟨current, _, _, ranged, _⟩ | ⟨current, _, _, ranged, _⟩
    · simp [known] at ranged
    · simp [known] at ranged

theorem offerAll_of_scalar {v : Variable} {x : Float} (known : v.value = .scalar x)
    (proposals : List Value) : v.offerAll proposals = v := by
  induction proposals with
  | nil => rfl
  | cons proposed rest ih =>
    change (v.offer proposed).offerAll rest = v
    rw [offer_of_scalar known]
    exact ih

theorem accepted_narrows_iff {v w : Variable} {proposed : Value} {changed : Bool}
    (accepted : v.update proposed = .ok (w, changed)) :
    (∀ x, w.value.bounds.Contains x → v.value.bounds.Contains x) ↔
      ∀ y, proposed = .scalar y → v.value.bounds.Contains y := by
  rcases update_ok_cases accepted with
    ⟨current, range, narrowed, known, rfl, _, overlap, rfl, _⟩ |
    ⟨current, y, finite, known, rfl, rfl, _⟩
  · rw [known]
    constructor
    · intro _ y scalar
      simp at scalar
    · intro _ x inside
      exact ((Interval.intersect_contains_iff overlap x).mp inside).1
  · rw [known]
    constructor
    · intro narrows z same
      obtain rfl := Value.scalar.inj same
      exact narrows y (Value.Storable.contains_lo finite)
    · intro possible x inside
      have equal : (y == x) = true := (Value.scalar_contains_iff y x).mp inside
      exact Bounds.contains_of_beq equal (possible y rfl)

/-- After every history, an accepted proposal narrows what is known exactly when it is not a
    number from outside it, and a variable that is finite keeps its value from then on. -/
theorem history_narrows_exactly (v : Variable) (before after : List Value) (proposed : Value) :
    (∀ w changed, (v.offerAll before).update proposed = .ok (w, changed) →
      ((∀ x, w.value.bounds.Contains x → (v.offerAll before).value.bounds.Contains x) ↔
        ∀ y, proposed = .scalar y → (v.offerAll before).value.bounds.Contains y)) ∧
    ((v.offerAll before).precision = .finite →
      (v.offerAll (before ++ after)).value = (v.offerAll before).value) := by
  refine ⟨fun w changed accepted => accepted_narrows_iff accepted, ?_⟩
  intro finite
  obtain ⟨x, known⟩ := (Value.precision_finite_iff _).mp finite
  rw [offerAll_append, offerAll_of_scalar known]

def ranged : Variable :=
  (Variable.new "length" .given "m").offerAll [.interval ⟨⟨1.0, 2.0⟩, by decide +kernel⟩]

theorem history_narrows_exactly_inside :
    (∃ w, (ranged.offerAll []).update (.scalar 1.5) = .ok (w, true) ∧
      ∀ x, w.value.bounds.Contains x → ranged.value.bounds.Contains x) ∧
    (ranged.offerAll ([.scalar 1.5] ++ [.scalar 1.75])).value = .scalar 1.5 := by
  constructor
  · refine ⟨_, rfl, ((history_narrows_exactly ranged [] [] (.scalar 1.5)).1 _ _ rfl).mpr ?_⟩
    intro y same
    obtain rfl := Value.scalar.inj same
    decide +kernel
  · have final := history_narrows_exactly ranged [.scalar 1.5] [.scalar 1.75] (.scalar 1.75)
    rw [final.2 rfl]
    rfl

theorem number_from_outside_taken :
    ∃ w, ranged.update (.scalar 5.0) = .ok (w, true) ∧
      ¬ ∀ x, w.value.bounds.Contains x → ranged.value.bounds.Contains x := by
  refine ⟨_, rfl, ?_⟩
  intro narrows
  have inside := narrows 5.0 (by decide +kernel)
  exact absurd inside (by decide +kernel)

end Variable

end Narrowing
