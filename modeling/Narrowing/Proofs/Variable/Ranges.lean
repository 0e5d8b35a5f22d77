import Narrowing.Proofs.Variable.Succession

/-!
Ranges proposed to a variable, one after the other. Each is refused exactly when it says nothing
or shares no number with what is known, and otherwise what is known is intersected with it. So a
history of ranges leaves the numbers that all accepted ones allow, whatever the order they came in.
-/
namespace Narrowing

namespace Variable

theorem interval_of_not_finite {v : Variable} (notFinite : v.precision ≠ .finite) :
    ∃ current, v.value = .interval current := by
  cases value : v.value with
  | scalar x => exact absurd (by rw [precision, value]; rfl) notFinite
  | interval current => exact ⟨current, rfl⟩

theorem update_whole_iff {v : Variable} {current : Interval} (known : v.value = .interval current)
    (range : Interval) :
    v.update (.interval range) = .error (.unconstrained v.name) ↔ range.isUnbounded = true := by
  unfold update
  rw [known]
  cases whole : range.isUnbounded with
  | true => simp [whole]
  | false => cases overlap : current.intersect? range <;> simp [whole, overlap]

theorem update_apart_iff {v : Variable} {current : Interval} (known : v.value = .interval current)
    (range : Interval) :
    v.update (.interval range) = .error (.disjoint v.name current.toBounds range.toBounds) ↔
      ∀ x, ¬ (current.Contains x ∧ range.Contains x) := by
  rw [← Interval.intersect_eq_none_iff]
  unfold update
  rw [known]
  cases whole : range.isUnbounded with
  | true =>
    have shared : ∃ x, current.Contains x ∧ range.Contains x :=
      ⟨current.lo, current.contains_lo, Interval.contains_of_unbounded whole current.lo_number⟩
    obtain ⟨narrowed, overlap⟩ := (Interval.intersect_isSome_iff _ _).mpr shared
    simp [whole, overlap]
  | false => cases overlap : current.intersect? range <;> simp [whole, overlap]

theorem update_range_refused_iff {v : Variable} {current : Interval}
    (known : v.value = .interval current) (range : Interval) :
    (∃ error, v.update (.interval range) = .error error) ↔
      range.isUnbounded = true ∨ ∀ x, ¬ (current.Contains x ∧ range.Contains x) := by
  constructor
  · rintro ⟨error, refused⟩
    rcases update_error_cases refused with
      ⟨x, exactly, _⟩ | ⟨_, same, whole, _⟩ | ⟨_, _, held, same, apart, _⟩ | ⟨x, scalar, _⟩
    · simp [known] at exactly
    · obtain rfl := Value.interval.inj same
      exact Or.inl whole
    · obtain rfl := Value.interval.inj same
      obtain rfl := Value.interval.inj (known.symm.trans held)
      exact Or.inr ((Interval.intersect_eq_none_iff _ _).mp apart)
    · simp at scalar
  · rintro (whole | apart)
    · exact ⟨_, (update_whole_iff known range).mpr whole⟩
    · exact ⟨_, (update_apart_iff known range).mpr apart⟩

theorem update_range_changed_iff {v w : Variable} {current range : Interval} {changed : Bool}
    (known : v.value = .interval current)
    (taken : v.update (.interval range) = .ok (w, changed)) :
    changed = true ↔ ∃ x, current.Contains x ∧ ¬ w.value.bounds.Contains x := by
  rw [← meet_of_interval known] at taken
  obtain ⟨narrowed, left, holds⟩ := meet_range_value known taken
  rw [meet_changed_iff taken, known, left]
  change (current == narrowed) = false ↔ ∃ x, current.Contains x ∧ ¬ narrowed.Contains x
  rw [Bool.eq_false_iff, ne_eq, Interval.beq_iff]
  constructor
  · intro differs
    by_contra lost
    refine differs fun x => ⟨fun inside => ?_, fun inside => ((holds x).mp inside).1⟩
    by_contra outside
    exact lost ⟨x, inside, outside⟩
  · rintro ⟨x, inside, outside⟩ same
    exact outside ((same x).mp inside)

theorem update_allowing {v : Variable} {current range : Interval}
    (known : v.value = .interval current) (informative : range.isUnbounded = false)
    (allows : ∀ x, current.Contains x → range.Contains x) :
    ∃ w, v.update (.interval range) = .ok (w, false) ∧ (w.value == v.value) = true := by
  have shared : ∃ x, current.Contains x ∧ range.Contains x :=
    ⟨current.lo, current.contains_lo, allows _ current.contains_lo⟩
  obtain ⟨w, changed, met⟩ := (meet_range_ok_iff known range).mpr ⟨informative, shared⟩
  obtain ⟨narrowed, left, holds⟩ := meet_range_value known met
  rw [meet_of_interval known] at met
  have unchanged : changed = false := by
    rw [Bool.eq_false_iff, ne_eq, update_range_changed_iff known met, left]
    rintro ⟨x, inside, outside⟩
    exact outside ((holds x).mpr ⟨inside, allows x inside⟩)
  rw [unchanged] at met
  refine ⟨w, met, ?_⟩
  rw [left, known]
  exact (Interval.beq_iff _ _).mpr fun x => (holds x).trans (and_iff_left_of_imp (allows x))

def accepted (v : Variable) : List Interval → List Interval
  | [] => []
  | range :: rest =>
    match v.update (.interval range) with
    | .ok (narrowed, _) => range :: narrowed.accepted rest
    | .error _ => v.accepted rest

def offerRanges (v : Variable) (ranges : List Interval) : Variable :=
  v.offerAll (ranges.map .interval)

/-- What is left of a variable is what the accepted ranges alone would leave. -/
theorem meetAll_accepted {v : Variable} {current : Interval} (known : v.value = .interval current)
    (ranges : List Interval) :
    v.meetAll ((v.accepted ranges).map .interval) = .ok (v.offerRanges ranges) := by
  induction ranges generalizing v current with
  | nil => rfl
  | cons range rest ih =>
    change v.meetAll ((v.accepted (range :: rest)).map .interval) =
      .ok ((v.offer (.interval range)).offerRanges rest)
    unfold accepted offer
    cases outcome : v.update (.interval range) with
    | error error => exact ih known
    | ok result =>
      obtain ⟨w, changed⟩ := result
      have met := outcome
      rw [← meet_of_interval known] at met
      obtain ⟨narrowed, left, _⟩ := meet_range_value known met
      exact (meetAll_cons_ok_iff _ _ _ _).mpr ⟨w, changed, met, ih left⟩

theorem accepted_of_meetAll {v w : Variable} {current : Interval}
    (known : v.value = .interval current) {ranges : List Interval}
    (met : v.meetAll (ranges.map .interval) = .ok w) : v.accepted ranges = ranges := by
  induction ranges generalizing v current with
  | nil => rfl
  | cons range rest ih =>
    obtain ⟨u, changed, first, later⟩ := (meetAll_cons_ok_iff _ _ _ _).mp met
    obtain ⟨narrowed, left, _⟩ := meet_range_value known first
    rw [meet_of_interval known] at first
    unfold accepted
    rw [first]
    exact congrArg (range :: ·) (ih left later)

/-- Accepted ranges say something and share a number with what was known, so in every order they
    are all accepted, and what they leave is the same. -/
theorem accepted_reordered {v : Variable} {current : Interval}
    (known : v.value = .interval current) {ranges order : List Interval}
    (same : order.Perm (v.accepted ranges)) :
    v.accepted order = order ∧ ((v.offerRanges order).value == (v.offerRanges ranges).value) := by
  have met := meetAll_accepted known ranges
  obtain ⟨informative, z, inside, shared⟩ := (meetAll_ranges_ok_iff known _).mp ⟨_, met⟩
  obtain ⟨w, met'⟩ := (meetAll_ranges_ok_iff known order).mpr
    ⟨fun r member => informative r (same.mem_iff.mp member), z, inside,
      fun r member => shared r (same.mem_iff.mp member)⟩
  have all := accepted_of_meetAll known met'
  have reached := meetAll_accepted known order
  rw [all] at reached
  refine ⟨all, meetAll_values_agree known ?_ ?_ reached met⟩
  · simp [Value.Storable]
  · simp [same.mem_iff]

theorem offerRanges_of_refused {v : Variable} {ranges : List Interval} {range : Interval}
    {error : VariableError}
    (refused : (v.offerRanges ranges).update (.interval range) = .error error) :
    v.offerRanges (ranges ++ [range]) = v.offerRanges ranges := by
  unfold offerRanges at refused ⊢
  rw [List.map_append, offerAll_append]
  change (v.offerAll (ranges.map .interval)).offer (.interval range) = _
  unfold offer
  rw [refused]

/-- What a history of ranges leaves of a variable, and what the variable then does with the next
    range. -/
structure Intersected (v : Variable) (ranges : List Interval) (now : Variable) : Prop where
  whole_iff : ∀ range,
    now.update (.interval range) = .error (.unconstrained v.name) ↔ range.isUnbounded = true
  apart_iff : ∀ range, now.update (.interval range) =
      .error (.disjoint v.name now.value.bounds range.toBounds) ↔
    ∀ x, ¬ (now.value.bounds.Contains x ∧ range.Contains x)
  refused_iff : ∀ range, (∃ error, now.update (.interval range) = .error error) ↔
    range.isUnbounded = true ∨ ∀ x, ¬ (now.value.bounds.Contains x ∧ range.Contains x)
  kept : ∀ range error, now.update (.interval range) = .error error →
    v.offerRanges (ranges ++ [range]) = now
  holds : ∀ x, now.value.bounds.Contains x ↔
    v.value.bounds.Contains x ∧ ∀ range ∈ v.accepted ranges, range.Contains x
  changed_iff : ∀ range w changed, now.update (.interval range) = .ok (w, changed) →
    (changed = true ↔ ∃ x, now.value.bounds.Contains x ∧ ¬ w.value.bounds.Contains x)
  again : ∀ range ∈ v.accepted ranges,
    ∃ w, now.update (.interval range) = .ok (w, false) ∧ (w.value == now.value) = true
  reordered : ∀ order : List Interval, order.Perm (v.accepted ranges) →
    v.accepted order = order ∧ ((v.offerRanges order).value == now.value) = true
  informed : v.accepted ranges ≠ [] → now.precision = .constrainedRange

theorem ranges_intersected (v : Variable) (notFinite : v.precision ≠ .finite)
    (ranges : List Interval) : v.Intersected ranges (v.offerRanges ranges) := by
  obtain ⟨current, known⟩ := interval_of_not_finite notFinite
  have met := meetAll_accepted known ranges
  have named := (meetAll_becomes met).name
  obtain ⟨informative, _⟩ := (meetAll_ranges_ok_iff known _).mp ⟨_, met⟩
  obtain ⟨left, reached, holds⟩ := meetAll_ranges_value known _ met
  have allows : ∀ range ∈ v.accepted ranges, ∀ x, left.Contains x → range.Contains x :=
    fun range member x inside => ((holds x).mp inside).2 range member
  have bounds : (v.offerRanges ranges).value.bounds = left.toBounds := by
    rw [reached]
    rfl
  exact {
    whole_iff := by
      rw [← named]
      exact update_whole_iff reached
    apart_iff := by
      rw [← named, bounds]
      exact update_apart_iff reached
    refused_iff := by
      rw [bounds]
      exact update_range_refused_iff reached
    kept := fun _ _ => offerRanges_of_refused
    holds := by
      rw [bounds, known]
      exact holds
    changed_iff := by
      intro range w changed taken
      rw [bounds]
      exact update_range_changed_iff reached taken
    again := by
      intro range member
      exact update_allowing reached (informative range member) (allows range member)
    reordered := fun _ => accepted_reordered known
    informed := by
      intro some
      obtain ⟨range, member⟩ := List.exists_mem_of_ne_nil _ some
      -- A range inside one that is not the whole line is not the whole line either.
      have bounded : left.isUnbounded = false := by
        rw [Bool.eq_false_iff]
        intro whole
        have unbounded := Interval.isUnbounded_of_inside (allows range member) whole
        simp [informative range member] at unbounded
      simp [precision, reached, Value.precision, bounded] }

theorem pressure_ranges_intersected :
    let pressure := Variable.new "pressure" .given "Pa"
    let first : Interval := ⟨⟨1.0, 4.0⟩, by decide +kernel⟩
    let second : Interval := ⟨⟨2.0, 6.0⟩, by decide +kernel⟩
    let third : Interval := ⟨⟨7.0, 9.0⟩, by decide +kernel⟩
    pressure.precision ≠ .finite ∧
      pressure.accepted [.unbounded, first, second, third] = [first, second] ∧
      (pressure.offerRanges [.unbounded, first, second, third]).value.bounds.Contains 3.0 ∧
      pressure.accepted [second, first] = [second, first] := by
  intro pressure first second third
  have notFinite : pressure.precision ≠ .finite := by decide +kernel
  have taken : pressure.accepted [.unbounded, first, second, third] = [first, second] := by
    decide +kernel
  have intersected := ranges_intersected pressure notFinite [.unbounded, first, second, third]
  refine ⟨notFinite, taken, (intersected.holds 3.0).mpr ?_, (intersected.reordered _ ?_).1⟩
  · rw [taken]
    decide +kernel
  · rw [taken]
    exact List.Perm.swap first second []

end Variable

end Narrowing
