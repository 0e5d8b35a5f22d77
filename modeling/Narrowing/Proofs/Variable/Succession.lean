import Narrowing.Proofs.Variable.Meeting

/-!
What may become of a variable. Whatever proposals it meets, it keeps its name and labels, a number
stays as it is, and a range shrinks or gives way to a number. No way back leads to a value that has
been left: along a succession the first value equals the last one only if nothing changed between.
-/
namespace Narrowing

@[simp] theorem Value.interval_beq_scalar (a : Interval) (x : Float) :
    (Value.interval a == .scalar x) = false := rfl

/-- A value that may follow another: a number follows itself, and a range is followed by a part of
    it or by a number. The number need not lie in the range. -/
inductive Value.Precedes : Value → Value → Prop
  | number (x : Float) : Precedes (.scalar x) (.scalar x)
  | settled (a : Interval) (x : Float) : Precedes (.interval a) (.scalar x)
  | narrowed {a b : Interval} (inside : ∀ x, b.Contains x → a.Contains x) :
      Precedes (.interval a) (.interval b)

namespace Value.Precedes
variable {u v w : Value}

theorem refl (value : Value) : value.Precedes value := by
  cases value with
  | scalar x => exact .number x
  | interval a => exact .narrowed fun _ inside => inside

theorem trans (first : u.Precedes v) (second : v.Precedes w) : u.Precedes w := by
  cases first with
  | number x => exact second
  | settled a x =>
    cases second with
    | number => exact .settled a x
  | narrowed inside =>
    cases second with
    | settled b x => exact .settled _ x
    | narrowed inside' => exact .narrowed fun x held => inside x (inside' x held)

theorem of_finite (precedes : v.Precedes w) (finite : v.precision = .finite) : w = v := by
  obtain ⟨x, rfl⟩ := (precision_finite_iff v).mp finite
  cases precedes with
  | number x => rfl

theorem rank_le (precedes : v.Precedes w) : v.precision.rank ≤ w.precision.rank := by
  cases precedes with
  | number x => exact Nat.le_refl _
  | settled a x =>
    cases (Value.interval a).precision <;> simp [precision, Precision.rank]
  | @narrowed a b inside =>
    simp only [precision]
    cases whole : b.isUnbounded with
    | true =>
      rw [Interval.isUnbounded_of_inside inside whole]
    | false => cases a.isUnbounded <;> simp [Precision.rank]

/-- A value that has been left does not come back. -/
theorem beq_iff (first : u.Precedes v) (second : v.Precedes w) :
    (u == w) = true ↔ (u == v) = true ∧ (v == w) = true := by
  cases first with
  | number x =>
    cases second with
    | number => exact (and_self_iff).symm
  | settled a x =>
    cases second with
    | number => simp
  | @narrowed a b inside =>
    cases second with
    | settled _ x => simp
    | @narrowed _ c inside' =>
      change (a == c) = true ↔ (a == b) = true ∧ (b == c) = true
      simp only [Interval.beq_iff]
      constructor
      · intro same
        exact ⟨fun x => ⟨fun held => inside' x ((same x).mp held), inside x⟩,
          fun x => ⟨fun held => (same x).mp (inside x held), inside' x⟩⟩
      · rintro ⟨same, same'⟩ x
        exact (same x).trans (same' x)

end Value.Precedes

structure Variable.Becomes (v w : Variable) : Prop where
  name : w.name = v.name
  provenance : w.provenance = v.provenance
  unit : w.unit = v.unit
  value : v.value.Precedes w.value

namespace Variable

theorem Becomes.refl (v : Variable) : v.Becomes v := ⟨rfl, rfl, rfl, .refl v.value⟩

theorem Becomes.trans {u v w : Variable} (first : u.Becomes v) (second : v.Becomes w) :
    u.Becomes w where
  name := second.name.trans first.name
  provenance := second.provenance.trans first.provenance
  unit := second.unit.trans first.unit
  value := first.value.trans second.value

theorem meet_becomes {v w : Variable} {proposed : Value} {changed : Bool}
    (met : v.meet proposed = .ok (w, changed)) : v.Becomes w := by
  cases known : v.value with
  | scalar x =>
    obtain ⟨_, rfl, _⟩ := meet_scalar_ok known met
    exact .refl w
  | interval current =>
    rw [meet_of_interval known] at met
    rcases update_ok_cases met with
      ⟨now, range, narrowed, held, _, _, overlap, rfl, _⟩ | ⟨now, x, finite, held, _, rfl, _⟩
    · refine ⟨rfl, rfl, rfl, ?_⟩
      rw [held]
      exact .narrowed fun x inside => ((Interval.intersect_contains_iff overlap x).mp inside).1
    · refine ⟨rfl, rfl, rfl, ?_⟩
      rw [held]
      exact .settled now x

theorem meetAll_becomes {v w : Variable} {proposals : List Value}
    (met : v.meetAll proposals = .ok w) : v.Becomes w := by
  induction proposals generalizing v with
  | nil =>
    obtain rfl := Except.ok.inj met
    exact .refl v
  | cons proposed rest ih =>
    obtain ⟨u, changed, first, later⟩ := (meetAll_cons_ok_iff _ _ _ _).mp met
    exact (meet_becomes first).trans (ih later)

theorem update_becomes {v w : Variable} {proposed : Value} {changed : Bool}
    (accepted : v.update proposed = .ok (w, changed)) : v.Becomes w := by
  cases known : v.value with
  | scalar x => simp [update, known] at accepted
  | interval current =>
    rw [← meet_of_interval known] at accepted
    exact meet_becomes accepted

theorem meet_changed_iff {v w : Variable} {proposed : Value} {changed : Bool}
    (met : v.meet proposed = .ok (w, changed)) :
    changed = true ↔ (v.value == w.value) = false := by
  cases known : v.value with
  | scalar x =>
    obtain ⟨_, rfl, rfl⟩ := meet_scalar_ok known met
    have number : Value.Storable (.scalar x) := known ▸ w.storable
    have same : (x == x) = true := number_beq_refl (number_of_finite number)
    rw [known]
    change false = true ↔ (x == x) = false
    simp [same]
  | interval current =>
    rw [meet_of_interval known] at met
    rcases update_ok_cases met with
      ⟨now, range, narrowed, held, _, _, _, rfl, rfl⟩ | ⟨now, x, finite, _, _, rfl, rfl⟩
    · obtain rfl := Value.interval.inj (known.symm.trans held)
      change (!(narrowed == current)) = true ↔ (current == narrowed) = false
      rw [Interval.beq_comm current narrowed, Bool.not_eq_true']
    · simp [withValue]

theorem new_meet_changed {name unit : String} {provenance : Provenance} {w : Variable}
    {proposed : Value} {changed : Bool}
    (met : (Variable.new name provenance unit).meet proposed = .ok (w, changed)) :
    changed = true := by
  have known : (Variable.new name provenance unit).value = .interval .unbounded := rfl
  rw [meet_of_interval known] at met
  rcases update_ok_cases met with
    ⟨now, range, narrowed, held, _, informative, overlap, _, rfl⟩ | ⟨_, _, _, _, _, _, changes⟩
  · obtain rfl : Interval.unbounded = now := Value.interval.inj held
    rw [bne, Bool.not_eq_true', Bool.eq_false_iff]
    intro same
    have inside : ∀ x, Interval.unbounded.Contains x → range.Contains x := by
      intro x held
      have left := ((Interval.beq_iff _ _).mp same x).mpr held
      exact ((Interval.intersect_contains_iff overlap x).mp left).2
    have whole := Interval.isUnbounded_of_inside inside Interval.unbounded_isUnbounded
    simp [informative] at whole
  · exact changes

end Variable

end Narrowing
