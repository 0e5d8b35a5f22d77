import Narrowing.Proofs.Variable.History

/-!
A variable that meets the proposals of one cycle. As long as it is an interval it is narrowed; the
first number settles it, and every later proposal has to allow that number. So proposals meet well
in the order given exactly when those before the first number overlap and those after it hold it.
The order matters: `Reconcilable` says that some order is good, `Consistent` that every order is.
-/
namespace Narrowing

namespace Variable

def meet (v : Variable) (proposed : Value) : Except VariableError (Variable × Bool) :=
  match v.value with
  | .interval _ => v.update proposed
  | .scalar x =>
    if proposed.bounds.Contains x then .ok (v, false)
    else
      .error (match proposed with
        | .scalar _ => .alreadyFinite v.name
        | .interval range => .disjoint v.name ⟨x, x⟩ range.toBounds)

theorem meet_of_interval {v : Variable} {current : Interval} (known : v.value = .interval current)
    (proposed : Value) : v.meet proposed = v.update proposed := by
  unfold meet
  rw [known]

theorem meet_of_scalar {v : Variable} {x : Float} {proposed : Value} (known : v.value = .scalar x)
    (possible : proposed.bounds.Contains x) : v.meet proposed = .ok (v, false) := by
  unfold meet
  rw [known]
  simp [possible]

theorem meet_scalar_ok {v w : Variable} {x : Float} {proposed : Value} {changed : Bool}
    (known : v.value = .scalar x) (met : v.meet proposed = .ok (w, changed)) :
    proposed.bounds.Contains x ∧ w = v ∧ changed = false := by
  unfold meet at met
  rw [known] at met
  simp only at met
  split at met
  · rename_i possible
    obtain ⟨rfl, rfl⟩ := Prod.mk.inj (Except.ok.inj met)
    exact ⟨possible, rfl, rfl⟩
  · simp at met

theorem meet_name {v w : Variable} {proposed : Value} {changed : Bool}
    (met : v.meet proposed = .ok (w, changed)) : w.name = v.name := by
  cases known : v.value with
  | scalar x =>
    obtain ⟨_, rfl, _⟩ := meet_scalar_ok known met
    rfl
  | interval current =>
    rw [meet_of_interval known] at met
    rcases update_ok_cases met with ⟨_, _, _, _, _, _, _, rfl, _⟩ | ⟨_, _, _, _, _, rfl, _⟩ <;> rfl

theorem meet_settles_iff {v w : Variable} {current : Interval} {proposed : Value} {changed : Bool}
    (known : v.value = .interval current) (met : v.meet proposed = .ok (w, changed)) (x : Float) :
    w.value = .scalar x ↔ proposed = .scalar x := by
  rw [meet_of_interval known] at met
  rcases update_ok_cases met with
    ⟨_, range, narrowed, _, rfl, _, _, rfl, _⟩ | ⟨_, y, finite, _, rfl, rfl, _⟩
  · simp [withValue]
  · simp [withValue]

theorem meet_error_cases {v : Variable} {proposed : Value} {error : VariableError}
    (storable : proposed.Storable) (refused : v.meet proposed = .error error) :
    (∃ range, proposed = .interval range ∧ range.isUnbounded = true ∧
      error = .unconstrained v.name) ∨
    (∃ range, proposed = .interval range ∧
      (∀ x, ¬ (v.value.bounds.Contains x ∧ range.Contains x)) ∧
      error = .disjoint v.name v.value.bounds range.toBounds) ∨
    (∃ x y, v.value = .scalar x ∧ proposed = .scalar y ∧ (x == y) = false ∧
      error = .alreadyFinite v.name) := by
  cases known : v.value with
  | interval current =>
    rw [meet_of_interval known] at refused
    rcases update_error_cases refused with
      ⟨x, exactly, _⟩ | ⟨range, rfl, whole, rfl⟩ | ⟨now, range, held, rfl, apart, rfl⟩ |
      ⟨x, rfl, infinite, _⟩
    · simp [known] at exactly
    · exact Or.inl ⟨range, rfl, whole, rfl⟩
    · rw [known] at held
      obtain rfl := Value.interval.inj held
      exact Or.inr (Or.inl ⟨range, rfl, (Interval.intersect_eq_none_iff _ _).mp apart, rfl⟩)
    · simp [Value.Storable, infinite] at storable
  | scalar x =>
    unfold meet at refused
    rw [known] at refused
    simp only at refused
    split at refused
    · simp at refused
    · rename_i impossible
      obtain rfl := Except.error.inj refused
      cases proposed with
      | scalar y =>
        have distinct : (x == y) = false := by
          rw [Bool.eq_false_iff]
          intro same
          obtain ⟨below, above⟩ := (number_beq_iff x y).mp same
          exact impossible ⟨above, below⟩
        exact Or.inr (Or.inr ⟨x, y, rfl, rfl, distinct, rfl⟩)
      | interval range =>
        refine Or.inr (Or.inl ⟨range, rfl, ?_, rfl⟩)
        rintro z ⟨exactly, inside⟩
        have same : (z == x) = true := (number_beq_iff z x).mpr ⟨exactly.2, exactly.1⟩
        exact impossible (Bounds.contains_of_beq same inside)

/-- A number that both the variable and the proposal allow is allowed by what they leave. -/
theorem meet_keeps {v w : Variable} {proposed : Value} {changed : Bool} {t : Float}
    (held : v.value.bounds.Contains t) (possible : proposed.bounds.Contains t)
    (met : v.meet proposed = .ok (w, changed)) : w.value.bounds.Contains t := by
  cases known : v.value with
  | scalar x =>
    obtain ⟨_, rfl, _⟩ := meet_scalar_ok known met
    exact held
  | interval current =>
    rw [meet_of_interval known] at met
    rcases update_ok_cases met with
      ⟨now, range, narrowed, current', rfl, _, overlap, rfl, _⟩ | ⟨_, x, finite, _, rfl, rfl, _⟩
    · rw [current'] at held
      exact (Interval.intersect_contains_iff overlap t).mpr ⟨held, possible⟩
    · exact possible

theorem meet_error_of_possible {v : Variable} {proposed : Value} {error : VariableError} {t : Float}
    (storable : proposed.Storable) (held : v.value.bounds.Contains t)
    (possible : proposed.bounds.Contains t) (refused : v.meet proposed = .error error) :
    error = .unconstrained v.name := by
  rcases meet_error_cases storable refused with
    ⟨_, _, _, same⟩ | ⟨range, rfl, apart, _⟩ | ⟨x, y, known, rfl, distinct, _⟩
  · exact same
  · exact absurd ⟨held, possible⟩ (apart t)
  · rw [known, Value.scalar_contains_iff] at held
    rw [Value.scalar_contains_iff, number_beq_comm] at possible
    rw [number_beq_trans held possible] at distinct
    simp at distinct

def meetAll (v : Variable) : List Value → Except VariableError Variable
  | [] => .ok v
  | proposed :: rest =>
    match v.meet proposed with
    | .error error => .error error
    | .ok (w, _) => w.meetAll rest

theorem meetAll_cons_ok_iff (v w : Variable) (proposed : Value) (rest : List Value) :
    v.meetAll (proposed :: rest) = .ok w ↔
      ∃ u changed, v.meet proposed = .ok (u, changed) ∧ u.meetAll rest = .ok w := by
  rw [meetAll]
  cases v.meet proposed with
  | error e => simp
  | ok result =>
    obtain ⟨u, changed⟩ := result
    simp

theorem meetAll_append_ok_iff (v w : Variable) (before after : List Value) :
    v.meetAll (before ++ after) = .ok w ↔
      ∃ u, v.meetAll before = .ok u ∧ u.meetAll after = .ok w := by
  induction before generalizing v with
  | nil => simp [meetAll]
  | cons proposed rest ih =>
    simp only [List.cons_append, meetAll_cons_ok_iff, ih]
    constructor
    · rintro ⟨u, changed, met, t, first, last⟩
      exact ⟨t, ⟨u, changed, met, first⟩, last⟩
    · rintro ⟨t, ⟨u, changed, met, first⟩, last⟩
      exact ⟨u, changed, met, t, first, last⟩

theorem meetAll_scalar_ok_iff {v : Variable} {x : Float} (known : v.value = .scalar x)
    (w : Variable) (proposals : List Value) :
    v.meetAll proposals = .ok w ↔ w = v ∧ ∀ p ∈ proposals, p.bounds.Contains x := by
  induction proposals with
  | nil =>
    rw [meetAll]
    constructor
    · intro same
      exact ⟨(Except.ok.inj same).symm, by simp⟩
    · rintro ⟨rfl, _⟩
      rfl
  | cons proposed rest ih =>
    rw [meetAll_cons_ok_iff, List.forall_mem_cons]
    constructor
    · rintro ⟨u, changed, met, later⟩
      obtain ⟨possible, rfl, _⟩ := meet_scalar_ok known met
      exact ⟨(ih.mp later).1, possible, (ih.mp later).2⟩
    · rintro ⟨same, possible, later⟩
      exact ⟨v, false, meet_of_scalar known possible, ih.mpr ⟨same, later⟩⟩

theorem meet_range_value {v u : Variable} {current range : Interval} {changed : Bool}
    (known : v.value = .interval current) (met : v.meet (.interval range) = .ok (u, changed)) :
    ∃ narrowed, u.value = .interval narrowed ∧
      ∀ z, narrowed.Contains z ↔ current.Contains z ∧ range.Contains z := by
  rw [meet_of_interval known] at met
  rcases update_ok_cases met with
    ⟨now, _, narrowed, held, same, _, overlap, rfl, _⟩ | ⟨_, _, _, _, scalar, _⟩
  · rw [known] at held
    obtain rfl := Value.interval.inj held
    obtain rfl := Value.interval.inj same
    exact ⟨narrowed, rfl, Interval.intersect_contains_iff overlap⟩
  · simp at scalar

theorem meet_range_ok_iff {v : Variable} {current : Interval} (known : v.value = .interval current)
    (range : Interval) : (∃ u changed, v.meet (.interval range) = .ok (u, changed)) ↔
      range.isUnbounded = false ∧ ∃ z, current.Contains z ∧ range.Contains z := by
  rw [meet_of_interval known, ← Interval.intersect_isSome_iff]
  constructor
  · rintro ⟨u, changed, met⟩
    rcases update_ok_cases met with
      ⟨now, _, narrowed, held, same, informative, overlap, _⟩ | ⟨_, _, _, _, scalar, _⟩
    · rw [known] at held
      obtain rfl := Value.interval.inj held
      obtain rfl := Value.interval.inj same
      exact ⟨informative, narrowed, overlap⟩
    · simp at scalar
  · rintro ⟨informative, narrowed, overlap⟩
    exact ⟨_, _, update_range known informative overlap⟩

theorem meetAll_ranges_value {v w : Variable} {current : Interval}
    (known : v.value = .interval current) (ranges : List Interval)
    (met : v.meetAll (ranges.map .interval) = .ok w) :
    ∃ narrowed, w.value = .interval narrowed ∧
      ∀ z, narrowed.Contains z ↔ current.Contains z ∧ ∀ r ∈ ranges, r.Contains z := by
  induction ranges generalizing v current with
  | nil =>
    obtain rfl := Except.ok.inj met
    exact ⟨current, known, by simp⟩
  | cons range rest ih =>
    obtain ⟨u, changed, met, later⟩ := (meetAll_cons_ok_iff _ _ _ _).mp met
    obtain ⟨narrowed, left, holds⟩ := meet_range_value known met
    obtain ⟨final, reached, exactly⟩ := ih left later
    refine ⟨final, reached, fun z => ?_⟩
    rw [exactly, holds, List.forall_mem_cons, and_assoc]

theorem meetAll_ranges_ok_iff {v : Variable} {current : Interval}
    (known : v.value = .interval current) (ranges : List Interval) :
    (∃ w, v.meetAll (ranges.map .interval) = .ok w) ↔
      (∀ r ∈ ranges, r.isUnbounded = false) ∧
        ∃ z, current.Contains z ∧ ∀ r ∈ ranges, r.Contains z := by
  induction ranges generalizing v current with
  | nil => simpa [meetAll] using ⟨current.lo, current.contains_lo⟩
  | cons range rest ih =>
    simp only [List.map_cons, meetAll_cons_ok_iff, List.forall_mem_cons]
    constructor
    · rintro ⟨w, u, changed, met, later⟩
      obtain ⟨narrowed, left, holds⟩ := meet_range_value known met
      obtain ⟨informative, z, inside, shared⟩ := (ih left).mp ⟨w, later⟩
      obtain ⟨said, _⟩ := (meet_range_ok_iff known range).mp ⟨u, changed, met⟩
      obtain ⟨held, hit⟩ := (holds z).mp inside
      exact ⟨⟨said, informative⟩, z, held, hit, shared⟩
    · rintro ⟨⟨said, informative⟩, z, held, hit, shared⟩
      obtain ⟨u, changed, met⟩ := (meet_range_ok_iff known range).mpr ⟨said, z, held, hit⟩
      obtain ⟨narrowed, left, holds⟩ := meet_range_value known met
      obtain ⟨w, later⟩ := (ih left).mpr ⟨informative, z, (holds z).mpr ⟨held, hit⟩, shared⟩
      exact ⟨w, u, changed, met, later⟩

theorem meetAll_settling_ok_iff {v : Variable} {current : Interval}
    (known : v.value = .interval current) (ranges : List Interval) {x : Float}
    (finite : (Value.scalar x).Storable) (rest : List Value) :
    (∃ w, v.meetAll (ranges.map .interval ++ .scalar x :: rest) = .ok w) ↔
      (∃ u, v.meetAll (ranges.map .interval) = .ok u) ∧ ∀ p ∈ rest, p.bounds.Contains x := by
  simp only [meetAll_append_ok_iff, meetAll_cons_ok_iff]
  constructor
  · rintro ⟨w, u, first, t, changed, met, later⟩
    obtain ⟨narrowed, left, _⟩ := meetAll_ranges_value known ranges first
    have settled : t.value = .scalar x := (meet_settles_iff left met x).mpr rfl
    exact ⟨⟨u, first⟩, ((meetAll_scalar_ok_iff settled w rest).mp later).2⟩
  · rintro ⟨⟨u, first⟩, possible⟩
    obtain ⟨narrowed, left, _⟩ := meetAll_ranges_value known ranges first
    have met : u.meet (.scalar x) = .ok (u.withValue (.scalar x) finite, true) :=
      (meet_of_interval left _).trans (update_scalar left finite)
    have later := (meetAll_scalar_ok_iff (v := u.withValue (.scalar x) finite) rfl _ rest).mpr
      ⟨rfl, possible⟩
    exact ⟨_, u, first, _, true, met, later⟩

theorem meetAll_settling_value {v w : Variable} {current : Interval}
    (known : v.value = .interval current) (ranges : List Interval) {x : Float} {rest : List Value}
    (met : v.meetAll (ranges.map .interval ++ .scalar x :: rest) = .ok w) :
    w.value = .scalar x := by
  obtain ⟨u, first, later⟩ := (meetAll_append_ok_iff _ _ _ _).mp met
  obtain ⟨t, changed, met, later⟩ := (meetAll_cons_ok_iff _ _ _ _).mp later
  obtain ⟨narrowed, left, _⟩ := meetAll_ranges_value known ranges first
  have settled : t.value = .scalar x := (meet_settles_iff left met x).mpr rfl
  obtain ⟨rfl, _⟩ := (meetAll_scalar_ok_iff settled w rest).mp later
  exact settled

/-- A list of values is a list of intervals, or starts with one that a number ends. -/
theorem ranges_or_settling (proposals : List Value) :
    (∃ ranges : List Interval, proposals = ranges.map .interval) ∨
    ∃ (ranges : List Interval) (x : Float) (rest : List Value),
      proposals = ranges.map .interval ++ .scalar x :: rest := by
  induction proposals with
  | nil => exact Or.inl ⟨[], rfl⟩
  | cons p rest ih =>
    cases p with
    | scalar x => exact Or.inr ⟨[], x, rest, rfl⟩
    | interval range =>
      rcases ih with ⟨ranges, rfl⟩ | ⟨ranges, x, later, rfl⟩
      · exact Or.inl ⟨range :: ranges, rfl⟩
      · exact Or.inr ⟨range :: ranges, x, later, rfl⟩

/-- Proposals that are taken in every order: all of them allow every number among them, each says
    something, and the intervals share a number with what is known. -/
structure Consistent (known : Bounds) (proposals : List Value) : Prop where
  agree : ∀ x, .scalar x ∈ proposals → ∀ p ∈ proposals, p.bounds.Contains x
  informative : ∀ p ∈ proposals, p.precision ≠ .unconstrained
  overlap : ∃ z, known.Contains z ∧ ∀ r : Interval, .interval r ∈ proposals → r.Contains z

/-- Proposals that are taken in some order: their numbers are equal, and the intervals that rule
    these out, which have to come first, share a number with what is known. -/
structure Reconcilable (known : Bounds) (proposals : List Value) : Prop where
  agree : ∀ x y, .scalar x ∈ proposals → .scalar y ∈ proposals → (x == y) = true
  informative : (∀ x, .scalar x ∉ proposals) → ∀ p ∈ proposals, p.precision ≠ .unconstrained
  overlap : ∃ z, known.Contains z ∧ ∀ r : Interval, .interval r ∈ proposals →
    (∀ x, .scalar x ∈ proposals → ¬ r.Contains x) → r.Contains z

/- Neither depends on more than which proposals there are. -/
theorem Consistent.congr {known : Bounds} {ps qs : List Value} (same : ∀ p, p ∈ qs ↔ p ∈ ps)
    (h : Consistent known ps) : Consistent known qs := by
  obtain ⟨z, inside, shared⟩ := h.overlap
  refine ⟨?_, ?_, z, inside, fun r member => shared r ((same _).mp member)⟩
  · intro x number p member
    exact h.agree x ((same _).mp number) p ((same p).mp member)
  · intro p member
    exact h.informative p ((same p).mp member)

theorem Reconcilable.congr {known : Bounds} {ps qs : List Value} (same : ∀ p, p ∈ qs ↔ p ∈ ps)
    (h : Reconcilable known ps) : Reconcilable known qs := by
  obtain ⟨z, inside, shared⟩ := h.overlap
  refine ⟨?_, ?_, z, inside, ?_⟩
  · intro x y hx hy
    exact h.agree x y ((same _).mp hx) ((same _).mp hy)
  · intro none p member
    exact h.informative (fun x number => none x ((same _).mpr number)) p ((same p).mp member)
  · intro r member excluded
    exact shared r ((same _).mp member) fun x number => excluded x ((same _).mpr number)

theorem range_informative_iff (range : Interval) :
    (Value.interval range).precision ≠ .unconstrained ↔ range.isUnbounded = false := by
  cases whole : range.isUnbounded <;> simp [Value.precision, whole]

theorem reconcilable_of_meetAll {v w : Variable} {current : Interval} {proposals : List Value}
    (known : v.value = .interval current) (storable : ∀ p ∈ proposals, p.Storable)
    (met : v.meetAll proposals = .ok w) : Reconcilable current.toBounds proposals := by
  rcases ranges_or_settling proposals with ⟨ranges, rfl⟩ | ⟨ranges, x, rest, rfl⟩
  · obtain ⟨informative, z, inside, shared⟩ := (meetAll_ranges_ok_iff known ranges).mp ⟨w, met⟩
    refine ⟨by simp, ?_, z, inside, ?_⟩
    · simpa [range_informative_iff] using informative
    · intro r member _
      exact shared r (by simpa using member)
  · have finite := storable (.scalar x) (by simp)
    obtain ⟨⟨u, first⟩, possible⟩ := (meetAll_settling_ok_iff known ranges finite rest).mp ⟨w, met⟩
    obtain ⟨_, z, inside, shared⟩ := (meetAll_ranges_ok_iff known ranges).mp ⟨u, first⟩
    have equal : ∀ y, .scalar y ∈ ranges.map .interval ++ .scalar x :: rest → (x == y) = true := by
      intro y member
      simp only [List.mem_append, List.mem_map, reduceCtorEq, and_false, exists_false,
        List.mem_cons, Value.scalar.injEq, false_or] at member
      rcases member with rfl | member
      · exact number_beq_refl (number_of_finite finite)
      · rw [number_beq_comm]
        exact (Value.scalar_contains_iff y x).mp (possible _ member)
    refine ⟨?_, ?_, z, inside, ?_⟩
    · intro y y' hy hy'
      have back : (y == x) = true := (number_beq_comm y x).trans (equal y hy)
      exact number_beq_trans back (equal y' hy')
    · intro none
      exact absurd (by simp) (none x)
    · intro r member excluded
      rcases List.mem_append.mp member with early | late
      · exact shared r (by simpa using early)
      · rcases List.mem_cons.mp late with scalar | late
        · simp at scalar
        · exact absurd (possible _ late) (excluded x (by simp))

theorem meetAll_of_consistent {v : Variable} {current : Interval} {proposals : List Value}
    (known : v.value = .interval current) (storable : ∀ p ∈ proposals, p.Storable)
    (consistent : Consistent current.toBounds proposals) : ∃ w, v.meetAll proposals = .ok w := by
  obtain ⟨z, inside, shared⟩ := consistent.overlap
  rcases ranges_or_settling proposals with ⟨ranges, rfl⟩ | ⟨ranges, x, rest, rfl⟩
  · apply (meetAll_ranges_ok_iff known ranges).mpr
    refine ⟨?_, z, inside, fun r member => shared r (by simpa using member)⟩
    intro r member
    exact (range_informative_iff r).mp (consistent.informative _ (by simpa using member))
  · apply (meetAll_settling_ok_iff known ranges (storable (.scalar x) (by simp)) rest).mpr
    constructor
    · apply (meetAll_ranges_ok_iff known ranges).mpr
      refine ⟨?_, z, inside, fun r member => shared r (by simp [member])⟩
      intro r member
      exact (range_informative_iff r).mp (consistent.informative _ (by simp [member]))
    · intro p member
      exact consistent.agree x (by simp) p (by simp [member])

/-- The good order: first the intervals that rule the numbers out, then the numbers, then the
    intervals that allow them. -/
theorem meetAll_of_reconcilable {v : Variable} {current : Interval}
    (known : v.value = .interval current) (early late : List Interval) (numbers : List Float)
    (finite : ∀ x ∈ numbers, (Value.scalar x).Storable)
    (excluding : ∀ r ∈ early, ∃ x ∈ numbers, ¬ r.Contains x)
    (allowing : ∀ r ∈ late, ∀ x ∈ numbers, r.Contains x)
    (reconcilable : Reconcilable current.toBounds
      (early.map .interval ++ (numbers.map .scalar ++ late.map .interval))) :
    ∃ w, v.meetAll (early.map .interval ++ (numbers.map .scalar ++ late.map .interval)) = .ok w := by
  obtain ⟨z, inside, shared⟩ := reconcilable.overlap
  cases numbers with
  | nil =>
    -- Without a number nothing has to come first, and the intervals simply overlap.
    have none : early = [] := by
      apply List.eq_nil_iff_forall_not_mem.mpr
      intro r member
      obtain ⟨x, absent, _⟩ := excluding r member
      simp at absent
    subst early
    have informative := reconcilable.informative (by simp)
    simp only [List.map_nil, List.nil_append, List.forall_mem_map, range_informative_iff] at *
    exact (meetAll_ranges_ok_iff known late).mpr
      ⟨informative, z, inside, fun r member => shared r (by simpa using member) (by simp)⟩
  | cons x more =>
    have equal : ∀ y ∈ x :: more, (x == y) = true := by
      intro y member
      exact reconcilable.agree x y (by simp) (by simp at member; simp [member])
    have apart : ∀ r ∈ early, ∀ y ∈ x :: more, ¬ r.Contains y := by
      intro r member y hy inY
      obtain ⟨y', hy', notInY'⟩ := excluding r member
      have back : (y == x) = true := (number_beq_comm y x).trans (equal y hy)
      exact notInY' (Bounds.contains_of_beq (number_beq_trans back (equal y' hy')) inY)
    apply (meetAll_settling_ok_iff known early (finite x (by simp)) _).mpr
    constructor
    · apply (meetAll_ranges_ok_iff known early).mpr
      refine ⟨?_, z, inside, ?_⟩
      · intro r member
        rw [Bool.eq_false_iff]
        intro whole
        have number := number_of_finite (finite x (by simp))
        exact apart r member x (by simp) (Interval.contains_of_unbounded whole number)
      · intro r member
        apply shared r (by simp [member])
        intro y hy
        exact apart r member y (by simpa using hy)
    · intro p member
      rcases List.mem_append.mp member with number | range
      · obtain ⟨y, hy, rfl⟩ := List.mem_map.mp number
        rw [Value.scalar_contains_iff, number_beq_comm]
        exact equal y (by simp [hy])
      · obtain ⟨r, hr, rfl⟩ := List.mem_map.mp range
        exact allowing r hr x (by simp)

/-- Numbers first and numbers last: what is taken in both of these orders is consistent. -/
theorem consistent_of_orders {v w u : Variable} {current : Interval}
    (known : v.value = .interval current) (ranges : List Interval) (numbers : List Float)
    (finite : ∀ x ∈ numbers, (Value.scalar x).Storable)
    (first : v.meetAll (numbers.map .scalar ++ ranges.map .interval) = .ok w)
    (last : v.meetAll (ranges.map .interval ++ numbers.map .scalar) = .ok u) :
    Consistent current.toBounds (ranges.map .interval ++ numbers.map .scalar) := by
  obtain ⟨t, met, _⟩ := (meetAll_append_ok_iff _ _ _ _).mp last
  obtain ⟨informative, z, inside, shared⟩ := (meetAll_ranges_ok_iff known ranges).mp ⟨t, met⟩
  refine ⟨?_, ?_, z, inside, ?_⟩
  · cases numbers with
    | nil => simp
    | cons x more =>
      have settled := (meetAll_settling_ok_iff known [] (finite x (by simp)) _).mp ⟨w, first⟩
      have possible : ∀ p ∈ ranges.map Value.interval ++ (x :: more).map Value.scalar,
          p.bounds.Contains x := by
        intro p member
        simp only [List.map_cons, List.mem_append, List.mem_cons] at member
        rcases member with range | rfl | number
        · exact settled.2 p (List.mem_append.mpr (Or.inr range))
        · exact Value.Storable.contains_lo (finite x (by simp))
        · exact settled.2 p (List.mem_append.mpr (Or.inl number))
      intro y member p hp
      have equal := (Value.scalar_contains_iff y x).mp (possible _ member)
      rw [number_beq_comm] at equal
      exact Bounds.contains_of_beq equal (possible p hp)
  · intro p member
    rcases List.mem_append.mp member with range | number
    · obtain ⟨r, hr, rfl⟩ := List.mem_map.mp range
      exact (range_informative_iff r).mpr (informative r hr)
    · obtain ⟨x, _, rfl⟩ := List.mem_map.mp number
      simp [Value.precision]
  · intro r member
    exact shared r (by simpa using member)

theorem meetAll_values_agree {v w u : Variable} {current : Interval} {ps qs : List Value}
    (known : v.value = .interval current) (storable : ∀ p ∈ ps, p.Storable)
    (same : ∀ p, p ∈ ps ↔ p ∈ qs) (first : v.meetAll ps = .ok w) (second : v.meetAll qs = .ok u) :
    (w.value == u.value) = true := by
  have agree := (reconcilable_of_meetAll known storable first).agree
  rcases ranges_or_settling ps with ⟨ranges, rfl⟩ | ⟨ranges, x, rest, rfl⟩ <;>
    rcases ranges_or_settling qs with ⟨ranges', rfl⟩ | ⟨ranges', x', rest', rfl⟩
  · obtain ⟨a, left, inA⟩ := meetAll_ranges_value known ranges first
    obtain ⟨b, left', inB⟩ := meetAll_ranges_value known ranges' second
    have members : ∀ r, r ∈ ranges ↔ r ∈ ranges' := fun r => by simpa using same (.interval r)
    rw [left, left']
    apply Interval.beq_of_contains_iff
    intro z
    rw [inA, inB]
    simp only [members]
  · have absent := (same (.scalar x')).mpr (by simp)
    simp at absent
  · have absent := (same (.scalar x)).mp (by simp)
    simp at absent
  · rw [meetAll_settling_value known ranges first, meetAll_settling_value known ranges' second]
    exact agree x x' (by simp) ((same (.scalar x')).mpr (by simp))

end Variable

end Narrowing
