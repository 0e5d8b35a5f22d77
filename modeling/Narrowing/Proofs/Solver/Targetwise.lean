import Narrowing.Proofs.Solver.Reordering
import Narrowing.Proofs.Solver.Updates
import Narrowing.Proofs.Variable.Ranges

/-!
The proposals of one cycle, read target by target. What is proposed for one target are some ranges,
and then perhaps a number with further proposals after it. The ranges have to say something and to
share a number with what is known, the further proposals have to allow the number, and the target
is left at the number or else at what all ranges share. A cycle does this for every target at once,
however their proposals are interleaved.
-/
namespace Narrowing
open Application Variable

def leadingRanges : List Value → List Interval
  | .interval range :: rest => range :: leadingRanges rest
  | _ => []

def firstNumber? : List Value → Option (Float × List Value)
  | [] => none
  | .scalar x :: rest => some (x, rest)
  | .interval _ :: rest => firstNumber? rest

theorem leadingRanges_append (ranges : List Interval) (values : List Value) :
    leadingRanges (ranges.map .interval ++ values) = ranges ++ leadingRanges values := by
  induction ranges with
  | nil => rfl
  | cons range rest ih => exact congrArg (range :: ·) ih

theorem firstNumber_append (ranges : List Interval) (values : List Value) :
    firstNumber? (ranges.map .interval ++ values) = firstNumber? values := by
  induction ranges with
  | nil => rfl
  | cons range rest ih => exact ih

@[simp] theorem leadingRanges_ranges (ranges : List Interval) :
    leadingRanges (ranges.map .interval) = ranges := by
  simpa [leadingRanges] using leadingRanges_append ranges []

@[simp] theorem leadingRanges_settling (ranges : List Interval) (x : Float) (later : List Value) :
    leadingRanges (ranges.map .interval ++ .scalar x :: later) = ranges := by
  simpa [leadingRanges] using leadingRanges_append ranges (.scalar x :: later)

@[simp] theorem firstNumber_ranges (ranges : List Interval) :
    firstNumber? (ranges.map .interval) = none := by
  simpa [firstNumber?] using firstNumber_append ranges []

@[simp] theorem firstNumber_settling (ranges : List Interval) (x : Float) (later : List Value) :
    firstNumber? (ranges.map .interval ++ .scalar x :: later) = some (x, later) :=
  firstNumber_append ranges (.scalar x :: later)

def Value.Allows (value : Value) (x : Float) : Prop :=
  match value with
  | .scalar y => (y == x) = true
  | .interval range => range.Contains x

theorem Value.bounds_contains_iff (value : Value) (x : Float) :
    value.bounds.Contains x ↔ value.Allows x := by
  cases value with
  | scalar y => exact scalar_contains_iff y x
  | interval range => exact Iff.rfl

def Shared (known : Bounds) (ranges : List Interval) (z : Float) : Prop :=
  known.Contains z ∧ ∀ range ∈ ranges, range.Contains z

structure Acceptable (known : Bounds) (values : List Value) : Prop where
  informative : ∀ range ∈ leadingRanges values, range.isUnbounded = false
  overlap : ∃ z, Shared known (leadingRanges values) z
  confirmed : ∀ x later, firstNumber? values = some (x, later) → ∀ value ∈ later, value.Allows x

theorem acceptable_ranges_iff (known : Bounds) (ranges : List Interval) :
    Acceptable known (ranges.map .interval) ↔
      (∀ range ∈ ranges, range.isUnbounded = false) ∧ ∃ z, Shared known ranges z := by
  constructor
  · rintro ⟨informative, overlap, _⟩
    rw [leadingRanges_ranges] at informative overlap
    exact ⟨informative, overlap⟩
  · rintro ⟨informative, overlap⟩
    exact ⟨by rwa [leadingRanges_ranges], by rwa [leadingRanges_ranges], by simp⟩

theorem acceptable_settling_iff (known : Bounds) (ranges : List Interval) (x : Float)
    (later : List Value) : Acceptable known (ranges.map .interval ++ .scalar x :: later) ↔
      Acceptable known (ranges.map .interval) ∧ ∀ value ∈ later, value.Allows x := by
  rw [acceptable_ranges_iff]
  constructor
  · rintro ⟨informative, overlap, confirmed⟩
    rw [leadingRanges_settling] at informative overlap
    exact ⟨⟨informative, overlap⟩, confirmed x later (firstNumber_settling ranges x later)⟩
  · rintro ⟨⟨informative, overlap⟩, allow⟩
    refine ⟨by rwa [leadingRanges_settling], by rwa [leadingRanges_settling], ?_⟩
    intro y rest first
    rw [firstNumber_settling] at first
    obtain ⟨rfl, rfl⟩ := Prod.mk.inj (Option.some.inj first)
    exact allow

inductive Leaves (known : Bounds) (values : List Value) : Value → Prop
  | number {x : Float} {later : List Value} (first : firstNumber? values = some (x, later)) :
      Leaves known values (.scalar x)
  | overlap {range : Interval} (none : firstNumber? values = none)
      (holds : ∀ z, range.Contains z ↔ Shared known (leadingRanges values) z) :
      Leaves known values (.interval range)

/-- A value changes a target unless a number was proposed for it earlier: a number always does, a
    range if it removes something. -/
def Changes (known : Bounds) (earlier : List Value) (value : Value) : Prop :=
  firstNumber? earlier = none ∧ ∀ range, value = .interval range →
    ∃ z, Shared known (leadingRanges earlier) z ∧ ¬ range.Contains z

theorem changes_range_iff (known : Bounds) (ranges : List Interval) (range : Interval) :
    Changes known (ranges.map .interval) (.interval range) ↔
      ∃ z, Shared known ranges z ∧ ¬ range.Contains z := by
  simp [Changes]

namespace Variable

theorem meetAll_ok_iff {v : Variable} {current : Interval} (known : v.value = .interval current)
    {values : List Value} (storable : ∀ value ∈ values, value.Storable) :
    (∃ w, v.meetAll values = .ok w) ↔ Acceptable current.toBounds values := by
  rcases ranges_or_settling values with ⟨ranges, rfl⟩ | ⟨ranges, x, later, rfl⟩
  · rw [acceptable_ranges_iff]
    exact meetAll_ranges_ok_iff known ranges
  · have finite := storable (.scalar x) (by simp)
    rw [acceptable_settling_iff, acceptable_ranges_iff, meetAll_settling_ok_iff known ranges finite]
    simp only [Value.bounds_contains_iff]
    exact and_congr_left' (meetAll_ranges_ok_iff known ranges)

theorem meetAll_leaves {v w : Variable} {current : Interval} (known : v.value = .interval current)
    {values : List Value} (met : v.meetAll values = .ok w) :
    Leaves current.toBounds values w.value := by
  rcases ranges_or_settling values with ⟨ranges, rfl⟩ | ⟨ranges, x, later, rfl⟩
  · obtain ⟨narrowed, left, holds⟩ := meetAll_ranges_value known ranges met
    rw [left]
    exact .overlap (firstNumber_ranges ranges) (by rwa [leadingRanges_ranges])
  · rw [meetAll_settling_value known ranges met]
    exact .number (firstNumber_settling ranges x later)

theorem meet_changes_iff {v u w : Variable} {current : Interval} {changed : Bool}
    {earlier : List Value} {value : Value} (known : v.value = .interval current)
    (before : v.meetAll earlier = .ok u) (met : u.meet value = .ok (w, changed)) :
    changed = true ↔ Changes current.toBounds earlier value := by
  rcases ranges_or_settling earlier with ⟨ranges, rfl⟩ | ⟨ranges, x, later, rfl⟩
  · obtain ⟨narrowed, left, holds⟩ := meetAll_ranges_value known ranges before
    cases value with
    | scalar x =>
      have settled : w.value = .scalar x := (meet_settles_iff left met x).mpr rfl
      rw [meet_changed_iff met, left, settled]
      simp [Changes]
    | interval range =>
      obtain ⟨final, reached, exactly⟩ := meet_range_value left met
      rw [meet_of_interval left] at met
      rw [update_range_changed_iff left met, reached, changes_range_iff]
      constructor
      · rintro ⟨z, inside, outside⟩
        exact ⟨z, (holds z).mp inside, fun held => outside ((exactly z).mpr ⟨inside, held⟩)⟩
      · rintro ⟨z, shared, outside⟩
        exact ⟨z, (holds z).mpr shared, fun held => outside ((exactly z).mp held).2⟩
  · have settled := meetAll_settling_value known ranges before
    obtain ⟨_, _, rfl⟩ := meet_scalar_ok settled met
    simp [Changes]

end Variable

def Store.known (s : Store) (name : String) : Bounds :=
  match s.find? name with
  | some v => v.value.bounds
  | none => Interval.unbounded.toBounds

theorem Store.known_eq_subject (s : Store) (name : String) :
    s.known name = (s.subject name).value.bounds := by
  unfold known
  cases found : s.find? name with
  | none =>
    rw [subject_of_missing found]
    rfl
  | some v => rw [subject_of_find found]

theorem Admissible.known_interval {store : Store} {proposals : List Proposal}
    (admissible : Admissible store proposals) {p : Proposal} (member : p ∈ proposals) :
    ∃ current, (store.subject p.target).value = .interval current ∧
      store.known p.target = current.toBounds := by
  obtain ⟨current, known⟩ :=
    (open_iff_subject store p.target).mp (admissible.targets_open p member)
  refine ⟨current, known, ?_⟩
  rw [store.known_eq_subject, known]
  rfl

namespace Application

/-- The update at a place says what the proposal there did to the store it found. -/
theorem steps_update {store : Store} {before after : List Proposal} {p : Proposal}
    {updates : List Update} (taken : (steps store (before ++ p :: after)).outcome = .ok updates) :
    ∃ earlier changed, (steps store before).outcome = .ok earlier ∧
      (p.step (steps store before).store).outcome = .ok changed ∧
      updates[before.length]? = some (p.toUpdate changed) := by
  induction before generalizing store updates with
  | nil =>
    obtain ⟨changed, _, now, _, rfl⟩ := steps_cons_ok taken
    exact ⟨[], changed, rfl, now, rfl⟩
  | cons q rest ih =>
    obtain ⟨flag, _, first, outcome, rfl⟩ := steps_cons_ok taken
    obtain ⟨earlier, changed, passed, now, reported⟩ := ih outcome
    obtain ⟨all, passed⟩ := (steps_cons_ok_iff store q rest).mpr ⟨⟨flag, first⟩, earlier, passed⟩
    rw [steps_cons_store first]
    exact ⟨all, changed, passed, now, reported⟩

end Application

/-- What proposals that are taken leave in a store: every target as its own values leave it, the
    other variables as they were, and for each proposal an update that says whether it changed its
    target. -/
structure Targetwise (store : Store) (proposals : List Proposal) (updates : List Update)
    (final : Store) : Prop where
  targets : ∀ p ∈ proposals, ∃ v, final.find? p.target = some v ∧
    Leaves (store.known p.target) (valuesFor p.target proposals) v.value
  others : ∀ name, (∀ p ∈ proposals, p.target ≠ name) → final.find? name = store.find? name
  count : updates.length = proposals.length
  reported : ∀ before p after, proposals = before ++ p :: after →
    ∃ changed, updates[before.length]? = some (p.toUpdate changed) ∧
      (changed = true ↔ Changes (store.known p.target) (valuesFor p.target before) p.value)

theorem taken_iff_acceptable {store : Store} {proposals : List Proposal}
    (admissible : Admissible store proposals) : Taken store proposals ↔
      ∀ p ∈ proposals, Acceptable (store.known p.target) (valuesFor p.target proposals) := by
  rw [taken_iff admissible]
  constructor
  · intro each p member
    obtain ⟨current, held, known⟩ := admissible.known_interval member
    rw [known]
    exact (meetAll_ok_iff held (values_storable admissible p.target)).mp (each p.target)
  · intro each name
    by_cases target : ∃ p ∈ proposals, p.target = name
    · obtain ⟨p, member, rfl⟩ := target
      obtain ⟨current, held, known⟩ := admissible.known_interval member
      have acceptable := each p member
      rw [known] at acceptable
      exact (meetAll_ok_iff held (values_storable admissible p.target)).mpr acceptable
    · have nothing : valuesFor name proposals = [] := by
        refine List.eq_nil_iff_forall_not_mem.mpr fun value proposed => ?_
        obtain ⟨p, member, same, _⟩ := mem_valuesFor.mp proposed
        exact target ⟨p, member, same⟩
      rw [nothing]
      exact ⟨_, rfl⟩

theorem applyAll_targetwise (store : Store) (proposals : List Proposal)
    (admissible : Admissible store proposals) :
    (Taken store proposals ↔
      ∀ p ∈ proposals, Acceptable (store.known p.target) (valuesFor p.target proposals)) ∧
    ∀ updates, (applyAll store proposals).outcome = .ok updates →
      Targetwise store proposals updates (applyAll store proposals).store := by
  refine ⟨taken_iff_acceptable admissible, fun updates taken => ?_⟩
  have applied := applyAll_applied admissible taken
  rw [applyAll_eq_steps admissible] at taken ⊢
  exact {
    targets := by
      intro p member
      obtain ⟨current, held, known⟩ := admissible.known_interval member
      obtain ⟨v, found⟩ := steps_find_target taken member
      have met := steps_subject taken p.target
      rw [Store.subject_of_find found] at met
      rw [known]
      exact ⟨v, found, meetAll_leaves held met⟩
    others := fun _ => steps_find_other taken
    count := by simpa using congrArg List.length applied.equations
    reported := by
      rintro before p after rfl
      obtain ⟨current, held, known⟩ := admissible.known_interval (p := p) (by simp)
      obtain ⟨earlier, changed, first, now, reported⟩ := steps_update taken
      obtain ⟨w, met, _⟩ := Proposal.step_subject now
      rw [known]
      exact ⟨changed, reported, meet_changes_iff held (steps_subject first p.target) met⟩ }

def interleaved : List Proposal :=
  [⟨"inlet", ⟨"flow", .interval ⟨⟨5.25, 6.5⟩, by decide +kernel⟩, 2⟩⟩,
    ⟨"tank", ⟨"level", .interval ⟨⟨0.5, 3.25⟩, by decide +kernel⟩, 2⟩⟩,
    ⟨"pump", ⟨"flow", .scalar 2.25, 1⟩⟩,
    ⟨"gauge", ⟨"level", .interval ⟨⟨1.5, 8.25⟩, by decide +kernel⟩, 2⟩⟩,
    ⟨"outlet", ⟨"flow", .interval ⟨⟨1.25, 2.75⟩, by decide +kernel⟩, 2⟩⟩]

theorem interleaved_admissible : Admissible .empty interleaved := by
  refine ⟨fun _ _ => rfl, fun p member => ?_⟩
  simp only [interleaved, List.mem_cons, List.not_mem_nil, or_false] at member
  rcases member with rfl | rfl | rfl | rfl | rfl
  · trivial
  · trivial
  · exact (by decide +kernel : Float.isFinite 2.25 = true)
  · trivial
  · trivial

theorem interleaved_targetwise :
    Admissible .empty interleaved ∧
      (∀ p ∈ interleaved, Acceptable (Store.empty.known p.target)
        (valuesFor p.target interleaved)) ∧
      Targetwise .empty interleaved
        (interleaved.zipWith Proposal.toUpdate [true, true, true, true, false])
        (applyAll .empty interleaved).store := by
  have taken : (applyAll .empty interleaved).outcome =
      .ok (interleaved.zipWith Proposal.toUpdate [true, true, true, true, false]) := by
    decide +kernel
  have targetwise := applyAll_targetwise .empty interleaved interleaved_admissible
  exact ⟨interleaved_admissible, targetwise.1.mp ⟨_, taken⟩, targetwise.2 _ taken⟩

end Narrowing
