import Narrowing.Solver.Application
import Narrowing.Proofs.Store.Lookup
import Narrowing.Proofs.Variable.Meeting

/-!
The proposals of one cycle, applied one by one. Whether a target is settled can be read off the
store, because no target is exact when the cycle starts; so applying a list of proposals is a
sequence of steps that each meet one variable with one value, and no step touches another
variable. A list succeeds exactly when it does target by target.
-/
namespace Narrowing

/-- The variable that a proposal under this name meets: the stored one, or a new one. -/
def Store.subject (s : Store) (name : String) : Variable :=
  (s.find? name).getD (.new name .derived Proposal.derivedUnit)

namespace Store

theorem subject_of_find {s : Store} {name : String} {v : Variable}
    (found : s.find? name = some v) : s.subject name = v := by
  simp [subject, found]

theorem subject_of_missing {s : Store} {name : String} (missing : s.find? name = none) :
    s.subject name = .new name .derived Proposal.derivedUnit := by
  simp [subject, missing]

theorem subject_name (s : Store) (name : String) : (s.subject name).name = name := by
  cases found : s.find? name with
  | none =>
    rw [subject_of_missing found]
    rfl
  | some v =>
    rw [subject_of_find found]
    exact name_of_find found

end Store

theorem open_iff_subject (s : Store) (name : String) :
    Equation.isOpen s name = true ↔ ∃ range, (s.subject name).value = .interval range := by
  unfold Equation.isOpen
  cases found : s.find? name with
  | none =>
    rw [Store.subject_of_missing found]
    exact ⟨fun _ => ⟨.unbounded, rfl⟩, fun _ => rfl⟩
  | some v =>
    rw [Store.subject_of_find found]
    simp only [Variable.precision, bne_iff_ne, ne_eq, Value.precision_finite_iff]
    cases v.value with
    | scalar x => simp
    | interval range => simp

namespace Proposal

def extended (p : Proposal) (store : Store) : Store :=
  if store.contains p.target then store
  else ⟨store.roster.put (.new p.target .derived derivedUnit)⟩

def created (p : Proposal) (store : Store) : List (String × String) :=
  if store.contains p.target then [] else [(p.equation, p.target)]

def step (p : Proposal) (store : Store) : Application Bool :=
  match (store.subject p.target).meet p.value with
  | .error cause =>
    ⟨p.extended store, p.created store, .error (.update p.equation p.target cause)⟩
  | .ok (w, changed) => ⟨⟨(p.extended store).roster.put w⟩, p.created store, .ok changed⟩

theorem extended_find (p : Proposal) (store : Store) (name : String) :
    (p.extended store).find? name =
      if p.target = name then some (store.subject name) else store.find? name := by
  unfold extended
  cases found : store.find? p.target with
  | none =>
    rw [(Store.missing_iff store p.target).mpr found]
    simp only [Bool.false_eq_true, ↓reduceIte, Store.find_put]
    split
    · rename_i same
      change p.target = name at same
      rw [if_pos same, ← same, Store.subject_of_missing found]
    · rename_i other
      exact (if_neg other).symm
  | some v =>
    rw [(Store.contains_iff store p.target).mpr ⟨v, found⟩]
    simp only [↓reduceIte]
    split
    · rename_i same
      rw [← same, found, Store.subject_of_find found]
    · rfl

theorem extended_subject (p : Proposal) (store : Store) (name : String) :
    (p.extended store).subject name = store.subject name := by
  unfold Store.subject
  rw [extended_find]
  split
  · rfl
  · rfl

theorem ensureTarget_eq (p : Proposal) (store : Store) :
    p.ensureTarget store = .ok (p.extended store, !store.contains p.target) := by
  unfold ensureTarget extended
  cases present : store.contains p.target with
  | true => simp
  | false =>
    have free : store.add (.new p.target .derived derivedUnit) =
        .ok ⟨store.roster.put (.new p.target .derived derivedUnit)⟩ := by
      unfold Store.add
      exact if_neg (by simpa [Variable.new] using present)
    simp [free]

theorem one_eq_step {p : Proposal} {store : Store} {current : Interval}
    (known : (store.subject p.target).value = .interval current) :
    Application.one store p = p.step store := by
  have found : (p.extended store).find? p.target = some (store.subject p.target) := by
    rw [extended_find, if_pos rfl]
  unfold Application.one step
  rw [ensureTarget_eq, Variable.meet_of_interval known]
  simp only [Store.narrow, Store.get_of_find found, created]
  cases (store.subject p.target).update p.value with
  | error cause => cases store.contains p.target <;> simp
  | ok result => cases store.contains p.target <;> simp

theorem confirm_eq_step {p : Proposal} {store : Store} {x : Float}
    (known : (store.subject p.target).value = .scalar x) :
    (⟨store, [], (p.confirm store).map fun _ => false⟩ : Application Bool) = p.step store := by
  cases found : store.find? p.target with
  | none =>
    rw [Store.subject_of_missing found] at known
    simp [Variable.new, Value.unconstrained] at known
  | some v =>
    have present : store.contains p.target = true :=
      (Store.contains_iff store p.target).mpr ⟨v, found⟩
    have name : v.name = p.target := Store.name_of_find found
    unfold step confirm Variable.meet
    rw [Store.subject_of_find found] at known ⊢
    simp only [Store.get_of_find found, known, extended, created, present, ↓reduceIte]
    by_cases possible : p.value.bounds.Contains x
    · have back := Roster.put_of_find (r := store.roster) found
      simp only [Value.bounds] at possible ⊢
      simp [possible, Except.map, back]
    · revert possible
      cases p.value with
      | scalar y =>
        intro possible
        simp only [Value.bounds] at possible ⊢
        simp only [possible, Except.map, name, ↓reduceIte]
      | interval range =>
        intro possible
        simp only [Value.bounds] at possible ⊢
        simp only [possible, Except.map, name, ↓reduceIte]

theorem step_find {p : Proposal} {store : Store} {changed : Bool}
    (taken : (p.step store).outcome = .ok changed) :
    ∃ w, (store.subject p.target).meet p.value = .ok (w, changed) ∧
      ∀ name, (p.step store).store.find? name =
        if p.target = name then some w else store.find? name := by
  unfold step at *
  cases met : (store.subject p.target).meet p.value with
  | error cause => simp [met] at taken
  | ok result =>
    obtain ⟨w, flag⟩ := result
    simp only [met] at taken ⊢
    obtain rfl := Except.ok.inj taken
    refine ⟨w, rfl, fun name => ?_⟩
    have same : w.name = p.target := (Variable.meet_name met).trans (store.subject_name p.target)
    rw [Store.find_put, same, extended_find]
    split
    · rfl
    · rfl

theorem step_subject {p : Proposal} {store : Store} {changed : Bool}
    (taken : (p.step store).outcome = .ok changed) :
    ∃ w, (store.subject p.target).meet p.value = .ok (w, changed) ∧
      ∀ name, (p.step store).store.subject name =
        if p.target = name then w else store.subject name := by
  obtain ⟨w, met, find⟩ := step_find taken
  refine ⟨w, met, fun name => ?_⟩
  unfold Store.subject
  rw [find]
  split
  · rfl
  · rfl

/-- A step that is refused leaves every variable as it was, its target possibly added. -/
theorem step_refused {p : Proposal} {store : Store} {error : SolveError}
    (refused : (p.step store).outcome = .error error) :
    (∃ cause, (store.subject p.target).meet p.value = .error cause ∧
      error = .update p.equation p.target cause) ∧ (p.step store).store = p.extended store := by
  unfold step at *
  cases met : (store.subject p.target).meet p.value with
  | ok result => simp [met] at refused
  | error cause =>
    simp only [met] at refused
    exact ⟨⟨cause, rfl, (Except.error.inj refused).symm⟩, rfl⟩

end Proposal

namespace Application

def steps (store : Store) : List Proposal → Application (List Update)
  | [] => ⟨store, [], .ok []⟩
  | p :: rest =>
    let now := p.step store
    match now.outcome with
    | .error error => ⟨now.store, now.created, .error error⟩
    | .ok changed =>
      let later := steps now.store rest
      ⟨later.store, now.created ++ later.created, later.outcome.map (p.toUpdate changed :: ·)⟩

/- `settled` lists the names that are exact: a step keeps it so, given that a number is added to
   the list when it is taken. -/
theorem settled_after_step {settled : List String} {p : Proposal} {store : Store}
    {current : Interval} {changed : Bool}
    (known : (store.subject p.target).value = .interval current) (fresh : p.target ∉ settled)
    (taken : (p.step store).outcome = .ok changed) {name : String}
    (before : name ∈ settled ↔ ∃ x, (store.subject name).value = .scalar x) :
    name ∈ (if p.value.precision = .finite then p.target :: settled else settled) ↔
      ∃ x, ((p.step store).store.subject name).value = .scalar x := by
  obtain ⟨w, met, subject⟩ := Proposal.step_subject taken
  rw [subject]
  by_cases same : p.target = name
  · subst name
    simp only [↓reduceIte, Variable.meet_settles_iff known met, ← Value.precision_finite_iff]
    split
    · rename_i scalar
      simp [scalar]
    · rename_i ranged
      simp [ranged, fresh]
  · rw [if_neg same, ← before]
    split
    · simp [Ne.symm same]
    · rfl

theorem all_eq_steps {settled : List String} {store : Store} {proposals : List Proposal}
    (exactly : ∀ p ∈ proposals,
      p.target ∈ settled ↔ ∃ x, (store.subject p.target).value = .scalar x) :
    all settled store proposals = steps store proposals := by
  induction proposals generalizing settled store with
  | nil => rfl
  | cons p rest ih =>
    obtain ⟨first, later⟩ := List.forall_mem_cons.mp exactly
    unfold all steps
    cases known : (store.subject p.target).value with
    | scalar x =>
      simp only [if_pos (first.mpr ⟨x, known⟩), ← Proposal.confirm_eq_step known]
      cases p.confirm store with
      | error error => simp [Except.map]
      | ok _ => simp [Except.map, ih later]
    | interval current =>
      have fresh : p.target ∉ settled := by
        intro member
        obtain ⟨x, scalar⟩ := first.mp member
        simp [known] at scalar
      simp only [if_neg fresh, Proposal.one_eq_step known]
      cases taken : (p.step store).outcome with
      | error error => rfl
      | ok changed =>
        have next := ih fun q hq => settled_after_step known fresh taken (later q hq)
        simp only [next]

end Application

/-- What one cycle can apply: no target is exact yet, and each value is one that a variable may
    hold. -/
structure Admissible (store : Store) (proposals : List Proposal) : Prop where
  targets_open : ∀ p ∈ proposals, Equation.isOpen store p.target = true
  values_storable : ∀ p ∈ proposals, p.value.Storable

theorem Admissible.among {store : Store} {ps qs : List Proposal} (admissible : Admissible store ps)
    (among : ∀ q ∈ qs, q ∈ ps) : Admissible store qs :=
  ⟨fun q member => admissible.targets_open q (among q member),
    fun q member => admissible.values_storable q (among q member)⟩

theorem applyAll_eq_steps {store : Store} {proposals : List Proposal}
    (admissible : Admissible store proposals) :
    applyAll store proposals = Application.steps store proposals := by
  apply Application.all_eq_steps
  intro p member
  obtain ⟨range, ranged⟩ :=
    (open_iff_subject store p.target).mp (admissible.targets_open p member)
  simp [ranged]

namespace Application

def valuesFor (name : String) (proposals : List Proposal) : List Value :=
  (proposals.filter (·.target = name)).map Proposal.value

theorem valuesFor_cons (name : String) (p : Proposal) (rest : List Proposal) :
    valuesFor name (p :: rest) =
      if p.target = name then p.value :: valuesFor name rest else valuesFor name rest := by
  unfold valuesFor
  by_cases same : p.target = name <;> simp [same]

theorem mem_valuesFor {name : String} {proposals : List Proposal} {value : Value} :
    value ∈ valuesFor name proposals ↔ ∃ p ∈ proposals, p.target = name ∧ p.value = value := by
  simp [valuesFor, and_assoc]

theorem steps_cons_ok_iff (store : Store) (p : Proposal) (rest : List Proposal) :
    (∃ updates, (steps store (p :: rest)).outcome = .ok updates) ↔
      (∃ changed, (p.step store).outcome = .ok changed) ∧
        ∃ updates, (steps (p.step store).store rest).outcome = .ok updates := by
  rw [steps]
  cases (p.step store).outcome with
  | error error => simp
  | ok changed =>
    cases later : (steps (p.step store).store rest).outcome with
    | error error => simp [Except.map, later]
    | ok updates => simp [Except.map, later]

theorem steps_cons_store {store : Store} {p : Proposal} {rest : List Proposal} {changed : Bool}
    (taken : (p.step store).outcome = .ok changed) :
    (steps store (p :: rest)).store = (steps (p.step store).store rest).store := by
  rw [steps]
  simp [taken]

/-- Taken proposals leave every variable as it is after its own values, one after the other. -/
theorem steps_subject {store : Store} {proposals : List Proposal} {updates : List Update}
    (taken : (steps store proposals).outcome = .ok updates) (name : String) :
    (store.subject name).meetAll (valuesFor name proposals) =
      .ok ((steps store proposals).store.subject name) := by
  induction proposals generalizing store updates with
  | nil => rfl
  | cons p rest ih =>
    obtain ⟨⟨changed, now⟩, later, outcome⟩ := (steps_cons_ok_iff store p rest).mp ⟨updates, taken⟩
    obtain ⟨w, met, subject⟩ := Proposal.step_subject now
    have next := ih outcome
    rw [steps_cons_store now, valuesFor_cons]
    rw [subject] at next
    by_cases same : p.target = name
    · subst name
      simp only [↓reduceIte] at next ⊢
      exact (Variable.meetAll_cons_ok_iff _ _ _ _).mpr ⟨w, changed, met, next⟩
    · simpa [same] using next

theorem steps_settled {store : Store} {proposals : List Proposal} {updates : List Update}
    (taken : (steps store proposals).outcome = .ok updates) {name : String} {current : Interval}
    (known : (store.subject name).value = .interval current) {x : Float}
    (settled : ((steps store proposals).store.subject name).value = .scalar x) :
    ∃ p ∈ proposals, p.target = name ∧ p.value = .scalar x := by
  apply mem_valuesFor.mp
  have met := steps_subject taken name
  rcases Variable.ranges_or_settling (valuesFor name proposals) with
    ⟨ranges, all⟩ | ⟨ranges, y, rest, all⟩
  · rw [all] at met
    obtain ⟨narrowed, left, _⟩ := Variable.meetAll_ranges_value known ranges met
    simp [left] at settled
  · rw [all] at met
    have left := Variable.meetAll_settling_value known ranges met
    obtain rfl := Value.scalar.inj (left.symm.trans settled)
    simp [all]

theorem steps_open_iff {store : Store} {proposals : List Proposal} {updates : List Update}
    (taken : (steps store proposals).outcome = .ok updates) {name : String} {current : Interval}
    (known : (store.subject name).value = .interval current) :
    (∃ range, ((steps store proposals).store.subject name).value = .interval range) ↔
      ∀ p ∈ proposals, p.target = name → ∀ x, p.value ≠ .scalar x := by
  constructor
  · rintro ⟨range, left⟩ p member same x number
    have met := steps_subject taken name
    have proposed : .scalar x ∈ valuesFor name proposals :=
      mem_valuesFor.mpr ⟨p, member, same, number⟩
    rcases Variable.ranges_or_settling (valuesFor name proposals) with
      ⟨ranges, all⟩ | ⟨ranges, y, rest, all⟩
    · simp [all] at proposed
    · rw [all] at met
      have settled := Variable.meetAll_settling_value known ranges met
      simp [left] at settled
  · intro none
    cases left : ((steps store proposals).store.subject name).value with
    | interval range => exact ⟨range, rfl⟩
    | scalar x =>
      obtain ⟨p, member, same, number⟩ := steps_settled taken known left
      exact absurd number (none p member same x)

theorem steps_ok_iff (store : Store) (proposals : List Proposal) :
    (∃ updates, (steps store proposals).outcome = .ok updates) ↔
      ∀ name, ∃ w, (store.subject name).meetAll (valuesFor name proposals) = .ok w := by
  constructor
  · intro ⟨updates, taken⟩ name
    exact ⟨_, steps_subject taken name⟩
  · intro each
    induction proposals generalizing store with
    | nil => exact ⟨[], rfl⟩
    | cons p rest ih =>
      have first := each p.target
      simp only [valuesFor_cons, ↓reduceIte, Variable.meetAll_cons_ok_iff] at first
      obtain ⟨_, w, changed, met, _⟩ := first
      have now : (p.step store).outcome = .ok changed := by
        unfold Proposal.step
        rw [met]
      refine (steps_cons_ok_iff store p rest).mpr ⟨⟨changed, now⟩, ih _ fun name => ?_⟩
      obtain ⟨w', met', subject⟩ := Proposal.step_subject now
      obtain ⟨rfl, _⟩ := Prod.mk.inj (Except.ok.inj (met.symm.trans met'))
      obtain ⟨u, later⟩ := each name
      rw [subject]
      rw [valuesFor_cons] at later
      by_cases same : p.target = name
      · subst name
        simp only [↓reduceIte, Variable.meetAll_cons_ok_iff] at later ⊢
        obtain ⟨t, flag, met'', later⟩ := later
        obtain ⟨rfl, _⟩ := Prod.mk.inj (Except.ok.inj (met.symm.trans met''))
        exact ⟨u, later⟩
      · rw [if_neg same] at later ⊢
        exact ⟨u, later⟩

theorem steps_find_other {store : Store} {proposals : List Proposal} {updates : List Update}
    (taken : (steps store proposals).outcome = .ok updates) {name : String}
    (other : ∀ p ∈ proposals, p.target ≠ name) :
    (steps store proposals).store.find? name = store.find? name := by
  induction proposals generalizing store updates with
  | nil => rfl
  | cons p rest ih =>
    obtain ⟨distinct, other⟩ := List.forall_mem_cons.mp other
    obtain ⟨⟨changed, now⟩, later, outcome⟩ := (steps_cons_ok_iff store p rest).mp ⟨updates, taken⟩
    obtain ⟨w, _, find⟩ := Proposal.step_find now
    rw [steps_cons_store now, ih outcome other, find, if_neg distinct]

theorem steps_find_some {store : Store} {proposals : List Proposal} {updates : List Update}
    (taken : (steps store proposals).outcome = .ok updates) {name : String} {v : Variable}
    (found : store.find? name = some v) : ∃ w, (steps store proposals).store.find? name = some w := by
  induction proposals generalizing store updates v with
  | nil => exact ⟨v, found⟩
  | cons p rest ih =>
    obtain ⟨⟨changed, now⟩, later, outcome⟩ := (steps_cons_ok_iff store p rest).mp ⟨updates, taken⟩
    obtain ⟨w, _, find⟩ := Proposal.step_find now
    rw [steps_cons_store now]
    by_cases same : p.target = name
    · exact ih outcome ((find name).trans (if_pos same))
    · exact ih outcome ((find name).trans ((if_neg same).trans found))

theorem steps_find_target {store : Store} {proposals : List Proposal} {updates : List Update}
    (taken : (steps store proposals).outcome = .ok updates) {p : Proposal} (member : p ∈ proposals) :
    ∃ w, (steps store proposals).store.find? p.target = some w := by
  induction proposals generalizing store updates with
  | nil => simp at member
  | cons q rest ih =>
    obtain ⟨⟨changed, now⟩, later, outcome⟩ := (steps_cons_ok_iff store q rest).mp ⟨updates, taken⟩
    obtain ⟨w, _, find⟩ := Proposal.step_find now
    rw [steps_cons_store now]
    rcases List.mem_cons.mp member with rfl | member
    · exact steps_find_some outcome ((find p.target).trans (if_pos rfl))
    · exact ih outcome member

/-- What every step keeps is kept, also when a refusal cuts the steps short. -/
theorem steps_preserve (holds : Store → Prop) {store : Store} {proposals : List Proposal}
    (step : ∀ p ∈ proposals, ∀ store, holds store → holds (p.step store).store)
    (first : holds store) : holds (steps store proposals).store := by
  induction proposals generalizing store with
  | nil => exact first
  | cons p rest ih =>
    obtain ⟨now, later⟩ := List.forall_mem_cons.mp step
    have next := now store first
    unfold steps
    cases outcome : (p.step store).outcome with
    | error error =>
      simp only [outcome]
      exact next
    | ok changed =>
      simp only [outcome]
      exact ih later next

/-- The first refusal ends it: everything before is taken, nothing after is looked at. -/
theorem steps_error {store : Store} {proposals : List Proposal} {error : SolveError}
    (failed : (steps store proposals).outcome = .error error) :
    ∃ before p after updates, proposals = before ++ p :: after ∧
      (steps store before).outcome = .ok updates ∧
      (p.step (steps store before).store).outcome = .error error ∧
      (steps store proposals).store = (p.step (steps store before).store).store := by
  induction proposals generalizing store with
  | nil => simp [steps] at failed
  | cons p rest ih =>
    cases now : (p.step store).outcome with
    | error cause =>
      rw [steps] at failed ⊢
      simp only [now] at failed ⊢
      obtain rfl := Except.error.inj failed
      exact ⟨[], p, rest, [], rfl, rfl, now, rfl⟩
    | ok changed =>
      have failedLater : (steps (p.step store).store rest).outcome = .error error := by
        rw [steps] at failed
        simp only [now] at failed
        cases later : (steps (p.step store).store rest).outcome with
        | error cause => simpa [later, Except.map] using failed
        | ok updates => simp [later, Except.map] at failed
      obtain ⟨before, q, after, updates, rfl, taken, refused, left⟩ := ih failedLater
      obtain ⟨all, taken⟩ := (steps_cons_ok_iff store p before).mpr ⟨⟨changed, now⟩, updates, taken⟩
      refine ⟨p :: before, q, after, all, rfl, taken, ?_, ?_⟩
      · rw [steps_cons_store now]
        exact refused
      · rw [steps_cons_store now, steps_cons_store now]
        exact left

theorem steps_refused {store : Store} {before : List Proposal} {updates : List Update}
    {p : Proposal} {error : SolveError} (taken : (steps store before).outcome = .ok updates)
    (refused : (p.step (steps store before).store).outcome = .error error) (after : List Proposal) :
    (steps store (before ++ p :: after)).outcome = .error error := by
  induction before generalizing store updates with
  | nil =>
    have refused : (p.step store).outcome = .error error := refused
    rw [List.nil_append, steps]
    simp only [refused]
  | cons q rest ih =>
    obtain ⟨⟨changed, now⟩, later, outcome⟩ := (steps_cons_ok_iff store q rest).mp ⟨updates, taken⟩
    rw [steps_cons_store now] at refused
    have failed := ih outcome refused
    rw [List.cons_append, steps]
    simp only [now, failed]
    rfl

end Application

end Narrowing
